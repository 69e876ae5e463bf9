import LuaCore.Excerpt
import LuaCore.Proofs.Lines
import LuaCore.Proofs.Parsing

/-!
Where an excerpt points. A place counts lines by line feeds, an excerpt counts them as a reader
does. Where both agree up to the line of a syntax error, the excerpt shows that line and highlights
in it what the text is refused for.
-/

namespace LuaCore

/-! Lines between line feeds, and lines as a reader sees them. -/

namespace Text

/-- A line that no reader breaks: at most its last character ends a line. -/
def Unbroken (line : List Char) : Prop :=
  ∀ c ∈ line.dropLast, isLineEnd c = false

/-- A line that the line feed behind it ends for every reader. A carriage return may stand in
between. -/
structure Fed (line : List Char) : Prop where
  unbroken : Unbroken line
  last : ∀ c ∈ line.getLast?, isLineEnd c → c = '\r'

/-- A reader counts the lines of a text as the line feeds do, up to a line of it. What stands at the
end of that line, it may end there as well. -/
structure Clear (text : List Char) (number : Nat) : Prop where
  above : ∀ line ∈ (text.splitOn '\n').take (number - 1), Fed line
  shown : ∀ line ∈ (text.splitOn '\n')[number - 1]?, Unbroken line

-- Written out, since an instance that tries all characters there are would be found first.
instance (line : List Char) : Decidable (Unbroken line) :=
  List.decidableBAll (fun c => isLineEnd c = false) line.dropLast

instance (line : List Char) : Decidable (Fed line) :=
  decidable_of_iff (Unbroken line ∧ line.getLast?.all fun c => !isLineEnd c || c == '\r') <| by
    have last : (line.getLast?.all fun c => !isLineEnd c || c == '\r') ↔
        ∀ c ∈ line.getLast?, isLineEnd c → c = '\r' := by
      cases line.getLast? <;> simp [or_iff_not_imp_left]
    rw [last]
    exact ⟨fun ⟨unbroken, last⟩ => ⟨unbroken, last⟩, fun ⟨unbroken, last⟩ => ⟨unbroken, last⟩⟩

instance (text : List Char) (number : Nat) : Decidable (Clear text number) :=
  decidable_of_iff ((∀ line ∈ (text.splitOn '\n').take (number - 1), Fed line) ∧
      ∀ line ∈ (text.splitOn '\n')[number - 1]?, Unbroken line)
    ⟨fun ⟨above, shown⟩ => ⟨above, shown⟩, fun ⟨above, shown⟩ => ⟨above, shown⟩⟩

theorem lines_cons {c : Char} (inside : isLineEnd c = false) (rest : List Char) :
    lines (c :: rest) = extendFirst c (lines rest) := by
  rw [lines, if_neg (by simp [inside])]
  rintro _ rfl _
  exact absurd inside (by decide)

theorem unbroken_cons {c d : Char} {rest : List Char} (unbroken : Unbroken (c :: d :: rest)) :
    isLineEnd c = false ∧ Unbroken (d :: rest) :=
  ⟨unbroken c (by simp), fun e member => unbroken e (by simp [member])⟩

theorem lines_fed {line : List Char} (fed : Fed line) (more : List Char) :
    lines (line ++ '\n' :: more) = (line ++ ['\n']) :: lines more := by
  induction line with
  | nil => rfl
  | cons c rest ih =>
      cases rest with
      | nil =>
          by_cases inside : isLineEnd c
          · obtain rfl := fed.last c rfl inside
            rfl
          · rw [List.singleton_append, lines_cons (by simpa using inside)]
            rfl
      | cons d rest =>
          obtain ⟨inside, unbroken⟩ := unbroken_cons fed.unbroken
          rw [List.cons_append, lines_cons inside, ih ⟨unbroken, fed.last⟩]
          rfl

theorem lines_above {above : List (List Char)} (fed : ∀ line ∈ above, Fed line)
    (rest : List Char) :
    lines (above.flatMap (· ++ ['\n']) ++ rest) = above.map (· ++ ['\n']) ++ lines rest := by
  induction above with
  | nil => rfl
  | cons line above ih =>
      rw [List.forall_mem_cons] at fed
      rw [List.flatMap_cons, List.append_assoc, List.append_assoc, List.singleton_append,
        lines_fed fed.1, ih fed.2]
      rfl

/-- What stands behind a line: nothing, or a line feed with the text behind it. -/
inductive Behind : List Char → Prop where
  | nothing : Behind []
  | feed (more : List Char) : Behind ('\n' :: more)

theorem lines_break {c : Char} (breaks : isLineEnd c) (other : c ≠ '\r') (rest : List Char) :
    lines (c :: rest) = [c] :: lines rest := by
  rw [lines, if_pos breaks]
  exact fun _ same => absurd same other

/-- The last character of a line and what stands behind it. A line feed belongs to the line, unless
the character has ended it before. -/
theorem lines_last (c : Char) {below : List Char} (behind : Behind below) :
    ∃ ending more, lines (c :: below) = (c :: ending) :: more ∧
      (ending = [] ∨ ending = ['\n']) := by
  cases behind with
  | nothing => exact ⟨[], [], by simp [lines, extendFirst], .inl rfl⟩
  | feed more =>
      by_cases fed : isLineEnd c → c = '\r'
      · have alone : Fed [c] := ⟨by simp [Unbroken], by simpa using fed⟩
        exact ⟨['\n'], lines more, lines_fed alone more, .inr rfl⟩
      · rw [Classical.not_imp] at fed
        exact ⟨[], lines ('\n' :: more), lines_break fed.1 fed.2 _, .inl rfl⟩

/-- The first line of a text, for a reader, is the one up to its first line feed, and this line
feed may belong to it. -/
theorem lines_first {line below : List Char} (unbroken : Unbroken line) (solid : line ≠ [])
    (behind : Behind below) :
    ∃ ending more, lines (line ++ below) = (line ++ ending) :: more ∧
      (ending = [] ∨ ending = ['\n']) := by
  induction line with
  | nil => exact absurd rfl solid
  | cons c rest ih =>
      cases rest with
      | nil => exact lines_last c behind
      | cons d rest =>
          obtain ⟨inside, unbroken⟩ := unbroken_cons unbroken
          obtain ⟨ending, more, same, ends⟩ := ih unbroken (List.cons_ne_nil d rest)
          exact ⟨ending, more, by rw [List.cons_append, lines_cons inside, same]; rfl, ends⟩

/-- A text with a line of it: the lines above, each with its line feed, and what stands behind. -/
structure Holds (text : List Char) (above : List (List Char)) (line below : List Char) : Prop where
  whole : text = above.flatMap (· ++ ['\n']) ++ (line ++ below)
  plain : ∀ other ∈ above, '\n' ∉ other
  inLine : '\n' ∉ line
  behind : Behind below

theorem splitOn_above {above : List (List Char)} (plain : ∀ other ∈ above, '\n' ∉ other)
    (rest : List Char) :
    (above.flatMap (· ++ ['\n']) ++ rest).splitOn '\n' = above ++ rest.splitOn '\n' := by
  induction above with
  | nil => rfl
  | cons line above ih =>
      rw [List.forall_mem_cons] at plain
      rw [List.flatMap_cons, List.append_assoc, List.append_assoc, List.singleton_append,
        List.splitOn_append_cons_self_of_not_mem plain.1, ih plain.2]
      rfl

theorem splitOn_holds {text line below : List Char} {above : List (List Char)}
    (holds : Holds text above line below) :
    ∃ more, text.splitOn '\n' = above ++ line :: more := by
  rw [holds.whole, splitOn_above holds.plain]
  cases holds.behind with
  | nothing => exact ⟨[], by rw [List.append_nil, List.splitOn_eq_singleton holds.inLine]⟩
  | feed more =>
      exact ⟨more.splitOn '\n', by rw [List.splitOn_append_cons_self_of_not_mem holds.inLine]⟩

end Text

/-! Places as line feeds count them. -/

namespace Position

/-- A place counts the lines above it and the characters in front of it in its line. -/
theorem advance_counts (text : List Char) :
    ∃ (above : List (List Char)) (front : List Char),
      text = above.flatMap (· ++ ['\n']) ++ front ∧ (∀ line ∈ above, '\n' ∉ line) ∧ '\n' ∉ front ∧
      advance {} text = ⟨above.length + 1, front.length + 1⟩ := by
  induction text using List.reverseRecOn with
  | nil => exact ⟨[], [], rfl, by simp, by simp, rfl⟩
  | append_singleton text c ih =>
      obtain ⟨above, front, rfl, plain, inLine, place⟩ := ih
      rw [advance_append, place]
      by_cases feed : c = '\n'
      · refine ⟨above ++ [front], [], by simp [feed], ?_, by simp, by simp [advance, next, feed]⟩
        intro line member
        rcases List.mem_append.mp member with member | member
        · exact plain line member
        · exact List.mem_singleton.mp member ▸ inLine
      · refine ⟨above, front ++ [c], by simp, plain, ?_, by simp [advance, next, feed]⟩
        simpa [inLine] using Ne.symm feed

end Position

/-- A part of a line, which is not empty, stands at a place of a text that starts somewhere. -/
inductive Stands (start : Position) (text : List Char) (place : Position) : List Char → Prop where
  | intro (before part after : List Char) (whole : text = before ++ part ++ after)
      (counted : place = start.advance before) (inLine : '\n' ∉ part) (solid : part ≠ []) :
      Stands start text place part

theorem Text.behind_first (text : List Char) :
    ∃ stop below, text = stop ++ below ∧ '\n' ∉ stop ∧ Behind below := by
  induction text with
  | nil => exact ⟨[], [], rfl, by simp, .nothing⟩
  | cons c rest ih =>
      by_cases feed : c = '\n'
      · exact ⟨[], c :: rest, rfl, by simp, feed ▸ .feed rest⟩
      · obtain ⟨stop, below, rfl, inLine, behind⟩ := ih
        exact ⟨c :: stop, below, rfl, by simp [inLine, Ne.symm feed], behind⟩

/-- A part of a line is found in the line of its place, behind as many characters as its column
tells. -/
theorem stands_holds {text part : List Char} {place : Position}
    (stands : Stands {} text place part) :
    ∃ above front stop below, Text.Holds text above (front ++ part ++ stop) below ∧
      place = ⟨above.length + 1, front.length + 1⟩ := by
  obtain ⟨before, _, after, rfl, rfl, inLine, _⟩ := stands
  obtain ⟨above, front, rfl, plain, clean, place⟩ := Position.advance_counts before
  obtain ⟨stop, below, rfl, quiet, behind⟩ := Text.behind_first after
  refine ⟨above, front, stop, below, ⟨by simp, plain, ?_, behind⟩, place⟩
  simp [inLine, clean, quiet]

/-! Tokens in their lines. -/

namespace Lexer

/-- A pattern that avoids line feeds stays in its line. -/
theorem avoids_match {pattern : Pattern} (avoids : pattern.Avoids '\n') {lexeme rest : List Char}
    (found : pattern.rest? (lexeme ++ rest) = some rest) : '\n' ∉ lexeme := by
  intro member
  obtain ⟨front, back, rfl⟩ := List.append_of_mem member
  rw [List.append_assoc, List.cons_append, Pattern.rest?_avoids avoids] at found
  obtain ⟨left, _, same⟩ := Option.map_eq_some_iff.mp found
  have long := congrArg List.length same
  simp only [List.length_append, List.length_cons] at long
  omega

theorem sounds_avoids {terminal : Terminal} {lexeme : List Char} {kind : Token.Kind}
    (sounds : terminal.kind? lexeme = some kind) : terminal.pattern.Avoids '\n' := by
  cases terminal with
  | longComment | comment | blank => cases sounds
  | number => exact number_avoids (by decide)
  | string => exact string_avoids
  | name => exact name_avoids (by decide)
  | symbol mark => exact symbol_avoids (by decide) mark

theorem stands_behind {position place : Position} {lexeme rest part : List Char}
    (stands : Stands (position.advance lexeme) rest place part) :
    Stands position (lexeme ++ rest) place part := by
  obtain ⟨before, _, after, rfl, rfl, inLine, solid⟩ := stands
  exact ⟨lexeme ++ before, _, after, by simp, (Position.advance_append ..).symm, inLine, solid⟩

/-- Each token stands at its place. -/
theorem lexes_stand {position place : Position} {text more : List Char} {tokens : List Token}
    (lexes : Lexes position text tokens place more) :
    ∀ token ∈ tokens, Stands position text token.position token.text.toList := by
  induction lexes with
  | refl => simp
  | ignored first silent _ ih => exact fun token member => stands_behind (ih token member)
  | @token position _ lexeme rest _ _ _ _ first sounds _ ih =>
      intro token member
      rcases List.mem_cons.mp member with rfl | member
      · refine ⟨[], _, rest, by simp, rfl, ?_, ?_⟩
        · simpa using avoids_match (sounds_avoids sounds) (first_match first)
        · simpa using first_solid first
      · exact stands_behind (ih token member)

/-- A line feed is a blank, so it is never refused. -/
theorem unmatched_solid {c : Char} {rest : List Char}
    (unmatched : Terminal.first? (c :: rest) = none) : c ≠ '\n' := by
  rintro rfl
  have none := List.findSome?_eq_none_iff.mp unmatched .blank (by simp [Terminal.all])
  have measured : Terminal.blank.length? ('\n' :: rest) = some (run isBlank rest + 1) := rfl
  rw [Option.map_eq_none_iff, measures .blank, measured] at none
  cases none

end Lexer

open Lexer

/-- What a text is refused for stands at the place that is told. At the end of a text this is the
first character of the last token. -/
theorem problem_stands {source name token : String} {run : List Token} {place : Position}
    (problem : Problem source run name token place) :
    ∃ part, Stands {} source.toList place part ∧
      (part = token.toList ∨ token = "" ∧ part.length = 1) := by
  cases problem with
  | token token _ _ lexes => exact ⟨_, lexes_stand lexes token (by simp), .inl rfl⟩
  | character c _ rest lexes unmatched =>
      obtain ⟨before, whole, counted⟩ := lexes_reach lexes
      have inLine : '\n' ∉ [c] := by simpa using (unmatched_solid unmatched).symm
      exact ⟨[c], ⟨before, [c], rest, by simpa using whole, counted, inLine, by simp⟩,
        .inl (by simp)⟩
  | finish last _ isLast lexes =>
      obtain ⟨before, _, after, whole, counted, inLine, solid⟩ :=
        lexes_stand lexes last (List.mem_of_getLast? isLast)
      obtain ⟨c, more, text⟩ := List.exists_cons_of_ne_nil solid
      rw [text] at whole inLine
      have first : '\n' ∉ [c] := fun member => inLine (by simp_all)
      exact ⟨[c], ⟨before, [c], more ++ after, by simpa using whole, counted, first, by simp⟩,
        .inr ⟨rfl, rfl⟩⟩

/-- A syntax error reports the problem of its text. -/
theorem syntax_problem {source token : String} {error : ParseError} {place : Position}
    (outcome : parse source = .error error) (syntactic : ∀ fault, error ≠ .faulty fault)
    (stands : error.position? = some place) (shows : error.token? = some token) :
    ∃ run, Problem source run error.name token place := by
  have rejected : ¬ ∃ tokens, Lexed source tokens ∧ Accepted tokens := by
    rintro ⟨tokens, lexed, accepted⟩
    obtain ⟨tree, read⟩ := accepted_parses lexed accepted
    rw [parse_tree read] at outcome
    cases decoded : Block.ofTree tree with
    | ok program =>
        rw [decoded] at outcome
        cases outcome
    | error fault =>
        rw [decoded] at outcome
        cases outcome
        exact syntactic fault rfl
  obtain ⟨run, _, _, _, _, refused, problem⟩ := refused_problem source rejected
  obtain ⟨rfl, rfl, rfl⟩ := refused_unique refused ⟨error, outcome, rfl, shows, stands⟩
  exact ⟨run, problem⟩

/-! What an excerpt shows. -/

namespace Excerpt

/-- A line with its number, as it stands around the line that is asked for. -/
def dimRow (line : Nat × List Char) : List Char :=
  dim ++ label line.1 ++ plain ++ ' ' :: line.2

/-- A line with its number and with a part of it highlighted. -/
def brightRow (number : Nat) (front part stop : List Char) : List Char :=
  bright ++ label number ++ plain ++ ' ' :: (front ++ highlight ++ part ++ plain ++ stop)

/-- An excerpt that shows a part of a line highlighted, in its place, with at most two of the lines
above it and as many below it. -/
inductive Points (fileName : String) (above : List (List Char)) (front part stop : List Char) :
    List Char → Prop where
  | intro (below : List (List Char)) (few : below.length ≤ 2) :
      Points fileName above front part stop
        ((heading fileName (above.length + 1) ::
          (((numbered 0 above).drop (above.length - 2)).map dimRow ++
            brightRow (above.length + 1) front part stop ::
              (numbered (above.length + 1) below).map dimRow)).flatMap ('\n' :: ·) ++ ['\n'])

theorem brightRow_highlight (number : Nat) (front part stop : List Char) :
    highlight <:+: brightRow number front part stop :=
  ⟨bright ++ label number ++ plain ++ ' ' :: front, part ++ plain ++ stop, by simp [brightRow]⟩

@[simp] theorem numbered_length (before : Nat) (lines : List (List Char)) :
    (numbered before lines).length = lines.length := by
  induction lines generalizing before with
  | nil => rfl
  | cons line lines ih => exact congrArg (· + 1) (ih (before + 1))

theorem numbered_append (before : Nat) (first second : List (List Char)) :
    numbered before (first ++ second) =
      numbered before first ++ numbered (before + first.length) second := by
  induction first generalizing before with
  | nil => rfl
  | cons line first ih =>
      rw [List.cons_append, numbered, ih, numbered, List.length_cons, Nat.add_right_comm,
        Nat.add_assoc]
      rfl

theorem numbered_take (before count : Nat) (lines : List (List Char)) :
    (numbered before lines).take count = numbered before (lines.take count) := by
  induction lines generalizing before count with
  | nil => simp [numbered]
  | cons line lines ih =>
      cases count with
      | zero => rfl
      | succ count => rw [numbered, List.take_succ_cons, ih, List.take_succ_cons, numbered]

/-- The window around a line holds it between its neighbours. -/
theorem window_around (upper lower : List (List Char)) (line : List Char) :
    window (upper.length + 1) (upper ++ line :: lower) =
      (numbered 0 upper).drop (upper.length - 2) ++
        (upper.length + 1, line) :: numbered (upper.length + 1) (lower.take 2) := by
  have skipped : upper.length + 1 - 3 = upper.length - 2 := by omega
  have early : upper.length - 2 ≤ (numbered 0 upper).length := by
    rw [numbered_length]
    omega
  have front : ((numbered 0 upper).drop (upper.length - 2)).length =
      upper.length - (upper.length - 2) := by rw [List.length_drop, numbered_length]
  have count : min (upper ++ line :: lower).length (upper.length + 1 + 2) - (upper.length - 2) =
      upper.length - (upper.length - 2) + (min 2 lower.length + 1) := by
    rw [List.length_append, List.length_cons]
    omega
  rw [window, numbered_append, Nat.zero_add, skipped, List.drop_append_of_le_length early, count,
    ← front, List.take_length_add_append, numbered, List.take_succ_cons, numbered_take,
    ← List.take_eq_take_min]

theorem content_feed (line : List Char) : content (line ++ ['\n']) = line := by
  rw [content, if_pos List.getLast?_concat, List.dropLast_concat]

theorem content_ended {line ending : List Char} (inLine : '\n' ∉ line)
    (ends : ending = [] ∨ ending = ['\n']) : content (line ++ ending) = line := by
  rcases ends with rfl | rfl
  · rw [List.append_nil, content, if_neg fun last => inLine (List.mem_of_getLast? last)]
  · exact content_feed line

/-- Lines with other numbers are shown plainly. -/
theorem shown_around {before target : Nat} {lines : List (List Char)} (column : Int) (width : Nat)
    (other : target ≤ before ∨ before + lines.length < target) :
    (numbered before lines).map (shownLine target column width) =
      (numbered before (lines.map content)).map dimRow := by
  induction lines generalizing before with
  | nil => rfl
  | cons line lines ih =>
      rw [List.length_cons] at other
      have differs : before + 1 ≠ target := by omega
      rw [numbered, List.map_cons, ih (by omega), shownLine, if_neg differs]
      rfl

theorem markToken_part (front part stop : List Char) (solid : part ≠ []) :
    markToken (front.length + 1 : Nat) part.length (front ++ part ++ stop) =
      front ++ highlight ++ part ++ plain ++ stop := by
  have positive := List.length_pos_iff.mpr solid
  have inside : (0 : Int) < (front.length + 1 : Nat) ∧
      ((front.length + 1 : Nat) : Int) ≤ (front ++ part ++ stop).length := by
    simp only [List.length_append]
    omega
  rw [markToken, if_pos inside, Int.toNat_natCast, Nat.add_sub_cancel]
  simp [List.append_assoc]

theorem targetLine_within {count line : Nat} (positive : 0 < line) (within : line ≤ count) :
    targetLine count (some (line : Int)) = line := by
  have nonzero : (line : Int) ≠ 0 := by omega
  have same : min (max (line : Int).toNat 1) count = line := by omega
  rw [targetLine, if_neg nonzero, same]

/-- The rows of an excerpt around a line whose upper neighbours end in line feeds. -/
theorem shown_window (above lower : List (List Char)) (line : List Char) (column : Int)
    (width : Nat) :
    (window (above.length + 1) (above.map (· ++ ['\n']) ++ line :: lower)).map
        (shownLine (above.length + 1) column width) =
      ((numbered 0 above).drop (above.length - 2)).map dimRow ++
        shownLine (above.length + 1) column width (above.length + 1, line) ::
          (numbered (above.length + 1) ((lower.take 2).map content)).map dimRow := by
  have around := window_around (above.map (· ++ ['\n'])) lower line
  have contents : (above.map (· ++ ['\n'])).map content = above := by
    simp [Function.comp_def, content_feed]
  have upper : (numbered 0 (above.map (· ++ ['\n']))).map
      (shownLine (above.length + 1) column width) = (numbered 0 above).map dimRow := by
    rw [shown_around column width (.inr (by rw [List.length_map]; omega)), contents]
  have below : (numbered (above.length + 1) (lower.take 2)).map
      (shownLine (above.length + 1) column width) = _ :=
    shown_around column width (.inl (Nat.le_refl _))
  rw [List.length_map] at around
  rw [around, List.map_append, List.map_drop, upper, ← List.map_drop, List.map_cons, below]

/-- Where a reader sees the line as it is, the excerpt points at the part of it. -/
theorem render_points (fileName : String) {source token : String} {above more : List (List Char)}
    {front part stop ending : List Char}
    (lines : Text.lines source.toList =
      above.map (· ++ ['\n']) ++ (front ++ part ++ stop ++ ending) :: more)
    (inLine : '\n' ∉ front ++ part ++ stop) (ends : ending = [] ∨ ending = ['\n'])
    (solid : part ≠ []) (wide : part.length = max token.length 1) :
    Points fileName above front part stop
      (render fileName (some (above.length + 1 : Nat)) (some (front.length + 1 : Nat)) (some token)
        source).toList := by
  have some' : ¬ (Text.lines source.toList).isEmpty := by
    rw [lines]
    simp
  have target : targetLine (Text.lines source.toList).length (some (above.length + 1 : Nat)) =
      above.length + 1 := by
    refine targetLine_within (Nat.succ_pos _) ?_
    rw [lines, List.length_append, List.length_map, List.length_cons]
    omega
  have current : shownLine (above.length + 1) (front.length + 1 : Nat) (max token.length 1)
        (above.length + 1, front ++ part ++ stop ++ ending) =
      brightRow (above.length + 1) front part stop := by
    rw [shownLine, if_pos rfl, content_ended inLine ends, ← wide,
      markToken_part front part stop solid]
    rfl
  simp only [render, if_neg some', target, Option.getD_some]
  rw [lines, shown_window, current, String.toList_ofList]
  exact .intro ((more.take 2).map content) (by simp)

end Excerpt

/-- The excerpt for a syntax error shows the line of its place, as the line feeds count, and in that
line it highlights at the column what the text is refused for. A text that only stops too early is
refused for an empty token, of which the excerpt highlights one character. -/
theorem excerpt_points (fileName : String) {source token : String} {error : ParseError}
    {place : Position} (outcome : parse source = .error error)
    (syntactic : ∀ fault, error ≠ .faulty fault) (stands : error.position? = some place)
    (shows : error.token? = some token) (clear : Text.Clear source.toList place.line) :
    ∃ above front part stop,
      (source.toList.splitOn '\n').take place.line = above ++ [front ++ part ++ stop] ∧
      place = ⟨above.length + 1, front.length + 1⟩ ∧
      (part = token.toList ∨ token = "" ∧ part.length = 1) ∧
      Excerpt.Points fileName above front part stop
        (Excerpt.render fileName (some place.line) (some place.column) (some token)
          source).toList := by
  obtain ⟨run, problem⟩ := syntax_problem outcome syntactic stands shows
  obtain ⟨part, stands, told⟩ := problem_stands problem
  obtain ⟨above, front, stop, below, holds, rfl⟩ := stands_holds stands
  obtain ⟨further, split⟩ := Text.splitOn_holds holds
  obtain ⟨fed, unbroken⟩ := clear
  rw [split] at fed unbroken
  rw [Nat.add_sub_cancel, List.take_left] at fed
  have solid : part ≠ [] := by
    obtain ⟨_, _, _, _, _, _, solid⟩ := stands
    exact solid
  obtain ⟨ending, more, first, ends⟩ := Text.lines_first
    (unbroken (front ++ part ++ stop) (by simp)) (by simp [solid]) holds.behind
  have wide : part.length = max token.length 1 := by
    have positive := List.length_pos_iff.mpr solid
    rcases told with rfl | ⟨rfl, single⟩
    · rw [← String.length_toList]
      omega
    · exact single
  refine ⟨above, front, part, stop, ?_, rfl, told, ?_⟩
  · rw [split, List.take_append, List.take_of_length_le (Nat.le_succ _), Nat.add_sub_cancel_left]
    rfl
  · have seen : Text.lines source.toList =
        above.map (· ++ ['\n']) ++ (front ++ part ++ stop ++ ending) :: more := by
      rw [← first, ← Text.lines_above fed, ← holds.whole]
    exact Excerpt.render_points fileName seen holds.inLine ends solid wide

theorem excerpt_points_parenthesis : ∃ above front part stop,
    ("f()\nx = )".toList.splitOn '\n').take 2 = above ++ [front ++ part ++ stop] ∧
      (⟨2, 5⟩ : Position) = ⟨above.length + 1, front.length + 1⟩ ∧
      (part = ")".toList ∨ ")" = "" ∧ part.length = 1) ∧
      Excerpt.Points "f" above front part stop
        (Excerpt.render "f" (some 2) (some 5) (some ")") "f()\nx = )").toList := by
  have outcome : parse "f()\nx = )" =
      .error (.refused ⟨.symbol .rightParenthesis, ")", ⟨2, 5⟩⟩) := by cbv
  have clear : Text.Clear "f()\nx = )".toList 2 := by decide +kernel
  exact excerpt_points "f" outcome (by simp) rfl rfl clear

/-- A form feed ends a line for a reader and none for a place. -/
theorem excerpt_points_formFeed :
    ¬ ∀ (fileName source token : String) (error : ParseError) (place : Position),
      parse source = .error error → (∀ fault, error ≠ .faulty fault) →
      error.isIncomplete = false → error.position? = some place → error.token? = some token →
      ∃ front stop,
        (source.toList.splitOn '\n')[place.line - 1]? = some (front ++ token.toList ++ stop) ∧
        place.column = front.length + 1 ∧
        Excerpt.brightRow place.line front token.toList stop <:+:
          (Excerpt.render fileName (some place.line) (some place.column) (some token)
            source).toList := by
  intro always
  have outcome : parse "\x0c\nx = )" =
      .error (.refused ⟨.symbol .rightParenthesis, ")", ⟨2, 5⟩⟩) := by cbv
  obtain ⟨front, stop, _, _, shown⟩ := always "f" _ ")" _ ⟨2, 5⟩ outcome (by simp) rfl rfl rfl
  have missing : ¬ Excerpt.highlight <:+:
      (Excerpt.render "f" (some 2) (some 5) (some ")") "\x0c\nx = )").toList := by decide +kernel
  exact missing ((Excerpt.brightRow_highlight ..).trans shown)

end LuaCore
