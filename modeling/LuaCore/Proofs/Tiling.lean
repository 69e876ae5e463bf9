import LuaCore.Proofs.Lines

/-!
The pieces of a text. One behind the other they are the text, up to its end or up to a character
that starts no piece. A piece stands where the line feeds in front of it say, and goes on as far as
it can: no name ends in front of a character of names, and no sign inside of a longer one.
-/

namespace LuaCore

namespace Position

/-- The place behind a text, which counts its lines and the characters in the last one of them. -/
def tally (text : List Char) : Position :=
  ⟨1 + text.count '\n', 1 + (text.reverse.takeWhile (· != '\n')).length⟩

theorem advance_tally (text : List Char) : advance {} text = tally text := by
  induction text using List.reverseRecOn with
  | nil => rfl
  | append_singleton text c ih =>
      rw [advance_append, ih]
      by_cases feed : c = '\n'
      · simp [advance, next, tally, feed, Nat.add_assoc]
      · simp [advance, next, tally, feed, Nat.add_comm]

theorem tally_append (front text : List Char) :
    tally (front ++ text) = (tally front).advance text := by
  rw [← advance_tally, ← advance_tally, advance_append]

end Position

namespace Lexer

/-! What a terminal takes. -/

section

variable {lexeme rest : List Char} {terminal : Terminal}

/-- The first terminal takes as much as it measures. -/
theorem first_measures (first : Terminal.first? (lexeme ++ rest) = some (terminal, rest)) :
    ∃ length, terminal.length? (lexeme ++ rest) = some length ∧
      lexeme = (lexeme ++ rest).take length ∧ rest = (lexeme ++ rest).drop length := by
  have matched := first_match first
  rw [measures terminal, Option.map_eq_some_iff] at matched
  obtain ⟨length, found, behind⟩ := matched
  have whole := List.take_append_drop length (lexeme ++ rest)
  rw [behind] at whole
  exact ⟨length, found, (List.append_cancel_right whole).symm, behind.symm⟩

/-- A word goes on as far as its characters do. -/
theorem first_word (first : Terminal.first? (lexeme ++ rest) = some (.name, rest)) :
    ∀ c ∈ rest.head?, ¬ isNamePart c := by
  obtain ⟨length, found, _, behind⟩ := first_measures first
  cases text : lexeme ++ rest with
  | nil =>
      rw [text] at found
      cases found
  | cons c others =>
      rw [text] at found behind
      obtain ⟨_, same⟩ := Option.ite_none_right_eq_some.mp found
      cases same
      rw [List.drop_succ_cons, drop_run] at behind
      intro d member
      have stops := List.head?_dropWhile_not isNamePart others
      rw [← behind, member] at stops
      simpa using stops

/-- A long comment is taken up to its first closing brackets. -/
theorem first_longComment (first : Terminal.first? (lexeme ++ rest) = some (.longComment, rest)) :
    ∃ inside, lexeme = longMark ++ inside ++ [']', ']'] ∧ Unclosed inside := by
  obtain ⟨length, found, taken, _⟩ := first_measures first
  obtain ⟨inside, more, whole, unclosed, rfl⟩ := longComment_iff.mp found
  have split : longMark ++ inside ++ ']' :: ']' :: more =
      longMark ++ inside ++ [']', ']'] ++ more := by simp
  refine ⟨inside, ?_, unclosed⟩
  rw [taken, whole, split]
  exact List.take_left' (by simp [longMark])

/-- A name is none of the reserved words. -/
theorem name_unreserved {text : List Char} (named : wordKind text = .name) (word : Keyword) :
    text ≠ word.text.toList := by
  rintro rfl
  have known := List.find?_eq_none.mp (wordKind_name named) word (by cases word <;> decide)
  simp at known

/-- A comparison or an assignment is not the first half of a longer sign. -/
theorem first_sign (sign : lexeme ∈ [['='], ['<'], ['>']])
    (first : Terminal.first? (lexeme ++ rest) = some (terminal, rest)) : rest.head? ≠ some '=' := by
  intro follows
  obtain ⟨more, rfl⟩ := List.head?_eq_some_iff.mp follows
  have longer : ∃ other, Terminal.first? (lexeme ++ '=' :: more) = some (other, more) := by
    simp only [List.mem_cons, List.not_mem_nil, or_false] at sign
    rcases sign with rfl | rfl | rfl
    · exact ⟨.symbol (.operator .equal), @first_taken ['=', '='] more _ rfl⟩
    · exact ⟨.symbol (.operator .lessOrEqual), @first_taken ['<', '='] more _ rfl⟩
    · exact ⟨.symbol (.operator .greaterOrEqual), @first_taken ['>', '='] more _ rfl⟩
  obtain ⟨other, longer⟩ := longer
  have same := (Prod.mk.inj (Option.some.inj (first.symm.trans longer))).2
  exact absurd (congrArg List.length same) (by simp)

/-- Two minus signs start a comment, of which they are a part. -/
theorem measured_dashes (more : List Char) :
    ∃ terminal length, measured? ('-' :: '-' :: more) = some (terminal, length + 2) := by
  cases long : longComment? ('-' :: '-' :: more) with
  | some length =>
      obtain ⟨inside, _, _, _, rfl⟩ := longComment_iff.mp long
      exact ⟨_, inside.length + 4, @measured_first [] _ _ _ _ rfl (by simp) long⟩
  | none =>
      refine ⟨.comment, _, @measured_first [.longComment] _ _ _ _ rfl ?_ rfl⟩
      exact fun other member => List.mem_singleton.mp member ▸ long

theorem first_minus (first : Terminal.first? ('-' :: rest) = some (terminal, rest)) :
    rest.head? ≠ some '-' := by
  intro follows
  obtain ⟨more, rfl⟩ := List.head?_eq_some_iff.mp follows
  obtain ⟨other, length, found⟩ := measured_dashes more
  rw [first_measured, found] at first
  have same := (Prod.mk.inj (Option.some.inj first)).2
  have shorter := congrArg List.length same
  simp only [List.length_drop, List.length_cons] at shorter
  omega

end

/-! The pieces of a text. -/

def Piece.Kind.IsWord : Piece.Kind → Prop
  | .token .name | .token (.keyword _) => True
  | _ => False

/-- What holds of a piece between the text in front of it and the text behind it. -/
structure Fits (front : List Char) (piece : Piece) (behind : List Char) : Prop where
  place : piece.position = .tally front
  solid : piece.text ≠ []
  first : ∃ terminal, Terminal.first? (piece.text ++ behind) = some (terminal, behind) ∧
    piece.kind = terminal.pieceKind piece.text
  name : piece.kind = .token .name → ∀ word : Keyword, piece.text ≠ word.text.toList
  word : piece.kind.IsWord → ∀ c ∈ behind.head?, ¬ isNamePart c
  sign : piece.text ∈ [['='], ['<'], ['>']] → behind.head? ≠ some '='
  minus : piece.text = ['-'] → behind.head? ≠ some '-'
  longComment : piece.kind = .longComment →
    ∃ inside, piece.text = longMark ++ inside ++ [']', ']'] ∧ Unclosed inside

theorem first_fits {front lexeme behind : List Char} {terminal : Terminal}
    (first : Terminal.first? (lexeme ++ behind) = some (terminal, behind)) :
    Fits front ⟨terminal.pieceKind lexeme, lexeme, .tally front⟩ behind where
  place := rfl
  solid := first_solid first
  first := ⟨terminal, first, rfl⟩
  name named := by
    cases terminal with
    | name => exact name_unreserved (Piece.Kind.token.inj named)
    | _ => cases named
  word word := by
    cases terminal with
    | name => exact first_word first
    | _ => cases word
  sign sign := first_sign sign first
  minus minus := by
    cases minus
    exact first_minus first
  longComment long := by
    cases terminal with
    | longComment => exact first_longComment first
    | _ => cases long

/-- Pieces one behind the other, from a text in front of them up to the place where they end. -/
inductive Tiles : List Char → List Char → List Piece → Option (Char × Position) → List Char → Prop
    where
  | ends {front rest : List Char} {stuck : Option (Char × Position)}
      (ends : Ends stuck (.tally front) rest) : Tiles front rest [] stuck rest
  | piece {front behind rest : List Char} {piece : Piece} {others : List Piece}
      {stuck : Option (Char × Position)} (fits : Fits front piece behind)
      (tiles : Tiles (front ++ piece.text) behind others stuck rest) :
      Tiles front (piece.text ++ behind) (piece :: others) stuck rest

/-- The lexer takes what the first terminal takes. -/
theorem kind_first {c : Char} {rest : List Char} {kind : Piece.Kind} {length : Nat}
    (found : kind? (c :: rest) = some (kind, length)) :
    ∃ terminal : Terminal, kind = terminal.pieceKind (c :: rest.take (length - 1)) ∧
      Terminal.first? (c :: rest.take (length - 1) ++ rest.drop (length - 1)) =
        some (terminal, rest.drop (length - 1)) := by
  rw [kind_measured, Option.map_eq_some_iff] at found
  obtain ⟨⟨terminal, length⟩, found, same⟩ := found
  cases same
  cases length with
  | zero => exact absurd (measured_pos found) (Nat.lt_irrefl 0)
  | succ length =>
      refine ⟨terminal, rfl, ?_⟩
      rw [Nat.add_sub_cancel, List.cons_append, List.take_append_drop, first_measured, found]
      rfl

theorem pieces_tiles (position : Position) (text : List Char) :
    ∀ front, position = .tally front →
      ∃ rest, Tiles front text (pieces position text).1 (pieces position text).2 rest := by
  fun_induction pieces position text with
  | case1 position =>
      rintro front rfl
      exact ⟨[], .ends (.finish _)⟩
  | case2 position c rest none =>
      rintro front rfl
      refine ⟨c :: rest, .ends (.stuck c _ rest ?_)⟩
      rw [kind_measured, Option.map_eq_none_iff] at none
      rw [first_measured, none]
      rfl
  | case3 position c rest kind length found text after ih =>
      rintro front rfl
      obtain ⟨terminal, rfl, first⟩ := kind_first found
      obtain ⟨behind, tiles⟩ := ih (front ++ text) (Position.tally_append front text).symm
      have whole : c :: rest = text ++ rest.drop (length - 1) := by
        rw [List.cons_append, List.take_append_drop]
      rw [whole]
      exact ⟨behind, .piece (first_fits first) tiles⟩

section

variable {front text rest : List Char} {found : List Piece} {stuck : Option (Char × Position)}

theorem tiles_whole (tiles : Tiles front text found stuck rest) :
    text = found.flatMap Piece.text ++ rest := by
  induction tiles with
  | ends => rfl
  | piece _ _ ih => rw [ih, List.flatMap_cons, List.append_assoc]

theorem tiles_end (tiles : Tiles front text found stuck rest) :
    Ends stuck (.tally (front ++ found.flatMap Piece.text)) rest := by
  induction tiles with
  | ends ends =>
      rw [List.flatMap_nil, List.append_nil]
      exact ends
  | piece _ _ ih =>
      rw [List.flatMap_cons, ← List.append_assoc]
      exact ih

/-- What is left of the pieces behind some of them. -/
theorem tiles_rest {before after : List Piece}
    (tiles : Tiles front text (before ++ after) stuck rest) :
    Tiles (front ++ before.flatMap Piece.text) (after.flatMap Piece.text ++ rest) after stuck
      rest := by
  induction before generalizing front text with
  | nil =>
      rw [List.nil_append] at tiles
      rw [List.flatMap_nil, List.append_nil, ← tiles_whole tiles]
      exact tiles
  | cons first before ih =>
      cases tiles with
      | piece _ tiles =>
          rw [List.flatMap_cons, ← List.append_assoc]
          exact ih tiles

/-- Each piece fits between those in front of it and those behind it. -/
theorem tiles_fit {before after : List Piece} {piece : Piece}
    (tiles : Tiles front text (before ++ piece :: after) stuck rest) :
    Fits (front ++ before.flatMap Piece.text) piece (after.flatMap Piece.text ++ rest) := by
  have others := tiles_rest tiles
  generalize (piece :: after).flatMap Piece.text ++ rest = behind at others
  cases others with
  | piece fits others =>
      rw [← tiles_whole others]
      exact fits

end

/-- How pieces cover a text, with a rest at which no piece starts. -/
structure Tiling (text : List Char) (found : List Piece) (stuck : Option (Char × Position))
    (rest : List Char) : Prop where
  whole : text = found.flatMap Piece.text ++ rest
  ends : Ends stuck (.tally (found.flatMap Piece.text)) rest
  fits : ∀ before piece after, found = before ++ piece :: after →
    Fits (before.flatMap Piece.text) piece (after.flatMap Piece.text ++ rest)

/-- Every text is covered by its pieces, from its start up to its end or up to a character that
starts no piece. Some of the pieces are its tokens. -/
theorem pieces_tile (source : String) :
    ∃ found stuck rest, pieces {} source.toList = (found, stuck) ∧
      scan source = ⟨found.filterMap Piece.token?, stuck⟩ ∧
      Tiling source.toList found stuck rest := by
  obtain ⟨rest, tiles⟩ := pieces_tiles {} source.toList [] rfl
  refine ⟨_, _, rest, rfl, rfl, tiles_whole tiles, tiles_end tiles, ?_⟩
  intro before piece after same
  rw [same] at tiles
  exact tiles_fit tiles

end Lexer

end LuaCore
