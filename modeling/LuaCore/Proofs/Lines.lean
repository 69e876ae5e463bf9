import LuaCore.Proofs.Prefixes

/-!
Texts that go on behind a blank, such as the end of a line. No number, name or symbol takes a blank,
and strings and long comments end with their own marks, so a text is cut in the same way when it
goes on, unless it has a comment that begins as a long one and could be closed further on. Other
comments go on up to the end of their line.
-/

namespace LuaCore.Lexer

namespace Pattern

/-- The pattern never takes the given character, and takes some character in each repetition. -/
def Avoids (mark : Char) : Pattern → Prop
  | nothing => True
  | one test => ¬ test mark
  | both first second | either first second => first.Avoids mark ∧ second.Avoids mark
  | many inner => inner.Avoids mark ∧ inner.Shortens
  | few _ => False

variable {step : List Char → List (List Char)} {mark : Char} {more : List Char}

-- The text in front of the mark can be longer than both bounds, which does not matter: a step that
-- takes no mark gets stuck there.
/-- A bound that is long enough for a text is long enough for it in front of a mark. -/
theorem greedy_avoids {bound bound' : Nat} {text : List Char}
    (same : ∀ text, step (text ++ mark :: more) = (step text).map (· ++ mark :: more))
    (shortens : ∀ text, ∀ rest ∈ step text, rest.length < text.length)
    (enough : text.length ≤ bound) (enough' : text.length ≤ bound') :
    greedy step bound' (text ++ mark :: more) =
      (greedy step bound text).map (· ++ mark :: more) := by
  have stuck (none : bound' = 0) : step (text ++ mark :: more) = [] := by
    rw [same, step_stuck shortens enough' none, List.map_nil]
  rw [greedy_unfold (step_stuck shortens enough), greedy_unfold stuck, same, List.flatMap_map,
    List.map_append, List.map_flatMap, List.map_singleton]
  congr 1
  apply List.flatMap_congr
  intro rest member
  have lower := shortens text rest member
  exact greedy_avoids same shortens (by omega) (by omega)
termination_by text.length

theorem rests_avoids {pattern : Pattern} (avoids : pattern.Avoids mark) (text : List Char) :
    pattern.rests (text ++ mark :: more) = (pattern.rests text).map (· ++ mark :: more) := by
  induction pattern generalizing text with
  | nothing => rfl
  | one test =>
      cases text with
      | nil => exact if_neg avoids
      | cons c rest => by_cases matched : test c <;> simp [rests, matched]
  | both first second ih ih' =>
      simp only [rests, ih avoids.1, List.flatMap_map, List.map_flatMap, ih' avoids.2]
  | either first second ih ih' =>
      simp only [rests, ih avoids.1, ih' avoids.2, List.map_append]
  | many inner ih =>
      exact greedy_avoids (ih avoids.1) avoids.2 (Nat.le_refl _) (by simp)
  | few => exact avoids.elim

theorem rest?_avoids {pattern : Pattern} (avoids : pattern.Avoids mark) (text : List Char) :
    pattern.rest? (text ++ mark :: more) =
      (pattern.rest? text).map (· ++ mark :: more) := by
  rw [rest?, rests_avoids avoids, List.head?_map]
  rfl

theorem one_avoids {test : Char → Bool} (within : test mark = false) : (one test).Avoids mark :=
  ne_true_of_eq_false within

theorem exactly_avoids {word : List Char} (within : mark ∉ word) : (exactly word).Avoids mark := by
  induction word with
  | nil => trivial
  | cons c word ih =>
      simp only [List.mem_cons, not_or] at within
      exact ⟨one_avoids (by simpa using within.1), ih within.2⟩

theorem many_one_avoids {test : Char → Bool} (within : test mark = false) :
    (many (one test)).Avoids mark :=
  ⟨one_avoids within, one_shortens test⟩

end Pattern

open Pattern

/-! What numbers, names and symbols are made of: no blanks. -/

section

variable {mark : Char} (blank : isBlank mark)

include blank

theorem number_avoids : Terminal.number.pattern.Avoids mark := by
  obtain ⟨decimal, hexadecimal, point, zero, power, sign, cross⟩ :
      Text.isDecimalDigit mark = false ∧ Text.isHexDigit mark = false ∧ mark ∉ ['.'] ∧
        mark ∉ ['0'] ∧ mark ∉ ['e', 'E'] ∧ mark ∉ ['+', '-'] ∧ mark ∉ ['x', 'X'] := by
    rcases isBlank_iff.mp blank with rfl | rfl | rfl | rfl | rfl <;> decide
  have letter {chars : List Char} (other : mark ∉ chars) : (oneOf chars).Avoids mark :=
    one_avoids (by simpa using other)
  have digit : (one Text.isDecimalDigit).Avoids mark := one_avoids decimal
  have digits : (many (one Text.isDecimalDigit)).Avoids mark := many_one_avoids decimal
  have exponent : Terminal.exponentPattern.Avoids mark :=
    ⟨letter power, ⟨letter sign, trivial⟩, digit, digits⟩
  have mantissa : Terminal.decimalPattern.Avoids mark :=
    ⟨⟨⟨⟨digit, digits⟩, exactly_avoids point, digits⟩, ⟨exactly_avoids point, digit, digits⟩, digit,
      digits⟩, exponent, trivial⟩
  exact ⟨⟨exactly_avoids zero, letter cross, one_avoids hexadecimal, many_one_avoids hexadecimal⟩,
    mantissa⟩

theorem name_avoids : Terminal.name.pattern.Avoids mark := by
  obtain ⟨letter, part⟩ : isLetter mark = false ∧ isNamePart mark = false := by
    rcases isBlank_iff.mp blank with rfl | rfl | rfl | rfl | rfl <;> decide
  exact ⟨one_avoids letter, many_one_avoids part⟩

theorem symbol_avoids (symbol : Symbol) : (Terminal.symbol symbol).pattern.Avoids mark := by
  apply exactly_avoids
  have all : symbol ∈ Symbol.all := by
    cases symbol with
    | operator operation => cases operation <;> decide
    | _ => decide
  revert symbol
  rcases isBlank_iff.mp blank with rfl | rfl | rfl | rfl | rfl <;> decide

end

theorem comment_avoids {mark : Char} (line : mark ∈ ['\r', '\n']) :
    Terminal.comment.pattern.Avoids mark := by
  simp only [List.mem_cons, List.not_mem_nil, or_false] at line
  rcases line with rfl | rfl <;> exact ⟨exactly_avoids (by decide), many_one_avoids (by decide)⟩

theorem quoted_avoids {mark : Char} (other : '\n' ≠ mark) :
    (Terminal.quotedPattern mark).Avoids '\n' := by
  have closing : (exactly [mark]).Avoids '\n' := exactly_avoids (by simpa using other)
  have part : (quotedPart mark).Avoids '\n' :=
    ⟨one_avoids (by simp), exactly_avoids (by decide), one_avoids (by decide)⟩
  exact ⟨closing, ⟨part, quotedPart_shortens mark⟩, closing⟩

theorem string_avoids : Terminal.string.pattern.Avoids '\n' :=
  ⟨quoted_avoids (by decide), quoted_avoids (by decide)⟩

/-! Comments and strings in front of a blank. -/

/-- Nothing between long brackets closes them before their end. -/
def Unclosed (inside : List Char) : Prop :=
  ¬ [']', ']'] <:+: inside ++ [']']

theorem unclosed_nil : Unclosed [] := by
  intro closed
  exact absurd closed.length_le (by decide)

theorem unclosed_cons {c : Char} {inside : List Char} :
    Unclosed (c :: inside) ↔ (c = ']' → (inside ++ [']']).head? ≠ some ']') ∧ Unclosed inside := by
  unfold Unclosed
  rw [List.cons_append, List.infix_cons_iff, not_or]
  refine and_congr_left fun _ => ?_
  cases inside ++ [']'] with
  | nil => simp
  | cons d rest =>
      simp only [List.cons_prefix_cons, List.nil_prefix, and_true, List.head?_cons, not_and,
        ne_eq, Option.some.injEq, eq_comm]

/-- Long brackets end where they are closed for the first time. -/
theorem closing_iff {text : List Char} {length : Nat} :
    closing? text = some length ↔
      ∃ inside more, text = inside ++ ']' :: ']' :: more ∧ Unclosed inside ∧
        length = inside.length + 2 := by
  fun_induction closing? text generalizing length with
  | case1 =>
      refine ⟨fun found => ?_, fun ⟨inside, more, whole, _⟩ => ?_⟩
      · cases found
      · exact absurd whole.symm (by simp)
  | case2 rest =>
      refine ⟨fun found => ?_, fun ⟨inside, more, whole, unclosed, same⟩ => ?_⟩
      · cases found
        exact ⟨[], rest, rfl, unclosed_nil, rfl⟩
      · cases inside with
        | nil => rw [same, List.length_nil]
        | cons c inside =>
            obtain ⟨rfl, behind⟩ := List.cons.inj whole
            have open' := (unclosed_cons.mp unclosed).1 rfl
            cases inside with
            | nil => exact absurd rfl open'
            | cons d inside => exact absurd (congrArg some (List.cons.inj behind).1.symm) open'
  | case3 c rest open' ih =>
      rw [Option.map_eq_some_iff]
      refine ⟨?_, ?_⟩
      · rintro ⟨count, found, rfl⟩
        obtain ⟨inside, more, rfl, unclosed, rfl⟩ := ih.mp found
        refine ⟨c :: inside, more, rfl, unclosed_cons.mpr ⟨?_, unclosed⟩, rfl⟩
        rintro rfl first
        cases inside with
        | nil => exact open' _ rfl rfl
        | cons d inside =>
            cases first
            exact open' _ rfl rfl
      · rintro ⟨inside, more, whole, unclosed, rfl⟩
        cases inside with
        | nil =>
            obtain ⟨rfl, rfl⟩ := List.cons.inj whole
            exact absurd rfl (open' more rfl)
        | cons d inside =>
            obtain ⟨rfl, rfl⟩ := List.cons.inj whole
            exact ⟨_, ih.mpr ⟨inside, more, rfl, (unclosed_cons.mp unclosed).2, rfl⟩, rfl⟩

/-- How a long comment begins. -/
def longMark : List Char :=
  ['-', '-', '[', '[']

theorem longComment_iff {text : List Char} {length : Nat} :
    longComment? text = some length ↔
      ∃ inside more, text = longMark ++ inside ++ ']' :: ']' :: more ∧ Unclosed inside ∧
        length = inside.length + 6 := by
  constructor
  · intro found
    unfold longComment? at found
    split at found
    · obtain ⟨_, closed, rfl⟩ := Option.map_eq_some_iff.mp found
      obtain ⟨inside, more, rfl, unclosed, rfl⟩ := closing_iff.mp closed
      exact ⟨inside, more, rfl, unclosed, rfl⟩
    · cases found
  · rintro ⟨inside, more, rfl, unclosed, rfl⟩
    change (closing? (inside ++ ']' :: ']' :: more)).map (· + 4) = _
    rw [closing_iff.mpr ⟨inside, more, rfl, unclosed, rfl⟩]
    rfl

/-- A comment in long brackets stays closed. -/
theorem longComment_more {text : List Char} {length : Nat}
    (found : longComment? text = some length) (more : List Char) :
    longComment? (text ++ more) = some length ∧ length ≤ text.length := by
  obtain ⟨inside, rest, rfl, unclosed, rfl⟩ := longComment_iff.mp found
  refine ⟨longComment_iff.mpr ⟨inside, rest ++ more, by simp, unclosed, rfl⟩, ?_⟩
  simp [longMark]

theorem stringRest_more {mark : Char} (plain : mark ≠ '\\') {text : List Char} {length : Nat}
    (found : stringRest? mark text = some length) (more : List Char) :
    stringRest? mark (text ++ more) = some length ∧ length ≤ text.length := by
  fun_induction stringRest? mark text generalizing length with
  | case1 | case2 => cases found
  | case3 c rest other ih =>
      obtain ⟨inner, behind, rfl⟩ := Option.map_eq_some_iff.mp found
      obtain ⟨closed, bound⟩ := ih behind
      refine ⟨?_, by simpa using bound⟩
      rw [List.cons_append, List.cons_append, stringRest?, if_neg other, closed]
      rfl
  | case4 rest =>
      cases found
      refine ⟨?_, by simp⟩
      rw [List.cons_append, stringRest_cons plain, if_pos rfl]
  | case5 => cases found
  | case6 c rest _ other plain' ih =>
      obtain ⟨inner, behind, rfl⟩ := Option.map_eq_some_iff.mp found
      obtain ⟨closed, bound⟩ := ih behind
      refine ⟨?_, by simpa using bound⟩
      have noBackslash : c ≠ '\\' := fun same => plain' (.inl same)
      rw [List.cons_append, stringRest_cons noBackslash, if_neg other, if_neg plain', closed]
      rfl

theorem string_more {text : List Char} {length : Nat} (found : string? text = some length)
    (more : List Char) : string? (text ++ more) = some length ∧ length ≤ text.length := by
  cases text with
  | nil => cases found
  | cons mark rest =>
      obtain ⟨quote, found⟩ := Option.ite_none_right_eq_some.mp found
      obtain ⟨inner, behind, rfl⟩ := Option.map_eq_some_iff.mp found
      have plain : mark ≠ '\\' := by
        rintro rfl
        cases quote
      obtain ⟨closed, bound⟩ := stringRest_more plain behind more
      refine ⟨?_, Nat.succ_le_succ bound⟩
      rw [List.cons_append, string?, if_pos quote, closed]
      rfl

theorem comment_none {text : List Char} : comment? text = none ↔ ¬ ['-', '-'] <+: text := by
  constructor
  · rintro none ⟨rest, rfl⟩
    cases none
  · intro plain
    unfold comment?
    split
    · next rest => exact absurd ⟨rest, rfl⟩ plain
    · rfl

/-- A comment stops in front of the end of its line. -/
theorem comment_stops {text rest : List Char}
    (matched : Terminal.comment.pattern.rest? text = some rest) :
    ∀ c ∈ rest.head?, c ∈ ['\r', '\n'] := by
  rw [measures .comment] at matched
  obtain ⟨length, found, rfl⟩ := Option.map_eq_some_iff.mp matched
  simp only [Terminal.length?] at found
  unfold comment? at found
  split at found
  · next others =>
      cases found
      intro c member
      rw [List.drop_succ_cons, List.drop_succ_cons, drop_run] at member
      have stops := List.head?_dropWhile_not (fun c => c != '\r' && c != '\n') others
      rw [member] at stops
      by_cases ret : c = '\r'
      · simp [ret]
      · simpa [ret] using stops
  · cases found

theorem longComment_mark {text : List Char} (plain : ¬ longMark <+: text) :
    longComment? text = none := by
  unfold longComment?
  split
  · next rest => exact absurd ⟨rest, rfl⟩ plain
  · rfl

/-- A word that a text starts with is in front of any character that the word does not have. -/
theorem prefix_front {word text more : List Char} {mark : Char} (without : mark ∉ word)
    (begins : word <+: text ++ mark :: more) : word <+: text := by
  by_cases long : word.length ≤ text.length
  · exact List.prefix_of_prefix_length_le begins (List.prefix_append text _) long
  · have first : text ++ [mark] <+: text ++ mark :: more := ⟨more, by simp⟩
    have within : text ++ [mark] <+: word :=
      List.prefix_of_prefix_length_le first begins (by simp; omega)
    exact absurd (within.subset (by simp)) without

/-- The text does not begin as a long comment without being one. -/
def Settled (text : List Char) : Prop :=
  (longComment? text).isSome ∨ ¬ longMark <+: text

/-! Comments that begin as long ones. -/

/-- No comment of the text begins as a long one without being closed. -/
def Closed (position : Position) (text : List Char) : Prop :=
  ∀ piece ∈ (pieces position text).1, piece.kind = .comment → ¬ longMark <+: piece.text

/-- No piece of the text begins like a long comment at all. -/
theorem closed_plain {position : Position} {text : List Char}
    (plain : (pieces position text).1.all fun piece => !longMark.isPrefixOf piece.text) :
    Closed position text := by
  intro piece member _ begins
  have free := List.all_eq_true.mp plain piece member
  simp [List.isPrefixOf_iff_prefix.mpr begins] at free

theorem closed_step {position : Position} {lexeme rest : List Char} {terminal : Terminal}
    (first : Terminal.first? (lexeme ++ rest) = some (terminal, rest))
    (closed : Closed position (lexeme ++ rest)) :
    (terminal.pieceKind lexeme = .comment → ¬ longMark <+: lexeme) ∧
      Closed (position.advance lexeme) rest := by
  obtain ⟨length, found, taken, behind⟩ := first_length first
  cases text : lexeme ++ rest with
  | nil =>
      rw [text] at found
      cases found
  | cons c others =>
      rw [text] at found taken behind
      have cut : pieces position (c :: others) = _ := pieces_step found
      rw [taken, behind] at cut
      unfold Closed at closed
      rw [text, cut, List.forall_mem_cons] at closed
      exact closed

/-- A text that begins as a long comment is one, or is a comment up to the end of its line. -/
theorem mark_settled {lexeme rest : List Char} {terminal : Terminal}
    (first : Terminal.first? (lexeme ++ rest) = some (terminal, rest))
    (plain : terminal.pieceKind lexeme = .comment → ¬ longMark <+: lexeme) :
    Settled (lexeme ++ rest) := by
  by_cases begins : longMark <+: lexeme ++ rest
  · left
    cases open' : longComment? (lexeme ++ rest) with
    | some => rfl
    | none =>
        obtain ⟨length, found, taken, _⟩ := first_length first
        obtain ⟨others, text⟩ := begins
        rw [← text] at found taken open'
        let inside := run (fun c => c != '\r' && c != '\n') others
        have measured : Terminal.comment.length? (longMark ++ others) = some (inside + 4) := rfl
        have order : Terminal.all = [.longComment] ++ .comment :: Terminal.all.drop 2 := rfl
        have comment := measured_first order
          (fun other member => List.mem_singleton.mp member ▸ open') measured
        cases found.symm.trans comment
        have same : lexeme = longMark ++ others.take inside := taken.symm
        exact absurd (same ▸ List.prefix_append ..) (plain rfl)
  · exact .inr begins

/-- A text starts with a blank that reaches up to something else. -/
theorem first_blank {c : Char} {others lexeme rest : List Char} {terminal : Terminal}
    (text : lexeme ++ rest = c :: others) (blank : isBlank c)
    (first : Terminal.first? (lexeme ++ rest) = some (terminal, rest)) :
    terminal = .blank ∧ lexeme ≠ [] ∧ Blanks lexeme ∧ ∀ c ∈ rest.head?, ¬ isBlank c := by
  have measured : Terminal.blank.length? (c :: others) = some (run isBlank others + 1) :=
    if_pos blank
  have found : measured? (c :: others) = some (.blank, run isBlank others + 1) :=
    measured_starts rfl (blank_starts blank) measured
  have whole : Terminal.first? (c :: others) = some (.blank, others.dropWhile isBlank) := by
    rw [first_measured, found, Option.map_some, List.drop_succ_cons, drop_run]
  rw [text, whole] at first
  obtain ⟨rfl, rfl⟩ := Prod.mk.inj (Option.some.inj first)
  have taken : c :: others.takeWhile isBlank ++ others.dropWhile isBlank = c :: others := by
    rw [List.cons_append, List.takeWhile_append_dropWhile]
  obtain rfl := List.append_cancel_right (text.trans taken.symm)
  refine ⟨rfl, List.cons_ne_nil _ _, ?_, ?_⟩
  · exact List.forall_mem_cons.mpr ⟨blank, fun other => List.mem_takeWhile_imp⟩
  · intro other member
    have stops := List.head?_dropWhile_not isBlank others
    rw [member] at stops
    simpa using stops

/-! What a text starts with, in front of a blank. -/

/-- Only a string literal starts with a quote mark. -/
theorem starts_string {terminal : Terminal} {c : Char} (quote : Terminal.string.starts c)
    (starts : terminal.starts c) : terminal = .string := by
  have marks : c = '"' ∨ c = '\'' := by simpa [Terminal.starts] using quote
  cases terminal with
  | string => rfl
  | symbol mark =>
      cases mark with
      | operator operation =>
          cases operation <;> rcases marks with rfl | rfl <;> exact absurd starts (by decide)
      | _ => rcases marks with rfl | rfl <;> exact absurd starts (by decide)
  | _ => rcases marks with rfl | rfl <;> exact absurd starts (by decide)

section

variable {lexeme rest more : List Char} {terminal : Terminal} {d : Char} (blank : isBlank d)

include blank

theorem unmatched_goes_on {c : Char} {others : List Char} (solid : ¬ isBlank c)
    (settled : Settled (c :: others)) (unquoted : terminal = .string → ¬ terminal.starts c)
    (none : terminal.pattern.rest? (c :: others) = .none) :
    terminal.pattern.rest? (c :: others ++ d :: more) = .none := by
  obtain ⟨noMark, noDash⟩ : d ∉ longMark ∧ d ∉ ['-', '-'] := by
    rcases isBlank_iff.mp blank with rfl | rfl | rfl | rfl | rfl <;> decide
  cases terminal with
  | longComment =>
      rw [measures .longComment, Option.map_eq_none_iff] at none ⊢
      have plain : ¬ longMark <+: c :: others := by
        rcases settled with closed | plain
        · rw [Terminal.length?] at none
          rw [none] at closed
          cases closed
        · exact plain
      exact longComment_mark fun begins => plain (prefix_front noMark begins)
  | comment =>
      rw [measures .comment, Option.map_eq_none_iff] at none ⊢
      exact comment_none.mpr fun begins => comment_none.mp none (prefix_front noDash begins)
  | number => rw [rest?_avoids (number_avoids blank), none, Option.map_none]
  | name => rw [rest?_avoids (name_avoids blank), none, Option.map_none]
  | symbol mark => rw [rest?_avoids (symbol_avoids blank mark), none, Option.map_none]
  | string =>
      rw [measures .string, List.cons_append, length_starts (unquoted rfl), Option.map_none]
  | blank =>
      have other : ¬ Terminal.blank.starts c := solid
      rw [measures .blank, List.cons_append, length_starts other, Option.map_none]

theorem matched_goes_on (solid : ∀ c ∈ (lexeme ++ rest).head?, ¬ isBlank c)
    (matched : terminal.pattern.rest? (lexeme ++ rest) = some rest)
    (ended : terminal = .comment → rest = [] → d ∈ ['\r', '\n']) :
    terminal.pattern.rest? (lexeme ++ (rest ++ d :: more)) = some (rest ++ d :: more) := by
  -- What ends by its own marks, with as much behind it as there is.
  have closes (stays : ∀ {text : List Char} {length : Nat}, terminal.length? text = some length →
      ∀ more, terminal.length? (text ++ more) = some length ∧ length ≤ text.length) :
      terminal.pattern.rest? (lexeme ++ (rest ++ d :: more)) = some (rest ++ d :: more) := by
    rw [measures terminal] at matched ⊢
    obtain ⟨length, found, behind⟩ := Option.map_eq_some_iff.mp matched
    obtain ⟨found, bound⟩ := stays found (d :: more)
    rw [← List.append_assoc, found, Option.map_some, List.drop_append_of_le_length bound, behind]
  have avoids (avoids : terminal.pattern.Avoids d) :
      terminal.pattern.rest? (lexeme ++ (rest ++ d :: more)) = some (rest ++ d :: more) := by
    rw [← List.append_assoc, rest?_avoids avoids, matched]
    rfl
  cases terminal with
  | longComment => exact closes longComment_more
  | string => exact closes string_more
  | number => exact avoids (number_avoids blank)
  | name => exact avoids (name_avoids blank)
  | symbol mark => exact avoids (symbol_avoids blank mark)
  | blank =>
      cases text : lexeme ++ rest with
      | nil =>
          rw [text] at matched
          cases matched
      | cons c others =>
          rw [text] at matched solid
          have none : Terminal.blank.length? (c :: others) = none := if_neg (solid c rfl)
          rw [measures .blank, none] at matched
          cases matched
  | comment =>
      cases rest with
      | nil => exact avoids (comment_avoids (ended rfl rfl))
      | cons e rest =>
          have line := comment_avoids (comment_stops matched e rfl)
          rw [rest?_avoids line] at matched
          obtain ⟨left, taken, same⟩ := Option.map_eq_some_iff.mp matched
          rw [List.append_left_eq_self] at same
          rw [List.cons_append, rest?_avoids line, taken, same]
          rfl

/-- When a text goes on behind a blank, it starts with what it started with, unless that is the
blank at its end. -/
theorem first_goes_on (first : Terminal.first? (lexeme ++ rest) = some (terminal, rest))
    (plain : terminal.pieceKind lexeme = .comment → ¬ longMark <+: lexeme)
    (ended : terminal = .comment → rest = [] → d ∈ ['\r', '\n']) :
    Terminal.first? (lexeme ++ (rest ++ d :: more)) = some (terminal, rest ++ d :: more) ∨
      terminal = .blank ∧ rest = [] ∧ Blanks lexeme := by
  have settled := mark_settled first plain
  cases text : lexeme ++ rest with
  | nil =>
      rw [text] at first
      cases first
  | cons c others =>
      by_cases blank' : isBlank c
      · obtain ⟨rfl, nonempty, blanks, stops⟩ := first_blank text blank' first
        cases rest with
        | nil => exact .inr ⟨rfl, rfl, blanks⟩
        | cons e rest => exact .inl (first_blanks nonempty blanks stops)
      · left
        obtain ⟨before, after, order, none, matched⟩ := first_iff.mp first
        have solid : ∀ e ∈ (lexeme ++ rest).head?, ¬ isBlank e := by
          rw [text]
          rintro e ⟨⟩
          exact blank'
        refine first_iff.mpr
          ⟨before, after, order, ?_, matched_goes_on blank solid matched ended⟩
        intro other member
        rw [← List.append_assoc, text]
        rw [text] at settled
        refine unmatched_goes_on blank blank' settled ?_ (text ▸ none other member)
        -- A string in front of the terminal would be what a quote mark starts.
        rintro rfl quote
        have starts : terminal.starts c := by
          by_contra other
          rw [text, measures terminal, length_starts other] at matched
          cases matched
        cases starts_string quote starts
        cases (none _ member).symm.trans matched

end

/-! Whole texts. -/

/-- A blank in front of a text starts no token. -/
theorem lexes_blank {position place : Position} {c : Char} {text more : List Char}
    {tokens : List Token} (blank : isBlank c)
    (lexes : Lexes (position.next c) text tokens place more)
    (solid : ∀ c ∈ more.head?, ¬ isBlank c) : Lexes position (c :: text) tokens place more := by
  have alone (stops : ∀ c ∈ text.head?, ¬ isBlank c) :
      Lexes position (c :: text) tokens place more := by
    have first : Terminal.first? ([c] ++ text) = some (.blank, text) :=
      first_blanks (List.cons_ne_nil _ _) (by simpa [Blanks] using blank) stops
    exact .ignored first rfl lexes
  cases text with
  | nil => exact alone (by simp)
  | cons e others =>
      by_cases blank' : isBlank e
      · -- The blanks in front of the text are one piece with this one.
        generalize whole : e :: others = text at lexes
        generalize start : position.next c = next at lexes
        cases lexes with
        | refl =>
            subst whole
            exact absurd blank' (solid e rfl)
        | @ignored _ _ lexeme rest _ _ _ first silent lexes =>
            obtain ⟨rfl, _, blanks, stops⟩ := first_blank whole.symm blank' first
            have first : Terminal.first? (c :: lexeme ++ rest) = some (.blank, rest) :=
              first_blanks (List.cons_ne_nil _ _) (List.forall_mem_cons.mpr ⟨blank, blanks⟩) stops
            rw [← start] at lexes
            exact .ignored first rfl lexes
        | token first sounds lexes =>
            obtain ⟨rfl, _⟩ := first_blank whole.symm blank' first
            cases sounds
      · refine alone ?_
        rintro d ⟨⟩
        exact blank'

theorem lexes_blanks {position place : Position} {gap text more : List Char} {tokens : List Token}
    (blanks : Blanks gap) (lexes : Lexes (position.advance gap) text tokens place more)
    (solid : ∀ c ∈ more.head?, ¬ isBlank c) : Lexes position (gap ++ text) tokens place more := by
  induction gap generalizing position with
  | nil => exact lexes
  | cons c gap ih =>
      obtain ⟨blank, blanks⟩ := List.forall_mem_cons.mp blanks
      exact lexes_blank blank (ih blanks lexes) solid

section

variable {position place : Position} {text front back more behind : List Char} {tokens : List Token}
  {d : Char}

-- The text at the back starts with something solid, at which no comment stops.
theorem comment_ended {lexeme rest : List Char} {terminal : Terminal}
    (edge : (∃ c ∈ back.head?, ¬ isBlank c) ∨ d ∈ ['\r', '\n'])
    (first : Terminal.first? (lexeme ++ (rest ++ back)) = some (terminal, rest ++ back)) :
    terminal = .comment → rest = [] → d ∈ ['\r', '\n'] := by
  rintro rfl rfl
  rcases edge with ⟨c, head, solid⟩ | line
  · have line := comment_stops (first_match first) c head
    simp only [List.mem_cons, List.not_mem_nil, or_false] at line
    rcases line with rfl | rfl <;> exact absurd rfl solid
  · exact line

/-- A text that goes on behind a blank instead of at its back is cut into the same tokens. -/
theorem lexes_gap (lexes : Lexes position text tokens place back) (closed : Closed position text)
    (whole : text = front ++ back) (blank : isBlank d)
    (edge : (∃ c ∈ back.head?, ¬ isBlank c) ∨ d ∈ ['\r', '\n'])
    (silent : ∀ position, ∃ place', Lexes position (d :: behind) [] place' more)
    (solid : ∀ c ∈ more.head?, ¬ isBlank c) :
    ∃ place', Lexes position (front ++ d :: behind) tokens place' more := by
  induction lexes generalizing front with
  | refl position =>
      obtain rfl := List.append_left_eq_self.mp whole.symm
      exact silent position
  | @ignored _ _ lexeme _ _ _ _ first silent' lexes ih =>
      obtain ⟨rest, rfl, _⟩ := lexes_reach lexes
      rw [← List.append_assoc] at whole
      obtain rfl := List.append_cancel_right whole
      obtain ⟨plain, closed⟩ := closed_step first closed
      obtain ⟨place', others⟩ := ih closed rfl edge
      rw [List.append_assoc]
      rcases first_goes_on blank (first_front first) plain (comment_ended edge first) with
        found | ⟨rfl, rfl, blanks⟩
      · exact ⟨place', .ignored found silent' others⟩
      · exact ⟨place', lexes_blanks blanks others solid⟩
  | @token _ _ lexeme _ _ _ _ _ first sounds lexes ih =>
      obtain ⟨rest, rfl, _⟩ := lexes_reach lexes
      rw [← List.append_assoc] at whole
      obtain rfl := List.append_cancel_right whole
      obtain ⟨plain, closed⟩ := closed_step first closed
      obtain ⟨place', others⟩ := ih closed rfl edge
      rw [List.append_assoc]
      rcases first_goes_on blank (first_front first) plain (comment_ended edge first) with
        found | ⟨rfl, _⟩
      · exact ⟨place', .token found sounds others⟩
      · cases sounds

/-- A text that comes to its end is cut into the same tokens when it goes on in a new line. -/
theorem lexes_line (lexes : Lexes position text tokens place []) (closed : Closed position text)
    (solid : ∀ c ∈ more.head?, ¬ isBlank c) :
    ∃ place', Lexes position (text ++ '\n' :: more) tokens place' more := by
  refine lexes_gap lexes closed (List.append_nil text).symm (by decide) (.inr (by decide)) ?_ solid
  exact fun position => ⟨_, lexes_blank (by decide) (.refl _ more) solid⟩

end

end LuaCore.Lexer
