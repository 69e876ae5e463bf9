import LuaCore.Literal
import LuaCore.Proofs.Numeral
import LuaCore.Proofs.Scanning

/-!
Texts that are cut into given tokens. A piece of text is cut where it was meant to end if what comes
next cannot belong to it: names and numerals end in front of a blank, and brackets in front of
anything.
-/

namespace LuaCore

/-- What a token says, wherever it stands. -/
structure Form where
  kind : Token.Kind
  text : String

def Token.form (token : Token) : Form :=
  ⟨token.kind, token.text⟩

namespace Lexer

/-- In front of the rest, a text is cut into tokens that say the given things. -/
def Cuts (text : List Char) (forms : List Form) (rest : List Char) : Prop :=
  ∀ position, ∃ tokens place, Lexes position (text ++ rest) tokens place rest ∧
    tokens.map Token.form = forms

theorem lexes_append {first second third : Position} {text middle rest : List Char}
    {tokens others : List Token} (lexes : Lexes first text tokens second middle)
    (lexes' : Lexes second middle others third rest) :
    Lexes first text (tokens ++ others) third rest := by
  induction lexes with
  | refl => exact lexes'
  | ignored found silent _ ih => exact .ignored found silent (ih lexes')
  | token found sounds _ ih => exact .token found sounds (ih lexes')

theorem cuts_nil (rest : List Char) : Cuts [] [] rest :=
  fun position => ⟨[], position, .refl position rest, rfl⟩

theorem cuts_append {first second rest : List Char} {forms others : List Form}
    (cuts : Cuts first forms (second ++ rest)) (cuts' : Cuts second others rest) :
    Cuts (first ++ second) (forms ++ others) rest := by
  intro position
  obtain ⟨tokens, middle, lexes, same⟩ := cuts position
  obtain ⟨tokens', place, lexes', same'⟩ := cuts' middle
  refine ⟨tokens ++ tokens', place, ?_, ?_⟩
  · rw [List.append_assoc]
    exact lexes_append lexes lexes'
  · rw [List.map_append, same, same']

/-- The first terminal that matches takes a text in front of the rest. -/
theorem first_taken {text rest : List Char} {terminal : Terminal}
    (found : measured? (text ++ rest) = some (terminal, text.length)) :
    Terminal.first? (text ++ rest) = some (terminal, rest) := by
  rw [first_measured, found, Option.map_some, List.drop_left]

theorem cuts_one {text rest : List Char} {terminal : Terminal} {kind : Token.Kind}
    (found : measured? (text ++ rest) = some (terminal, text.length))
    (sounds : terminal.kind? text = some kind) :
    Cuts text [⟨kind, String.ofList text⟩] rest :=
  fun _ => ⟨_, _, .token (first_taken found) sounds (.refl _ rest), rfl⟩

/-- A terminal is the first that matches if none in front of it does. -/
theorem measured_first {before after : List Terminal} {terminal : Terminal} {text : List Char}
    {length : Nat} (order : Terminal.all = before ++ terminal :: after)
    (others : ∀ other ∈ before, other.length? text = none)
    (matched : terminal.length? text = some length) :
    measured? text = some (terminal, length) := by
  have none : (before.findSome? fun other => (other.length? text).map (other, ·)) = none := by
    apply List.findSome?_eq_none_iff.mpr
    intro other member
    rw [others other member]
    rfl
  rw [measured?, order, List.findSome?_append, none, List.findSome?_cons, matched]
  rfl

/-! What a terminal can start with. -/

def Terminal.starts : Terminal → Char → Bool
  | longComment, c | comment, c => c == '-'
  | number, c => Text.isDecimalDigit c || c == '.'
  | string, c => c == '"' || c == '\''
  | name, c => isLetter c
  | blank, c => isBlank c
  | symbol mark, c => mark.text.toList.head? == some c

theorem number_starts {c : Char} (digit : ¬ Text.isDecimalDigit c) (point : c ≠ '.')
    (rest : List Char) : number? (c :: rest) = none := by
  have hexadecimal : hexadecimal? (c :: rest) = none := by
    unfold hexadecimal?
    split
    · next same =>
        cases same
        exact absurd (by decide : Text.isDecimalDigit '0') digit
    · rfl
  have none : run Text.isDecimalDigit (c :: rest) = 0 := run_cons_zero _ digit rest
  rw [number?, hexadecimal, Option.none_or, decimal?, mantissa_without none,
    if_neg (no_point point rest)]
  rfl

theorem length_starts {terminal : Terminal} {c : Char} (other : ¬ terminal.starts c)
    (rest : List Char) : terminal.length? (c :: rest) = none := by
  cases terminal with
  | longComment =>
      simp only [Terminal.length?]
      unfold longComment?
      split
      · next same =>
          cases same
          exact absurd rfl other
      · rfl
  | comment =>
      simp only [Terminal.length?]
      unfold comment?
      split
      · next same =>
          cases same
          exact absurd rfl other
      · rfl
  | number =>
      simp only [Terminal.starts, Bool.or_eq_true, beq_iff_eq, not_or] at other
      exact number_starts other.1 other.2 rest
  | string => exact if_neg other
  | name => exact if_neg other
  | blank => exact if_neg other
  | symbol mark =>
      refine if_neg ?_
      intro starts
      cases text : mark.text.toList with
      | nil => cases mark with
        | operator operation => cases operation <;> cases text
        | _ => cases text
      | cons first more =>
          rw [text, List.isPrefixOf_cons_cons, Bool.and_eq_true, beq_iff_eq] at starts
          refine other ?_
          rw [Terminal.starts, text, starts.1]
          exact beq_self_eq_true _

/-- The first terminal is found by what it starts with. -/
theorem measured_starts {before after : List Terminal} {terminal : Terminal} {c : Char}
    {rest : List Char} {length : Nat} (order : Terminal.all = before ++ terminal :: after)
    (others : ∀ other ∈ before, ¬ other.starts c)
    (matched : terminal.length? (c :: rest) = some length) :
    measured? (c :: rest) = some (terminal, length) :=
  measured_first order (fun other member => length_starts (others other member) rest) matched

theorem run_append {test : Char → Bool} {text rest : List Char} (all : ∀ c ∈ text, test c)
    (stops : ∀ c ∈ rest.head?, ¬ test c) : run test (text ++ rest) = text.length := by
  have none : rest.takeWhile test = [] := by
    cases rest with
    | nil => rfl
    | cons c rest => exact List.takeWhile_cons_of_neg (stops c rfl)
  rw [run, List.takeWhile_append_of_pos all, none, List.append_nil]

/-! Blanks and names. -/

theorem isBlank_iff {c : Char} :
    isBlank c ↔ c = ' ' ∨ c = '\t' ∨ c = '\x0c' ∨ c = '\r' ∨ c = '\n' := by
  simp [isBlank, or_assoc]

theorem blank_starts {c : Char} (blank : isBlank c) :
    ∀ other ∈ [Terminal.longComment, .comment, .number, .string, .name], ¬ other.starts c := by
  rcases isBlank_iff.mp blank with rfl | rfl | rfl | rfl | rfl <;> decide

/-- A row of blanks. -/
def Blanks (text : List Char) : Prop :=
  ∀ c ∈ text, isBlank c

instance (text : List Char) : Decidable (Blanks text) :=
  List.decidableBAll (fun c => isBlank c = true) text

theorem first_blanks {text rest : List Char} (nonempty : text ≠ []) (blank : Blanks text)
    (stops : ∀ c ∈ rest.head?, ¬ isBlank c) :
    Terminal.first? (text ++ rest) = some (.blank, rest) := by
  cases text with
  | nil => exact absurd rfl nonempty
  | cons c text =>
      have first := blank c List.mem_cons_self
      have taken :=
        run_append (fun other member => blank other (List.mem_cons_of_mem c member)) stops
      refine first_taken (measured_starts rfl (blank_starts first) ?_)
      change (if isBlank c then some (run isBlank (text ++ rest) + 1) else none) = _
      rw [if_pos first, taken]
      rfl

theorem cuts_blanks {text rest : List Char} (nonempty : text ≠ []) (blank : Blanks text)
    (stops : ∀ c ∈ rest.head?, ¬ isBlank c) : Cuts text [] rest :=
  fun _ => ⟨_, _, .ignored (first_blanks nonempty blank stops) rfl (.refl _ rest), rfl⟩

theorem letter_code {c : Char} (letter : isLetter c) : 0x41 ≤ c.toNat ∧ c.toNat ≤ 0x7a := by
  simp only [isLetter, Bool.or_eq_true, Bool.and_eq_true, decide_eq_true_eq, beq_iff_eq,
    Char.le_def, UInt32.le_iff_toNat_le] at letter
  rcases letter with (⟨low, high⟩ | ⟨low, high⟩) | rfl
  · exact ⟨low, Nat.le_trans high (by decide)⟩
  · exact ⟨Nat.le_trans (by decide) low, high⟩
  · decide

theorem letter_no_digit {c : Char} (letter : isLetter c) : ¬ Text.isDecimalDigit c := by
  have code := letter_code letter
  apply Text.low_decimal (by omega)
  intro digit
  have digitCode := Text.digit_code.mp digit
  omega

theorem letter_starts {c : Char} (letter : isLetter c) :
    ∀ other ∈ [Terminal.longComment, .comment, .number, .string], ¬ other.starts c := by
  have code := letter_code letter
  have apart (mark : Char) (low : mark.toNat < 0x41) : c ≠ mark := by
    rintro rfl
    omega
  have dash := apart '-' (by decide)
  have point := apart '.' (by decide)
  have double := apart '"' (by decide)
  have single := apart '\'' (by decide)
  have digit : Text.isDecimalDigit c = false := by simpa using letter_no_digit letter
  intro other member
  simp only [List.mem_cons, List.not_mem_nil, or_false] at member
  rcases member with rfl | rfl | rfl | rfl <;>
    simp [Terminal.starts, dash, point, double, single, digit]

/-- No name and no numeral goes on with the rest. -/
def Breaks (rest : List Char) : Prop :=
  ∀ c ∈ rest.head?, ¬ isNamePart c ∧ ¬ Text.isDecimalDigit c ∧ c ≠ '.'

/-- What names and reserved words are made of. -/
def isWord : List Char → Bool
  | [] => false
  | first :: rest => isLetter first && rest.all isNamePart

theorem measured_word {text rest : List Char} (word : isWord text) (breaks : Breaks rest) :
    measured? (text ++ rest) = some (.name, text.length) := by
  cases text with
  | nil => cases word
  | cons c text =>
      obtain ⟨letter, parts⟩ := Bool.and_eq_true_iff.mp word
      have taken := run_append (List.all_eq_true.mp parts) (fun c member => (breaks c member).1)
      refine measured_starts rfl (letter_starts letter) ?_
      change (if isLetter c then some (run isNamePart (text ++ rest) + 1) else none) = _
      rw [if_pos letter, taken]
      rfl

theorem cuts_word {text rest : List Char} (word : isWord text) (breaks : Breaks rest) :
    Cuts text [⟨wordKind text, String.ofList text⟩] rest :=
  cuts_one (measured_word word breaks) rfl

/-! Symbols. -/

theorem cuts_symbol {mark : Symbol} {rest : List Char}
    (found : measured? (mark.text.toList ++ rest) = some (.symbol mark, mark.text.length)) :
    Cuts mark.text.toList [⟨.symbol mark, mark.text⟩] rest := by
  rw [← String.length_toList] at found
  have cuts : Cuts mark.text.toList [⟨.symbol mark, String.ofList mark.text.toList⟩] rest :=
    cuts_one found rfl
  rw [String.ofList_toList] at cuts
  exact cuts

theorem cuts_symbol_blank (mark : Symbol) (rest : List Char) :
    Cuts mark.text.toList [⟨.symbol mark, mark.text⟩] (' ' :: rest) := by
  apply cuts_symbol
  cases mark with
  | operator operation => cases operation <;> rfl
  | _ => rfl

/-- A bracket, a comma or a semicolon, which no other symbol starts with. -/
def IsStop : Symbol → Prop
  | .operator _ | .assign | .dot => False
  | _ => True

theorem cuts_stop {mark : Symbol} (stop : IsStop mark) (rest : List Char) :
    Cuts mark.text.toList [⟨.symbol mark, mark.text⟩] rest := by
  apply cuts_symbol
  cases mark with
  | operator | assign | dot => cases stop
  | _ => rfl

/-- A minus sign is none of a comment in front of a digit. -/
theorem cuts_minus {digit : Char} (isDigit : digit.isDigit) (rest : List Char) :
    Cuts ['-'] [⟨.symbol (.operator .subtract), "-"⟩] (digit :: rest) := by
  have other : digit ≠ '-' := by
    rintro rfl
    cases isDigit
  have front : ∀ other ∈ (Terminal.all.take 12).drop 2, ¬ other.starts '-' := by decide
  have comment : comment? ('-' :: digit :: rest) = none := by
    unfold comment?
    split
    · next same =>
        cases same
        exact absurd rfl other
    · rfl
  have longComment : longComment? ('-' :: digit :: rest) = none := by
    unfold longComment?
    split
    · next same =>
        cases same
        exact absurd rfl other
    · rfl
  refine @cuts_symbol (.operator .subtract) _
    (@measured_first (Terminal.all.take 12) _ _ _ _ rfl ?_ rfl)
  intro terminal member
  rcases List.mem_cons.mp member with rfl | member
  · exact longComment
  rcases List.mem_cons.mp member with rfl | member
  · exact comment
  · exact length_starts (front terminal member) _

/-! Numerals. -/

theorem breaks_digit {rest : List Char} (breaks : Breaks rest) :
    ∀ c ∈ rest.head?, ¬ Text.isDecimalDigit c :=
  fun c member => (breaks c member).2.1

theorem run_digits {digits rest : List Char} (all : Double.Digits digits)
    (stops : ∀ c ∈ rest.head?, ¬ Text.isDecimalDigit c) :
    run Text.isDecimalDigit (digits ++ rest) = digits.length :=
  run_append (fun c member => Text.digit_decimal (all c member)) stops

theorem exponent_text {written : Double.Written} (proper : written.Proper) {rest : List Char}
    (breaks : Breaks rest) :
    exponent (Double.Written.powerText written.power ++ rest) =
      (Double.Written.powerText written.power).length := by
  obtain ⟨_, _, power⟩ := written
  rcases power with _ | ⟨negative, digits⟩
  · change exponent rest = 0
    cases rest with
    | nil => rfl
    | cons c rest =>
        have part := (breaks c rfl).1
        refine if_neg ?_
        intro mark
        rw [Bool.or_eq_true, beq_iff_eq, beq_iff_eq] at mark
        rcases mark with rfl | rfl <;> exact part (by decide)
  · obtain ⟨nonempty, all⟩ := proper.power negative digits rfl
    obtain ⟨count, length⟩ := Nat.exists_eq_succ_of_ne_zero (mt List.length_eq_zero_iff.mp nonempty)
    have taken := run_digits all (breaks_digit breaks)
    rw [length] at taken
    have signed : exponentDigits ((if negative then '-' else '+') :: (digits ++ rest)) =
        count + 2 := by
      cases negative <;> simp [exponentDigits, taken]
    simp [Double.Written.powerText, exponent, signed, length]

theorem power_stops {rest : List Char} (breaks : Breaks rest)
    (power : Option (Bool × List Char)) :
    ∀ c ∈ (Double.Written.powerText power ++ rest).head?, ¬ Text.isDecimalDigit c ∧ c ≠ '.' := by
  rcases power with _ | ⟨negative, digits⟩
  · exact fun c member => (breaks c member).2
  · rintro c ⟨⟩
    exact ⟨Double.letter_no_digit, by decide⟩

theorem mantissa_text {written : Double.Written} (proper : written.Proper) {rest : List Char}
    (breaks : Breaks rest) :
    mantissa? (written.text ++ rest) =
      some (written.whole ++ Double.Written.fractionText written.fraction).length := by
  obtain ⟨whole, fraction, power⟩ := written
  have stops := power_stops breaks power
  have nonempty : whole.length ≠ 0 := mt List.length_eq_zero_iff.mp proper.nonempty
  simp only [Double.Written.text, List.append_assoc]
  cases fraction with
  | nil =>
      have taken := run_digits proper.whole (fun c member => (stops c member).1)
      change mantissa? (whole ++ (Double.Written.powerText power ++ rest)) = _
      have last : ¬ ['.'].isPrefixOf (Double.Written.powerText power ++ rest) := by
        cases behind : Double.Written.powerText power ++ rest with
        | nil => decide
        | cons c more =>
            rw [behind] at stops
            exact no_point (stops c rfl).2 more
      rw [mantissa_with (by rw [taken]; exact nonempty), ← drop_run, taken, List.drop_left,
        if_neg last]
      simp [Double.Written.fractionText]
  | cons first more =>
      have point : ['.'].isPrefixOf
          ('.' :: (first :: more ++ (Double.Written.powerText power ++ rest))) = true := rfl
      have pointStops : ∀ c ∈ ('.' :: (first :: more ++
          (Double.Written.powerText power ++ rest))).head?, ¬ Text.isDecimalDigit c := by
        rintro c ⟨⟩
        decide
      have taken := run_digits proper.whole pointStops
      have behind := run_digits proper.fraction (fun c member => (stops c member).1)
      change mantissa? (whole ++
        '.' :: (first :: more ++ (Double.Written.powerText power ++ rest))) = _
      rw [mantissa_with (by rw [taken]; exact nonempty), ← drop_run, taken, List.drop_left,
        if_pos point, List.drop_one, List.tail_cons, behind]
      simp [Double.Written.fractionText]

theorem decimal_text {written : Double.Written} (proper : written.Proper) {rest : List Char}
    (breaks : Breaks rest) : decimal? (written.text ++ rest) = some written.text.length := by
  have power := exponent_text proper breaks
  have split : written.text ++ rest =
      (written.whole ++ Double.Written.fractionText written.fraction) ++
        (Double.Written.powerText written.power ++ rest) := by
    simp [Double.Written.text]
  rw [decimal?, mantissa_text proper breaks, Option.map_some, split, List.drop_left, power]
  simp [Double.Written.text, Nat.add_assoc]

theorem text_first {written : Double.Written} (proper : written.Proper) :
    ∃ digit more, written.text = digit :: more ∧ digit.isDigit := by
  obtain ⟨whole, fraction, power⟩ := written
  cases whole with
  | nil => exact absurd rfl proper.nonempty
  | cons digit whole => exact ⟨digit, _, rfl, proper.whole digit List.mem_cons_self⟩

/-- The second character of a decimal numeral or the one behind it makes nothing hexadecimal. -/
theorem second_decimal {written : Double.Written} (proper : written.Proper) {rest : List Char}
    (breaks : Breaks rest) {first second : Char} {more : List Char}
    (same : written.text ++ rest = first :: second :: more) : second ≠ 'x' ∧ second ≠ 'X' := by
  have plain := Double.text_mark proper
  obtain ⟨digit, others, text, _⟩ := text_first proper
  rw [text] at same plain
  cases others with
  | nil =>
      obtain ⟨rfl, rfl⟩ := List.cons.inj same
      have part := (breaks second rfl).1
      refine ⟨?_, ?_⟩ <;> rintro rfl <;> exact part (by decide)
  | cons other others =>
      obtain ⟨_, same⟩ := List.cons.inj same
      obtain ⟨rfl, _⟩ := List.cons.inj same
      exact plain other (List.mem_cons_of_mem _ List.mem_cons_self)

theorem number_text {written : Double.Written} (proper : written.Proper) {rest : List Char}
    (breaks : Breaks rest) : number? (written.text ++ rest) = some written.text.length := by
  have hexadecimal : hexadecimal? (written.text ++ rest) = none := by
    unfold hexadecimal?
    split
    · next mark first more same =>
        obtain ⟨lower, upper⟩ := second_decimal proper breaks same
        simp [lower, upper]
    · rfl
  rw [number?, hexadecimal, Option.none_or, decimal_text proper breaks]

theorem cuts_number {written : Double.Written} (proper : written.Proper) {rest : List Char}
    (breaks : Breaks rest) :
    Cuts written.text [⟨.number, String.ofList written.text⟩] rest := by
  have number := number_text proper breaks
  refine @cuts_one _ _ .number _ ?_ rfl
  obtain ⟨digit, more, same, isDigit⟩ := text_first proper
  rw [same] at number ⊢
  have front : ∀ other ∈ [Terminal.longComment, .comment], ¬ other.starts digit := by
    intro other member starts
    have dash : digit = '-' := by
      simp only [List.mem_cons, List.not_mem_nil, or_false] at member
      rcases member with rfl | rfl <;> exact beq_iff_eq.mp starts
    rw [dash] at isDigit
    cases isDigit
  exact measured_starts rfl front number

/-! String literals. -/

/-- A literal is cut off where its closing mark is found, whatever comes behind it. -/
theorem cuts_string {mark : Char} (quote : mark = '"' ∨ mark = '\'') {inside rest : List Char}
    (closes : stringRest? mark (inside ++ mark :: rest) = some (inside.length + 1)) :
    Cuts (mark :: inside ++ [mark]) [⟨.string, String.ofList (mark :: inside ++ [mark])⟩] rest := by
  have front : ∀ other ∈ [Terminal.longComment, .comment, .number], ¬ other.starts mark := by
    rcases quote with rfl | rfl <;> decide
  have isMark : (mark == '"' || mark == '\'') = true := by simpa using quote
  refine @cuts_one _ _ .string _ ?_ rfl
  rw [List.append_assoc, List.cons_append]
  refine measured_starts rfl front ?_
  change (if mark == '"' || mark == '\'' then
    (stringRest? mark (inside ++ mark :: rest)).map (· + 1) else none) = _
  rw [if_pos isMark, closes]
  simp

/-- What a character of a literal between double quotes can be written as: itself, or an escape. -/
inductive Writes : Char → List Char → Prop where
  | plain {c : Char} (plain : c ∉ ['"', '\\', '\r', '\n']) : Writes c [c]
  | escape {c mark : Char} (stands : Literal.escaped mark = [c]) (line : mark ≠ '\n')
      (digit : ¬ Text.isDecimalDigit mark) (ornament : ¬ Text.isOrnamentalDigit mark) :
      Writes c ['\\', mark]

/-- A text between double quotes, its characters written in some way. -/
def quotedBy (write : Char → List Char) (text : List Char) : List Char :=
  '"' :: text.flatMap write ++ ['"']

theorem stringRest_step {c : Char} {written : List Char} (writes : Writes c written)
    (rest : List Char) :
    stringRest? '"' (written ++ rest) = (stringRest? '"' rest).map (· + written.length) := by
  cases writes with
  | plain plain =>
      simp only [List.mem_cons, List.not_mem_nil, or_false, not_or] at plain
      obtain ⟨quote, backslash, carriage, line⟩ := plain
      simp [stringRest?, quote, backslash, carriage, line]
  | escape _ line _ _ => simp [stringRest?, line]

theorem unescape_step {c : Char} {written : List Char} (writes : Writes c written)
    (rest : List Char) :
    Literal.unescape (written ++ rest) = (Literal.unescape rest).map (c :: ·) := by
  cases writes with
  | plain plain =>
      have backslash : c ≠ '\\' := fun same => plain (by simp [same])
      simp [Literal.unescape, backslash]
  | @escape mark stands _ digit ornament =>
      have none : Literal.escapeDigits (mark :: rest) = [] := by
        rw [Literal.escapeDigits, List.take_succ_cons, List.takeWhile_cons_of_neg digit]
      simp [Literal.unescape, none, ornament, stands]

section Quoting

variable {write : Char → List Char} {text : List Char}

theorem stringRest_written (writes : ∀ c ∈ text, Writes c (write c)) (rest : List Char) :
    stringRest? '"' (text.flatMap write ++ '"' :: rest) =
      some ((text.flatMap write).length + 1) := by
  induction text with
  | nil => simp [stringRest?]
  | cons c text ih =>
      have behind := ih fun other member => writes other (List.mem_cons_of_mem c member)
      rw [List.flatMap_cons, List.append_assoc, stringRest_step (writes c List.mem_cons_self),
        behind, Option.map_some, List.length_append]
      exact congrArg some (by omega)

theorem unescape_written (writes : ∀ c ∈ text, Writes c (write c)) :
    Literal.unescape (text.flatMap write) = .ok text := by
  induction text with
  | nil => simp [Literal.unescape]
  | cons c text ih =>
      have behind := ih fun other member => writes other (List.mem_cons_of_mem c member)
      rw [List.flatMap_cons, unescape_step (writes c List.mem_cons_self), behind]
      rfl

theorem cuts_quoted (writes : ∀ c ∈ text, Writes c (write c)) (rest : List Char) :
    Cuts (quotedBy write text) [⟨.string, String.ofList (quotedBy write text)⟩] rest :=
  cuts_string (.inl rfl) (stringRest_written writes rest)

theorem string_quoted (writes : ∀ c ∈ text, Writes c (write c)) :
    Literal.string (String.ofList (quotedBy write text)) = .ok (String.ofList text) := by
  have inside : ((quotedBy write text).drop 1).dropLast = text.flatMap write := by
    simp [quotedBy]
  rw [Literal.string, String.toList_ofList, inside, unescape_written writes]
  rfl

end Quoting

end Lexer

end LuaCore
