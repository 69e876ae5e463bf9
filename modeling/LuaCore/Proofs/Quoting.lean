import LuaCore.Proofs.Parsing
import LuaCore.Proofs.Readback

/-!
Strings in quotes. The text that a string is shown as is a literal of that string, whatever it
holds. A program can hold the literal unless the string has a carriage return, which is shown as it
is: no terminal matches where such a literal starts. The same goes for literals with escapes of all
kinds: each one stands for a string, and only one with a line feed behind a backslash is refused.
-/

namespace LuaCore

open Lexer Tree.Reader

/-! The literal that a string is shown as. -/

/-- A character stands for itself again, also a carriage return, which is not escaped. -/
theorem unescape_escapeQuoted (c : Char) (rest : List Char) :
    Literal.unescape (Display.escapeQuoted c ++ rest) = (Literal.unescape rest).map (c :: ·) := by
  by_cases carriage : c = '\r'
  · subst c
    rw [Display.escapeQuoted, if_neg (by decide), if_neg (by decide), if_neg (by decide)]
    simp [Literal.unescape]
  · exact unescape_step (escapeQuoted_writes carriage) rest

theorem unescape_quoted (text : List Char) :
    Literal.unescape (text.flatMap Display.escapeQuoted) = .ok text := by
  induction text with
  | nil => simp [Literal.unescape]
  | cons c text ih =>
      rw [List.flatMap_cons, unescape_escapeQuoted, ih]
      rfl

theorem string_item (machine : Machine) (width : Option Int) (indent : Int) (text : String) :
    Literal.string (String.ofList (Display.item machine width indent (.string text))) =
      .ok text := by
  have inside : ((Display.quoted text.toList).drop 1).dropLast =
      text.toList.flatMap Display.escapeQuoted := by
    simp [Display.quoted]
  rw [Display.item, Display.itemWithin, Literal.string, String.toList_ofList, inside,
    unescape_quoted]
  exact congrArg Except.ok String.ofList_toList

/-! Carriage returns. -/

/-- Escapes are whole, so that no backslash in front of a carriage return takes it in. -/
theorem stringRest_carriage {text : List Char} (carriage : '\r' ∈ text) (rest : List Char) :
    stringRest? '"' (text.flatMap Display.escapeQuoted ++ rest) = none := by
  induction text with
  | nil => cases carriage
  | cons c text ih =>
      rw [List.flatMap_cons, List.append_assoc]
      by_cases first : c = '\r'
      · subst c
        rw [Display.escapeQuoted, if_neg (by decide), if_neg (by decide), if_neg (by decide)]
        simp [stringRest?]
      · have behind := ih ((List.mem_cons.mp carriage).resolve_left (Ne.symm first))
        rw [stringRest_step (escapeQuoted_writes first), behind]
        rfl

section

variable {mark : Char} (quote : mark = '"' ∨ mark = '\'')

include quote

/-- Only string literals start with a quote. -/
theorem starts_quote {terminal : Terminal} (starts : terminal.starts mark) :
    terminal = .string := by
  rcases quote with rfl | rfl
  all_goals
    cases terminal with
    | string => rfl
    | symbol mark =>
        cases mark with
        | operator operation => cases operation <;> cases starts
        | _ => cases starts
    | _ => cases starts

theorem first_open {rest : List Char} (open' : stringRest? mark rest = none) :
    Terminal.first? (mark :: rest) = none := by
  have isMark : (mark == '"' || mark == '\'') = true := by simpa using quote
  have unmeasured : measured? (mark :: rest) = none := by
    apply List.findSome?_eq_none_iff.mpr
    intro terminal _
    by_cases starts : terminal.starts mark
    · obtain rfl := starts_quote quote starts
      change (if mark == '"' || mark == '\'' then (stringRest? mark rest).map (· + 1) else none).map
        _ = _
      rw [if_pos isMark, open']
      rfl
    · rw [length_starts starts]
      rfl
  rw [first_measured, unmeasured]
  rfl

end

/-- The tokens of a text that returns something, up to what it returns. -/
theorem lexes_return {rest : List Char} (stops : ∀ c ∈ rest.head?, ¬ isBlank c) :
    Lexes {} ("return ".toList ++ rest) [⟨.keyword .returnWord, "return", {}⟩] ⟨1, 8⟩ rest := by
  have word : Terminal.first? ("return".toList ++ ' ' :: rest) = some (.name, ' ' :: rest) := by
    refine first_taken (measured_word (by decide) ?_)
    rintro c ⟨⟩
    decide
  have blank : Terminal.first? ([' '] ++ rest) = some (.blank, rest) :=
    first_blanks (by decide) (by decide) stops
  exact .token word rfl (.ignored blank rfl (.refl ⟨1, 8⟩ rest))

theorem refused_open {mark : Char} (quote : mark = '"' ∨ mark = '\'') {rest : List Char}
    (open' : stringRest? mark rest = none) :
    Refused ("return " ++ String.ofList (mark :: rest)) "LuaParseError" (String.ofList [mark])
      ⟨1, 8⟩ := by
  have lexes : Lexes {} ("return " ++ String.ofList (mark :: rest)).toList
      [⟨.keyword .returnWord, "return", {}⟩] ⟨1, 8⟩ (mark :: rest) := by
    rw [String.toList_append, @String.toList_ofList (mark :: rest)]
    refine lexes_return ?_
    rintro c ⟨⟩
    rcases quote with rfl | rfl <;> decide
  have outcome : parseTree ("return " ++ String.ofList (mark :: rest)) =
      .error (.unmatched mark ⟨1, 8⟩) := by
    rw [parseTree, scan_character lexes (first_open quote open')]
    rfl
  exact ⟨_, parse_error outcome, rfl, rfl, rfl⟩

/-- The shown text of a string is a literal of it, and a program that returns the literal returns
that string, unless it has a carriage return: then the program is refused at the literal. -/
theorem item_string_literal (machine : Machine) (width : Option Int) (indent : Int)
    (text : String) :
    let shown := String.ofList (Display.item machine width indent (.string text))
    Literal.string shown = .ok text ∧
      if '\r' ∈ text.toList then Refused ("return " ++ shown) "LuaParseError" "\"" ⟨1, 8⟩
      else parse ("return " ++ shown) = .ok [.returns (.string text)] := by
  refine ⟨string_item machine width indent text, ?_⟩
  have shown : Display.item machine width indent (.string text) = Display.quoted text.toList := by
    rw [Display.item, Display.itemWithin]
  rw [shown]
  split_ifs with carriage
  · exact refused_open (.inl rfl) (stringRest_carriage carriage ['"'])
  · exact parse_item (denotes_string carriage)

/-! Literals with escapes. -/

/-- Whether a character has an escape. One that has none stands for itself behind its backslash. -/
def Literal.IsKnown (c : Char) : Prop :=
  escaped c ≠ ['\\', c]

instance (c : Char) : Decidable (Literal.IsKnown c) :=
  inferInstanceAs (Decidable (_ ≠ _))

/-- What can stand between two marks: plain characters, and backslashes each with a digit or with a
character that has an escape. -/
inductive Inside (mark : Char) : List Char → Prop where
  | nil : Inside mark []
  | plain {c : Char} {rest : List Char} (plain : c ∉ [mark, '\\', '\r', '\n'])
      (inside : Inside mark rest) : Inside mark (c :: rest)
  | escape {c : Char} {rest : List Char} (known : c.isDigit ∨ Literal.IsKnown c)
      (inside : Inside mark rest) : Inside mark ('\\' :: c :: rest)

theorem known_plain {c : Char} (known : Literal.IsKnown c) : ¬ Text.isOrnamentalDigit c := by
  unfold Literal.IsKnown Literal.escaped at known
  split at known
  all_goals first | decide | exact absurd rfl known

theorem decimal_backslash {c : Char} (digit : Text.isDecimalDigit c) : c ≠ '\\' := by
  rintro rfl
  exact absurd digit (by decide)

section

variable {mark : Char} {text : List Char}

theorem inside_plain {c : Char} (inside : Inside mark (c :: text)) (other : c ≠ '\\') :
    Inside mark text := by
  cases inside with
  | plain _ inside => exact inside
  | escape => exact absurd rfl other

theorem inside_digits {digits : List Char} (decimal : ∀ c ∈ digits, Text.isDecimalDigit c)
    (inside : Inside mark (digits ++ text)) : Inside mark text := by
  induction digits with
  | nil => exact inside
  | cons digit digits ih =>
      obtain ⟨first, others⟩ := List.forall_mem_cons.mp decimal
      exact ih others (inside_plain inside (decimal_backslash first))

/-- A number takes only plain digits behind its first one, so that it takes no escape apart. -/
theorem inside_drop {c digit : Char} {digits : List Char}
    (number : Literal.escapeDigits (c :: text) = digit :: digits) (inside : Inside mark text) :
    Inside mark (text.drop digits.length) := by
  have decimal : ∀ c ∈ digit :: digits, Text.isDecimalDigit c := by
    rw [← number]
    exact fun c member => List.mem_takeWhile_imp member
  have front : digit :: digits <+: c :: text := by
    rw [← number]
    exact (List.takeWhile_prefix _).trans (List.take_prefix 3 _)
  obtain ⟨_, more, rfl⟩ := List.cons_prefix_cons.mp front
  rw [List.drop_left]
  exact inside_digits (List.forall_mem_cons.mp decimal).2 inside

theorem unescape_inside (inside : Inside mark text) :
    ∃ value, Literal.unescape text = .ok value := by
  fun_induction Literal.unescape text with
  | case1 | case2 => exact ⟨_, rfl⟩
  | case3 c rest noNumber ornamental =>
      cases inside with
      | plain plain => exact absurd plain (by simp)
      | escape known =>
          rcases known with digit | known
          · rw [Literal.escapeDigits, List.take_succ_cons,
              List.takeWhile_cons_of_pos (Text.digit_decimal digit)] at noNumber
            cases noNumber
          · exact absurd ornamental (known_plain known)
  | case4 c rest _ _ ih =>
      cases inside with
      | plain plain => exact absurd plain (by simp)
      | escape _ inside =>
          obtain ⟨value, read⟩ := ih inside
          exact ⟨_, congrArg (Except.map _) read⟩
  | case5 c rest digit digits number ih =>
      cases inside with
      | plain plain => exact absurd plain (by simp)
      | escape _ inside =>
          obtain ⟨value, read⟩ := ih (inside_drop number inside)
          exact ⟨_, congrArg (Except.map _) read⟩
  | case6 c rest single plain ih =>
      cases inside with
      | plain _ inside =>
          obtain ⟨value, read⟩ := ih inside
          exact ⟨_, congrArg (Except.map _) read⟩
      | escape => exact absurd rfl (plain _ _ rfl)

-- A line feed can only stand behind a backslash, where an escape is known for it, but no literal
-- goes on there.
theorem stringRest_inside (quote : mark = '"' ∨ mark = '\'') (inside : Inside mark text)
    (rest : List Char) :
    stringRest? mark (text ++ mark :: rest) =
      if '\n' ∈ text then none else some (text.length + 1) := by
  have other : mark ≠ '\\' := by rcases quote with rfl | rfl <;> decide
  induction inside with
  | nil => simp [stringRest?, other]
  | @plain c text plain _ ih =>
      simp only [List.mem_cons, List.not_mem_nil, or_false, not_or] at plain
      obtain ⟨noMark, noBackslash, noReturn, noLine⟩ := plain
      have step : stringRest? mark (c :: (text ++ mark :: rest)) =
          (stringRest? mark (text ++ mark :: rest)).map (· + 1) := by
        simp [stringRest?, noMark, noBackslash, noReturn, noLine]
      have apart : '\n' ≠ c := fun same => noLine same.symm
      rw [List.cons_append, step, ih]
      by_cases line : '\n' ∈ text <;> simp [line, apart]
  | @escape c text _ _ ih =>
      rw [List.cons_append, List.cons_append, stringRest?]
      by_cases line : c = '\n'
      · simp [line]
      · rw [if_neg line, ih]
        have apart : '\n' ≠ c := fun same => line same.symm
        by_cases line' : '\n' ∈ text <;> simp [line', apart]

end

theorem literal_inside {mark : Char} {text : List Char} (inside : Inside mark text) :
    ∃ value, Literal.string (String.ofList (mark :: text ++ [mark])) = .ok value := by
  obtain ⟨value, read⟩ := unescape_inside inside
  refine ⟨String.ofList value, ?_⟩
  have between : ((mark :: text ++ [mark]).drop 1).dropLast = text := by simp
  rw [Literal.string, String.toList_ofList, between, read]
  rfl

theorem denotes_inside {mark : Char} (quote : mark = '"' ∨ mark = '\'') {text : List Char}
    (inside : Inside mark text) (clear : '\n' ∉ text) {value : String}
    (read : Literal.string (String.ofList (mark :: text ++ [mark])) = .ok value) :
    Denotes .expression (mark :: text ++ [mark]) (.string value) := by
  have solid : ¬ isBlank mark := by rcases quote with rfl | rfl <;> decide
  have cuts (rest : List Char) :
      Cuts (mark :: text ++ [mark]) [⟨.string, String.ofList (mark :: text ++ [mark])⟩] rest := by
    apply cuts_string quote
    rw [stringRest_inside quote inside, if_neg clear]
  have spoken : Spoken (.string (mark :: text ++ [mark])) := by
    refine ⟨fun rest => ?_, ⟨mark, _, String.toList_ofList, solid⟩⟩
    rw [Form.string, String.toList_ofList]
    exact cuts (' ' :: rest)
  exact ⟨⟨mark, _, rfl, solid⟩, _,
    spells_lower (by decide) (by decide) (spells_string spoken read), fun rest _ => cuts rest⟩

/-- A literal with escapes of any kind stands for a string, and a program that returns the literal
returns that string, unless there is a line feed behind a backslash in it: then the program is
refused at the literal, although the escape is a known one. -/
theorem literal_returns {mark : Char} (quote : mark = '"' ∨ mark = '\'') {text : List Char}
    (inside : Inside mark text) :
    let literal := String.ofList (mark :: text ++ [mark])
    ∃ value, Literal.string literal = .ok value ∧
      if '\n' ∈ text then
        Refused ("return " ++ literal) "LuaParseError" (String.ofList [mark]) ⟨1, 8⟩
      else parse ("return " ++ literal) = .ok [.returns (.string value)] := by
  obtain ⟨value, read⟩ := literal_inside inside
  refine ⟨value, read, ?_⟩
  split_ifs with line
  · have open' : stringRest? mark (text ++ [mark]) = none := by
      rw [stringRest_inside quote inside, if_pos line]
    exact refused_open quote open'
  · exact parse_item (denotes_inside quote inside line read)

/-- A run of backslashes in front of the closing mark, and a number with a digit behind it. -/
theorem literal_returns_backslashes :
    let text := ['\\', '6', '5', '7', '\\', '\\', '\\', '\'', '\\', '\\']
    Inside '\'' text ∧
    ∃ value, Literal.string (String.ofList ('\'' :: text ++ ['\''])) = .ok value ∧
      parse ("return " ++ String.ofList ('\'' :: text ++ ['\''])) =
        .ok [.returns (.string value)] := by
  have digits : Inside '\'' ['\\', '6', '5', '7', '\\', '\\', '\\', '\'', '\\', '\\'] := by
    refine .escape (.inl (by decide)) (.plain (by decide) (.plain (by decide) ?_))
    exact .escape (.inr (by decide)) (.escape (.inr (by decide)) (.escape (.inr (by decide)) .nil))
  obtain ⟨value, read, parsed⟩ := literal_returns (.inr rfl) digits
  exact ⟨digits, value, read, parsed⟩

/-- The decoder knows a line feed behind a backslash, and no literal can have one. -/
theorem literal_returns_lineFeed :
    ¬ ∀ (mark : Char) (text : List Char), mark = '"' ∨ mark = '\'' → Inside mark text →
      ∃ value, Literal.string (String.ofList (mark :: text ++ [mark])) = .ok value ∧
        parse ("return " ++ String.ofList (mark :: text ++ [mark])) =
          .ok [.returns (.string value)] := by
  intro always
  have refused : parse "return '\\\n'" = .error (.unmatched '\'' ⟨1, 8⟩) := by cbv
  obtain ⟨_, _, parsed⟩ := always '\'' ['\\', '\n'] (.inr rfl) (.escape (.inr (by decide)) .nil)
  cases refused.symm.trans parsed

end LuaCore
