import LuaCore.Display.Item
import LuaCore.Proofs.Exactness
import LuaCore.Proofs.Shown
import LuaCore.Proofs.Spelling

/-!
What shown values denote: the text of a number, of a string or of a key is cut into the forms of an
expression, and both layouts of a table into those of a table constructor.
-/

namespace LuaCore

open Lexer Tree.Grammar

namespace Double

/-- Reads a numeral that may have a minus sign. -/
def Numeral.signed? : List Char → Option Float
  | '-' :: rest => (Numeral.read? rest).map fun x => -x
  | text => Numeral.read? text

/-! Numbers that are whole. -/

theorem toInt_exact {x : Float} {n : Int} (exact' : toInt? x = some n) :
    isFinite x ∧ steps (magnitude x) = n.natAbs * stepsPerUnit := by
  obtain ⟨finite, same⟩ := toInt_iff.mp exact'
  exact ⟨finite, by rw [← natAbs_count, same, Int.natAbs_mul, Int.natAbs_natCast]⟩

theorem toInt_of_steps {x : Float} {n : Int} (finite : isFinite x)
    (count : steps (magnitude x) = n.natAbs * stepsPerUnit)
    (sign : isNegative x = decide (n < 0)) : toInt? x = some n := by
  refine toInt_iff.mpr ⟨finite, ?_⟩
  rw [Double.count, Double.sign, count, ← apply_mul, sign]
  by_cases negative : n < 0
  · rw [if_pos (decide_eq_true negative), Float.Model.UnpackedFloat.Sign.apply,
      Int.ofNat_natAbs_of_nonpos (Int.le_of_lt negative), Int.neg_neg]
  · rw [if_neg (by simpa using negative), Float.Model.UnpackedFloat.Sign.apply,
      Int.natAbs_of_nonneg (Int.not_lt.mp negative)]

/-- The numeral of a natural number that a double is worth is read to it. -/
theorem read_whole {bits n : Nat} (finite : bits < infinityBits)
    (count : steps bits = n * stepsPerUnit) :
    Numeral.read? (Nat.toDigits 10 n) = some (ofMagnitude bits) := by
  have magnitude : Decimal.toMagnitude ⟨n, 0⟩ = bits := by
    apply Decimal.toMagnitude_exact finite
    change n * 1 * stepsPerUnit = steps bits * 1
    rw [count, Nat.mul_one, Nat.mul_one]
  have read := read_text (whole_proper Nat.toDigits_ne_nil (toDigits_digits n))
  rw [whole_text, List.append_nil, decimalValue_toDigits] at read
  exact read.trans (congrArg (some ∘ ofMagnitude) magnitude)

end Double

theorem toString_chars (n : Int) :
    (toString n).toList =
      if n < 0 then '-' :: Nat.toDigits 10 n.natAbs else Nat.toDigits 10 n.natAbs := by
  cases n with
  | ofNat n => simp [toString, Int.repr, Nat.repr]
  | negSucc n => simp [toString, Int.repr, Nat.repr]

/-- A text in front of which blanks end. -/
def Starts (text : List Char) : Prop :=
  ∃ c more, text = c :: more ∧ ¬ isBlank c

/-- Up to anything that breaks words, the text is that of a phrase with this meaning. -/
structure Denotes (category : Category) (text : List Char) (value : Meaning category) : Prop where
  starts : Starts text
  spelled : ∃ forms, Spells category forms value ∧ ∀ rest, Breaks rest → Cuts text forms rest

theorem starts_append {text : List Char} (starts : Starts text) (rest : List Char) :
    ∀ c ∈ (text ++ rest).head?, ¬ isBlank c := by
  obtain ⟨first, more, rfl, noBlank⟩ := starts
  rintro c ⟨⟩
  exact noBlank

/-! Literals. -/

theorem denotes_numeral {written : Double.Written} (proper : written.Proper) {x : Float}
    (read : Double.Numeral.read? written.text = some x) (negative : Bool) :
    Denotes .expression (if negative then '-' :: written.text else written.text)
      (.number (if negative then -x else x)) := by
  obtain ⟨digit, more, same, isDigit⟩ := text_first proper
  have found : Literal.number (String.ofList written.text) = .ok x := by
    rw [Literal.number, String.toList_ofList, read]
  have numeral := spells_number (spoken_number proper) found
  cases negative with
  | false =>
      exact ⟨⟨digit, more, same, digit_not_blank isDigit⟩, _,
        spells_lower (by decide) (by decide) numeral, fun rest => cuts_number proper⟩
  | true =>
      have negated := spells_negate (spells_lower (by decide) (by decide) numeral)
      refine ⟨⟨'-', _, rfl, by decide⟩, _, spells_lower (by decide) (by decide) negated, ?_⟩
      intro rest breaks
      have sign := cuts_minus isDigit (more ++ rest)
      rw [← List.cons_append, ← same] at sign
      exact cuts_append sign (cuts_number proper breaks)

theorem signed_unsigned {written : Double.Written} (proper : written.Proper) :
    Double.Numeral.signed? written.text = Double.Numeral.read? written.text := by
  obtain ⟨digit, more, same, isDigit⟩ := text_first proper
  unfold Double.Numeral.signed?
  split
  · next sign =>
      rw [same] at sign
      cases sign
      cases isDigit
  · rfl

/-- A finite number whose text is read back to it. -/
theorem denotes_number {x : Float} (finite : Double.isFinite x)
    (survives : Double.Numeral.signed? (Double.plain x) = some x) :
    Denotes .expression (Double.plain x) (.number x) := by
  obtain ⟨written, proper, shown⟩ := Double.plain_numeral finite
  rw [shown] at survives ⊢
  by_cases negative : Double.isNegative x
  · rw [if_pos negative] at survives ⊢
    obtain ⟨y, read, rfl⟩ := Option.map_eq_some_iff.mp survives
    exact denotes_numeral proper read true
  · rw [if_neg negative] at survives ⊢
    rw [signed_unsigned proper] at survives
    exact denotes_numeral proper survives false

theorem denotes_integer {x : Float} {n : Int} (exact' : Double.toInt? x = some n) :
    ∃ y, Double.toInt? y = some n ∧ Denotes .expression (toString n).toList (.number y) := by
  obtain ⟨finite, count⟩ := Double.toInt_exact exact'
  have bound : Double.magnitude x < Double.infinityBits := of_decide_eq_true finite
  have number := Nat.le_of_lt bound
  have read := Double.read_whole bound count
  rw [← Double.whole_text (Nat.toDigits 10 n.natAbs)] at read
  have denotes := denotes_numeral
    (Double.whole_proper Nat.toDigits_ne_nil (Double.toDigits_digits _)) read (decide (n < 0))
  rw [Double.whole_text] at denotes
  refine ⟨_, ?_, by simpa only [toString_chars, decide_eq_true_eq] using denotes⟩
  have magnitude := Double.magnitude_ofMagnitude number
  by_cases negative : n < 0
  · have opposite := Double.magnitude_neg (magnitude.trans_le number)
    rw [magnitude] at opposite
    simp only [negative, if_true]
    apply Double.toInt_of_steps
    · exact decide_eq_true (opposite.trans_lt bound)
    · rw [opposite, count]
    · rw [Double.negative_neg number, decide_eq_true negative]
  · simp only [negative, if_false]
    apply Double.toInt_of_steps
    · exact decide_eq_true (magnitude.trans_lt bound)
    · rw [magnitude, count]
    · rw [Double.positive_ofMagnitude number, decide_eq_false negative]

theorem denotes_quoted {write : Char → List Char} {text : String}
    (writes : ∀ c ∈ text.toList, Writes c (write c)) :
    Denotes .expression (quotedBy write text.toList) (.string text) := by
  have found : Literal.string (String.ofList (quotedBy write text.toList)) = .ok text := by
    rw [string_quoted writes, String.ofList_toList]
  exact ⟨⟨'"', _, rfl, by decide⟩, _,
    spells_lower (by decide) (by decide) (spells_string (spoken_string writes) found),
    fun rest _ => cuts_quoted writes rest⟩

theorem escapeQuoted_writes {c : Char} (noReturn : c ≠ '\r') :
    Writes c (Display.escapeQuoted c) := by
  unfold Display.escapeQuoted
  split_ifs with backslash quote line
  on_goal 4 => exact .plain (by simp [backslash, quote, line, noReturn])
  all_goals
    subst c
    exact .escape rfl (by decide) (by decide) (by decide)

theorem escapeKey_writes {c : Char} (plain : c ∉ ['\\', '\n', '\r']) :
    Writes c (Display.escapeKey c) := by
  unfold Display.escapeKey
  split_ifs with quote
  · subst c
    exact .escape rfl (by decide) (by decide) (by decide)
  · simp only [List.mem_cons, List.not_mem_nil, or_false, not_or] at plain
    exact .plain (by simp [quote, plain])

theorem denotes_string {text : String} (noReturn : '\r' ∉ text.toList) :
    Denotes .expression (Display.quoted text.toList) (.string text) :=
  denotes_quoted fun _ member => escapeQuoted_writes (fun same => noReturn (same ▸ member))

theorem denotes_boolean (value : Bool) :
    Denotes .expression (if value then ['t', 'r', 'u', 'e'] else ['f', 'a', 'l', 's', 'e'])
      (.boolean value) := by
  cases value with
  | true =>
      exact ⟨⟨'t', _, rfl, by decide⟩, _, spells_lower (by decide) (by decide) spells_truth,
        fun rest breaks => cuts_word (by decide) breaks⟩
  | false =>
      exact ⟨⟨'f', _, rfl, by decide⟩, _, spells_lower (by decide) (by decide) spells_falsehood,
        fun rest breaks => cuts_word (by decide) breaks⟩

/-! Keys. -/

/-- Keys whose text can be read back: whole numbers that a double is worth, names, and texts that
are no identifier and hold nothing that a literal would need to escape, quotes apart. -/
def Key.Readable : Key → Prop
  | .integer n => ∃ x, Double.toInt? x = some n
  | .name text =>
      IsName text ∨ (¬ Text.isIdentifier text.toList ∧ ∀ c ∈ text.toList, c ∉ ['\\', '\n', '\r'])

/-- The fields with a certain key. -/
inductive HasKey : Key → Expression → Field → Prop where
  | named (name : String) (value : Expression) : HasKey (.name name) value (.named name value)
  | number {x : Float} {n : Int} (exact' : Double.toInt? x = some n) (value : Expression) :
      HasKey (.integer n) value (.keyed (.number x) value)
  | string (text : String) (value : Expression) :
      HasKey (.name text) value (.keyed (.string text) value)

theorem letter_identifier {c : Char} (letter : isLetter c) : Text.isIdentifierStart c := by
  have upper : (0x41, 0x5A) ∈ Text.identifierStarts := List.mem_cons_self
  have lower : (0x61, 0x7A) ∈ Text.identifierStarts := List.mem_cons_of_mem _ List.mem_cons_self
  simp only [isLetter, Bool.or_eq_true, Bool.and_eq_true, decide_eq_true_eq, beq_iff_eq,
    Char.le_def, UInt32.le_iff_toNat_le] at letter
  have range {low high : Nat} (member : (low, high) ∈ Text.identifierStarts)
      (above : low ≤ c.toNat) (below : c.toNat ≤ high) : Text.isIdentifierStart c := by
    apply Bool.or_eq_true_iff.mpr (.inr _)
    exact List.any_eq_true.mpr ⟨_, member, by simp [above, below]⟩
  rcases letter with (⟨low, high⟩ | ⟨low, high⟩) | rfl
  · exact range upper low high
  · exact range lower low high
  · rfl

theorem part_identifier {c : Char} (part : isNamePart c) : Text.isIdentifierPart c := by
  rcases Bool.or_eq_true_iff.mp part with letter | digit
  · exact Bool.or_eq_true_iff.mpr (.inl (letter_identifier letter))
  · have member : (0x30, 0x39) ∈ Text.identifierMarks := List.mem_cons_self
    simp only [Bool.and_eq_true, decide_eq_true_eq, Char.le_def, UInt32.le_iff_toNat_le] at digit
    apply Bool.or_eq_true_iff.mpr (.inr _)
    have within : 0x30 ≤ c.toNat ∧ c.toNat ≤ 0x39 := digit
    exact List.any_eq_true.mpr ⟨_, member, by simp [within]⟩

theorem name_identifier {name : String} (isName : IsName name) :
    Text.isIdentifier name.toList := by
  have word := isName.1
  cases chars : name.toList with
  | nil =>
      rw [chars] at word
      cases word
  | cons first rest =>
      rw [chars] at word
      obtain ⟨letter, parts⟩ := Bool.and_eq_true_iff.mp word
      refine Bool.and_eq_true_iff.mpr ⟨letter_identifier letter, ?_⟩
      exact List.all_eq_true.mpr fun c member =>
        part_identifier (List.all_eq_true.mp parts c member)

/-- Blanks in front of a text make no difference. -/
theorem cuts_gap {gap text rest : List Char} {forms : List Form} (blank : Blanks gap)
    (stops : ∀ c ∈ (text ++ rest).head?, ¬ isBlank c) (cuts : Cuts text forms rest) :
    Cuts (gap ++ text) forms rest := by
  cases gap with
  | nil => exact cuts
  | cons c gap =>
      have before : Cuts (c :: gap) [] (text ++ rest) :=
        cuts_blanks (List.cons_ne_nil c gap) blank stops
      exact cuts_append before cuts

theorem cuts_assign {text rest : List Char} {forms : List Form} (starts : Starts text)
    (cuts : Cuts text forms rest) :
    Cuts ([' ', '=', ' '] ++ text) ([.mark .assign] ++ forms) rest := by
  have blank : Blanks [' '] := by decide
  have behind : Cuts ([' '] ++ text) forms rest := cuts_gap blank (starts_append starts rest) cuts
  have sign : Cuts (['='] ++ ([' '] ++ text)) ([.mark .assign] ++ forms) rest :=
    cuts_append (cuts_symbol_blank .assign (text ++ rest)) behind
  refine @cuts_gap [' '] _ _ _ blank ?_ sign
  rintro c ⟨⟩
  decide

theorem cuts_brackets {text rest : List Char} {forms : List Form}
    (cuts : Cuts text forms (']' :: rest)) :
    Cuts ('[' :: (text ++ [']'])) ([.mark .leftBracket] ++ (forms ++ [.mark .rightBracket])) rest :=
  cuts_append (@cuts_stop .leftBracket trivial _)
    (cuts_append cuts (@cuts_stop .rightBracket trivial rest))

theorem breaks_bracket (rest : List Char) : Breaks (']' :: rest) := by
  rintro c ⟨⟩
  decide

theorem denotes_named {name : String} {text : List Char} {value : Expression} (isName : IsName name)
    (denotes : Denotes .expression text value) :
    Denotes .field (name.toList ++ ([' ', '=', ' '] ++ text)) (.named name value) := by
  obtain ⟨starts, forms, spells, cuts⟩ := denotes
  obtain ⟨first, more, chars, noBlank⟩ := (spoken_name isName).starts
  have chars : name.toList = first :: more := chars
  refine ⟨⟨first, _, by rw [chars]; rfl, noBlank⟩, _, spells_named isName spells, ?_⟩
  intro rest breaks
  have behind := cuts_assign starts (cuts rest breaks)
  exact cuts_append (cuts_name isName (breaks_blank _)) behind

theorem denotes_keyed {inside text : List Char} {key value : Expression}
    (denotes : Denotes .expression inside key) (denotes' : Denotes .expression text value) :
    Denotes .field ('[' :: (inside ++ [']']) ++ ([' ', '=', ' '] ++ text)) (.keyed key value) := by
  obtain ⟨_, keyForms, keySpells, keyCuts⟩ := denotes
  obtain ⟨starts, forms, spells, cuts⟩ := denotes'
  refine ⟨⟨'[', _, rfl, by decide⟩, _, spells_keyed keySpells spells, ?_⟩
  intro rest breaks
  have behind := cuts_assign starts (cuts rest breaks)
  have bracketed := cuts_append (cuts_brackets (keyCuts _ (breaks_bracket _))) behind
  simpa only [List.append_assoc] using bracketed

theorem denotes_entry {key : Key} (readable : key.Readable) {text : List Char}
    {value : Expression} (denotes : Denotes .expression text value) :
    ∃ field, HasKey key value field ∧
      Denotes .field (Display.keyText key ++ [' ', '=', ' '] ++ text) field := by
  rw [List.append_assoc]
  cases key with
  | integer n =>
      obtain ⟨x, exact'⟩ := readable
      obtain ⟨y, whole, inside⟩ := denotes_integer exact'
      exact ⟨_, .number whole value, denotes_keyed inside denotes⟩
  | name name =>
      by_cases identifier : Text.isIdentifier name.toList
      · have isName : IsName name := readable.resolve_right fun other => other.1 identifier
        rw [Display.keyText, if_pos identifier]
        exact ⟨_, .named name value, denotes_named isName denotes⟩
      · have plain : ∀ c ∈ name.toList, Writes c (Display.escapeKey c) := by
          rcases readable with isName | ⟨_, plain⟩
          · exact absurd (name_identifier isName) identifier
          · exact fun c member => escapeKey_writes (plain c member)
        rw [Display.keyText, if_neg identifier]
        refine ⟨_, .string name value, ?_⟩
        have keyed := denotes_keyed (denotes_quoted plain) denotes
        simpa [quotedBy] using keyed

/-! Tables. -/

/-- A text that ends in front of what breaks words, and starts with no blank. -/
def Piece (text : List Char) (forms : List Form) : Prop :=
  Starts text ∧ ∀ rest, Breaks rest → Cuts text forms rest

theorem separated_cons (separator first next : List Char) (items : List (List Char)) :
    Display.separated separator (first :: next :: items) =
      first ++ (separator ++ Display.separated separator (next :: items)) := by
  simp [Display.separated]

theorem commas_cons (first next : List Form) (rows : List (List Form)) :
    commas (first :: next :: rows) = first ++ ([.mark .comma] ++ commas (next :: rows)) := by
  simp [commas]

theorem starts_separated {separator text : List Char} {items : List (List Char)}
    (starts : Starts text) : Starts (Display.separated separator (text :: items)) := by
  obtain ⟨first, more, rfl, noBlank⟩ := starts
  cases items with
  | nil => exact ⟨first, more, by simp [Display.separated], noBlank⟩
  | cons next items => exact ⟨first, _, separated_cons .., noBlank⟩

theorem cuts_separated {gap : List Char} (blank : Blanks gap)
    {items : List (List Char)} {rows : List (List Form)} (each : List.Forall₂ Piece items rows)
    {rest : List Char} (breaks : Breaks rest) :
    Cuts (Display.separated (',' :: gap) items) (commas rows) rest := by
  induction each with
  | nil => exact cuts_nil rest
  | @cons item row items rows first others ih =>
      cases others with
      | nil => simpa [Display.separated, commas] using first.2 rest breaks
      | @cons next nextRow items rows second others =>
          have stops := starts_append (@starts_separated (',' :: gap) _ items second.1) rest
          have apart := cuts_gap blank stops ih
          have comma : Cuts ([','] ++ (gap ++ Display.separated (',' :: gap) (next :: items)))
              ([.mark .comma] ++ commas (nextRow :: rows)) rest :=
            cuts_append (@cuts_stop .comma trivial _) apart
          rw [separated_cons, commas_cons]
          refine cuts_append (first.2 _ ?_) comma
          rintro c ⟨⟩
          decide

theorem blank_breaks {c : Char} (blank : isBlank c) :
    ¬ isNamePart c ∧ ¬ Text.isDecimalDigit c ∧ c ≠ '.' := by
  rcases isBlank_iff.mp blank with rfl | rfl | rfl | rfl | rfl <;> decide

/-- Items in braces, with blanks behind the first brace and in front of the last one. -/
theorem cuts_braces {lead gap tail : List Char} (blankLead : Blanks lead)
    (blankGap : Blanks gap) (blankTail : Blanks tail)
    {items : List (List Char)} {rows : List (List Form)} (each : List.Forall₂ Piece items rows)
    (rest : List Char) :
    Cuts (['{'] ++ (lead ++ (Display.separated (',' :: gap) items ++ (tail ++ ['}']))))
      ([.mark .leftBrace] ++ (commas rows ++ [.mark .rightBrace])) rest := by
  refine cuts_append (@cuts_stop .leftBrace trivial _) ?_
  have brace : Cuts ['}'] [.mark .rightBrace] rest := @cuts_stop .rightBrace trivial rest
  have stops : ∀ c ∈ (['}'] ++ rest).head?, ¬ isBlank c := by
    rintro c ⟨⟩
    decide
  cases each with
  | nil =>
      -- The blanks on both sides are one row.
      have blank : Blanks (lead ++ tail) := by
        intro c member
        exact (List.mem_append.mp member).elim (blankLead c) (blankTail c)
      have behind := cuts_gap blank stops brace
      rw [List.append_assoc] at behind
      exact behind
  | @cons item row items rows first others =>
      have breaks : Breaks (tail ++ ['}'] ++ rest) := by
        cases tail with
        | nil =>
            rintro c ⟨⟩
            decide
        | cons c tail =>
            rintro _ ⟨⟩
            exact blank_breaks (blankTail c List.mem_cons_self)
      have inside := cuts_separated blankGap (.cons first others) breaks
      have closing := cuts_append inside (cuts_gap blankTail stops brace)
      have starts := starts_append (@starts_separated (',' :: gap) _ items first.1)
        (tail ++ ['}'] ++ rest)
      rw [← List.append_assoc] at starts
      exact cuts_gap blankLead starts closing

theorem denotes_rows {items : List (List Char)} {fields : List Field}
    (each : List.Forall₂ (Denotes .field) items fields) :
    ∃ rows, List.Forall₂ Piece items rows ∧ List.Forall₂ (Spells .field) rows fields := by
  induction each with
  | nil => exact ⟨[], .nil, .nil⟩
  | cons first _ ih =>
      obtain ⟨starts, forms, spells, cuts⟩ := first
      obtain ⟨rows, pieces, spelled⟩ := ih
      exact ⟨forms :: rows, .cons ⟨starts, cuts⟩ pieces, .cons spells spelled⟩

/-- Both layouts of a table are a table constructor. -/
theorem denotes_table {items : List (List Char)} {fields : List Field}
    (each : List.Forall₂ (Denotes .field) items fields) (width : Option Int) (indent : Int) :
    Denotes .expression (Display.layout width indent items) (.table fields) := by
  obtain ⟨rows, pieces, spelled⟩ := denotes_rows each
  have spells := spells_table (spells_fields spelled)
  have blanks (count : Int) : Blanks (Display.blanks count) := by
    intro c member
    rw [List.eq_of_mem_replicate member]
    decide
  have indented (count : Int) : Blanks ('\n' :: Display.blanks count) :=
    List.forall_mem_cons.mpr ⟨by decide, blanks count⟩
  unfold Display.layout
  split
  · refine ⟨⟨'{', _, rfl, by decide⟩, _, spells_lower (by decide) (by decide) spells, ?_⟩
    intro rest _
    have none : Blanks [] := fun _ member => absurd member List.not_mem_nil
    exact cuts_braces none (by decide : Blanks [' ']) none pieces rest
  · refine ⟨⟨'{', _, rfl, by decide⟩, _, spells_lower (by decide) (by decide) spells, ?_⟩
    intro rest _
    have cuts := cuts_braces (by decide : Blanks [' ', ' ', ' ']) (indented (indent + 4))
      (indented indent) pieces rest
    simpa [Display.severalLines] using cuts

end LuaCore
