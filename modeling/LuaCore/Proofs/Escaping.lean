import LuaCore.Proofs.Quoting

/-!
Keys in quotes. The text in the brackets of a key is a literal, in which only quotes are escaped.
The literal stands for the key only if each backslash of the key is its last character or stands in
front of one that stays behind it: any other pair is taken for an escape, and then the literal
stands for a shorter text, or for none.
-/

namespace LuaCore

open Lexer

namespace Literal

/-- Whether a character of a key stays behind a backslash. A quote does, as the backslash that
escapes it is taken for the second one of a pair. -/
def Stays (c : Char) : Prop :=
  c = '"' ∨ ¬ IsKnown c ∧ ¬ Text.isDecimalDigit c ∧ ¬ Text.isOrnamentalDigit c

/-- Whether two characters of a key that stand side by side are read as they are. -/
def Adjoins (c next : Char) : Prop :=
  c = '\\' → Stays next

instance (c : Char) : Decidable (Stays c) :=
  inferInstanceAs (Decidable (_ ∨ _))

instance (c next : Char) : Decidable (Adjoins c next) :=
  inferInstanceAs (Decidable (_ → _))

theorem stays_plain {c : Char} (stays : Stays c) : c ≠ '\\' := by
  rintro rfl
  exact absurd stays (by decide)

end Literal

open Literal

section

variable {c : Char}

theorem escapeKey_other (quote : c ≠ '"') : Display.escapeKey c = [c] :=
  if_neg quote

/-! What the decoder takes from the text of a key. -/

theorem unescape_key (plain : c ≠ '\\') (rest : List Char) :
    unescape (Display.escapeKey c ++ rest) = (unescape rest).map (c :: ·) := by
  by_cases quote : c = '"'
  · subst c
    exact unescape_step (.escape rfl (by decide) (by decide) (by decide)) rest
  · rw [escapeKey_other quote]
    simp [unescape, plain]

theorem escapeDigits_none (digit : ¬ Text.isDecimalDigit c) (rest : List Char) :
    escapeDigits (c :: rest) = [] := by
  rw [escapeDigits, List.take_succ_cons, List.takeWhile_cons_of_neg digit]

/-- An escape by one character. -/
theorem unescape_mark (digit : ¬ Text.isDecimalDigit c) (ornament : ¬ Text.isOrnamentalDigit c)
    (rest : List Char) :
    unescape ('\\' :: c :: rest) = (unescape rest).map (escaped c ++ ·) := by
  simp [unescape, escapeDigits_none digit, ornament]

theorem unescape_stays (stays : Stays c) (rest : List Char) :
    unescape ('\\' :: (Display.escapeKey c ++ rest)) = (unescape rest).map ('\\' :: c :: ·) := by
  by_cases quote : c = '"'
  · subst c
    change unescape ('\\' :: '\\' :: '"' :: rest) = _
    rw [unescape_mark (by decide) (by decide)]
    cases read : unescape rest <;> simp [unescape, escaped, read, Except.map]
  · obtain ⟨unknown, digit, ornament⟩ := stays.resolve_left quote
    have same : escaped c = ['\\', c] := not_not.mp unknown
    rw [escapeKey_other quote, List.singleton_append, unescape_mark digit ornament, same]
    rfl

/-- An escape by a number. -/
theorem unescape_number {text : List Char} {digit : Char} {digits : List Char}
    (number : escapeDigits (c :: text) = digit :: digits) :
    unescape ('\\' :: c :: text) = (unescape (text.drop digits.length)).map
      (Char.ofNat (Double.decimalValue (digit :: digits)) :: ·) := by
  simp [unescape, number]

theorem unescape_ornament (digit : ¬ Text.isDecimalDigit c) (ornament : Text.isOrnamentalDigit c)
    (rest : List Char) : unescape ('\\' :: c :: rest) = .error (.escape c) := by
  simp [unescape, escapeDigits_none digit, ornament]

theorem escaped_length (known : IsKnown c) : (escaped c).length = 1 := by
  unfold IsKnown escaped at *
  split at known
  all_goals first | rfl | exact absurd rfl known

end

theorem unescape_chain :
    ∀ {text : List Char}, text.IsChain Adjoins →
      unescape (text.flatMap Display.escapeKey) = .ok text
  | [], _ => by simp [unescape]
  | [c], _ => by
      by_cases backslash : c = '\\'
      · subst c
        simp [Display.escapeKey, unescape]
      · rw [List.flatMap_cons, unescape_key backslash]
        simp [unescape, Except.map]
  | c :: next :: rest, chain => by
      obtain ⟨adjoins, behind⟩ := List.isChain_cons_cons.mp chain
      by_cases backslash : c = '\\'
      · subst c
        have kept : rest.IsChain Adjoins := behind.tail
        rw [List.flatMap_cons, List.flatMap_cons, escapeKey_other (by decide),
          List.singleton_append, unescape_stays (adjoins rfl), unescape_chain kept]
        rfl
      · rw [List.flatMap_cons, unescape_key backslash, unescape_chain behind]
        rfl

theorem map_read {α β : Type} {read : Except Fault α} {f : α → β} {value : β}
    (mapped : read.map f = .ok value) : ∃ inner, read = .ok inner ∧ f inner = value := by
  cases read with
  | error => cases mapped
  | ok inner => exact ⟨inner, rfl, Except.ok.inj mapped⟩

/-- Digits in the text of a key are digits of the key, so that what follows them is the text of the
rest of the key. -/
theorem drop_digits {digits text : List Char} (decimal : ∀ c ∈ digits, Text.isDecimalDigit c)
    (front : digits <+: text.flatMap Display.escapeKey) :
    (text.flatMap Display.escapeKey).drop digits.length =
      (text.drop digits.length).flatMap Display.escapeKey := by
  induction digits generalizing text with
  | nil => rfl
  | cons digit digits ih =>
      obtain ⟨first, others⟩ := List.forall_mem_cons.mp decimal
      cases text with
      | nil => rfl
      | cons c text =>
          by_cases quote : c = '"'
          · subst c
            obtain ⟨rfl, -⟩ := List.cons_prefix_cons.mp front
            exact absurd first (by decide)
          · rw [List.flatMap_cons, escapeKey_other quote] at front ⊢
            exact ih others (List.cons_prefix_cons.mp front).2

/-- Any other pair is read as one character, perhaps with digits behind it. -/
theorem unescape_pair {next : Char} (goes : ¬ Stays next) {rest value : List Char}
    (read : unescape ('\\' :: (Display.escapeKey next ++ rest.flatMap Display.escapeKey)) =
      .ok value) :
    ∃ count inner, unescape ((rest.drop count).flatMap Display.escapeKey) = .ok inner ∧
      value.length = inner.length + 1 := by
  have quote : next ≠ '"' := fun same => goes (.inl same)
  rw [escapeKey_other quote, List.singleton_append] at read
  by_cases digit : Text.isDecimalDigit next
  · have number : escapeDigits (next :: rest.flatMap Display.escapeKey) = next ::
        ((rest.flatMap Display.escapeKey).take 2).takeWhile Text.isDecimalDigit := by
      rw [escapeDigits, List.take_succ_cons, List.takeWhile_cons_of_pos digit]
    have front : ((rest.flatMap Display.escapeKey).take 2).takeWhile Text.isDecimalDigit <+:
        rest.flatMap Display.escapeKey :=
      (List.takeWhile_prefix _).trans (List.take_prefix 2 _)
    rw [unescape_number number,
      drop_digits (fun c member => List.mem_takeWhile_imp member) front] at read
    obtain ⟨inner, inside, rfl⟩ := map_read read
    exact ⟨_, inner, inside, rfl⟩
  · have ornament : ¬ Text.isOrnamentalDigit next := by
      intro ornament
      rw [unescape_ornament digit ornament] at read
      cases read
    have known : IsKnown next := by
      by_contra unknown
      exact goes (.inr ⟨unknown, digit, ornament⟩)
    rw [unescape_mark digit ornament] at read
    obtain ⟨inner, inside, rfl⟩ := map_read read
    refine ⟨0, inner, inside, ?_⟩
    rw [List.length_append, escaped_length known, Nat.add_comm]

theorem chain_length {text value : List Char}
    (loses : text.IsChain Adjoins ∨ value.length < text.length)
    (read : unescape (text.flatMap Display.escapeKey) = .ok value) :
    value.length ≤ text.length := by
  rcases loses with chain | shorter
  · rw [unescape_chain chain] at read
    exact (congrArg List.length (Except.ok.inj read)).ge
  · exact shorter.le

/-- What is read back from a key that does not keep all of its characters is shorter. -/
theorem unescape_loses (text : List Char) {value : List Char}
    (read : unescape (text.flatMap Display.escapeKey) = .ok value) :
    text.IsChain Adjoins ∨ value.length < text.length := by
  match text with
  | [] => exact .inl .nil
  | [c] => exact .inl (.singleton c)
  | c :: next :: rest =>
      by_cases backslash : c = '\\'
      · subst c
        rw [List.flatMap_cons, List.flatMap_cons, escapeKey_other (by decide),
          List.singleton_append] at read
        by_cases stays : Stays next
        · rw [unescape_stays stays] at read
          obtain ⟨inner, inside, rfl⟩ := map_read read
          rcases unescape_loses rest inside with chain | shorter
          · refine .inl (.cons_cons (fun _ => stays) (List.isChain_cons.mpr ⟨?_, chain⟩))
            exact fun _ _ same => absurd same (stays_plain stays)
          · exact .inr (by simpa using shorter)
        · obtain ⟨count, inner, inside, length⟩ := unescape_pair stays read
          have within := chain_length (unescape_loses (rest.drop count) inside) inside
          rw [List.length_drop] at within
          exact .inr (by simp only [List.length_cons]; omega)
      · rw [List.flatMap_cons, unescape_key backslash] at read
        obtain ⟨inner, inside, rfl⟩ := map_read read
        rcases unescape_loses (next :: rest) inside with chain | shorter
        · exact .inl (.cons_cons (fun same => absurd same backslash) chain)
        · exact .inr (Nat.succ_lt_succ shorter)
termination_by text.length

/-! The text of a key. -/

/-- A text that is no identifier is shown as a key by a literal in brackets. The decoder gives the
key back if and only if each backslash in it is the last character or stands in front of one that
stays behind it. -/
theorem keyText_literal {name : String} (other : ¬ Text.isIdentifier name.toList) :
    ∃ body : List Char,
      Display.keyText (.name name) = ['[', '"'] ++ body ++ ['"', ']'] ∧
        (Literal.string (String.ofList ('"' :: body ++ ['"'])) = .ok name ↔
          name.toList.IsChain fun c next => c = '\\' → Literal.Stays next) := by
  refine ⟨name.toList.flatMap Display.escapeKey, ?_, ?_⟩
  · rw [Display.keyText, if_neg other]
    rfl
  have inside : (('"' :: name.toList.flatMap Display.escapeKey ++ ['"']).drop 1).dropLast =
      name.toList.flatMap Display.escapeKey := by
    simp
  rw [Literal.string, String.toList_ofList, inside]
  constructor
  · intro read
    obtain ⟨value, read, rfl⟩ := map_read read
    rcases unescape_loses _ read with chain | shorter
    · exact chain
    · rw [String.toList_ofList] at shorter
      exact absurd shorter (lt_irrefl _)
  · intro chain
    rw [unescape_chain chain]
    exact congrArg Except.ok String.ofList_toList

/-- A quote, a line feed, and backslashes in front of a letter without an escape, in front of a
quote and at the end. -/
theorem keyText_literal_kept :
    let name := "\"\n\\w\\\"\\"
    ¬ Text.isIdentifier name.toList ∧
      ∃ body : List Char,
        Display.keyText (.name name) = ['[', '"'] ++ body ++ ['"', ']'] ∧
          Literal.string (String.ofList ('"' :: body ++ ['"'])) = .ok name := by
  have other : ¬ Text.isIdentifier "\"\n\\w\\\"\\".toList := by decide +kernel
  obtain ⟨body, shown, decodes⟩ := keyText_literal other
  exact ⟨other, body, shown, decodes.mpr (by decide)⟩

/-- A backslash and a letter are shown as an escape, which is read back as a line feed. -/
theorem keyText_literal_escape :
    ¬ ∀ name : String, ¬ Text.isIdentifier name.toList →
      ∃ body : List Char,
        Display.keyText (.name name) = ['[', '"'] ++ body ++ ['"', ']'] ∧
          Literal.string (String.ofList ('"' :: body ++ ['"'])) = .ok name := by
  intro always
  obtain ⟨body, shown, decodes⟩ := always "\\n" (by decide +kernel)
  have known : Display.keyText (.name "\\n") = ['[', '"'] ++ ['\\', 'n'] ++ ['"', ']'] := by
    decide +kernel
  obtain rfl := List.append_cancel_left (List.append_cancel_right (known.symm.trans shown))
  have lineFeed : Literal.string (String.ofList ['"', '\\', 'n', '"']) = .ok "\n" := by cbv
  exact absurd (Except.ok.inj (lineFeed.symm.trans decodes)) (by decide)

end LuaCore
