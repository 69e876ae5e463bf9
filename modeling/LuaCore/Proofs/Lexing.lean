import LuaCore.Proofs.Terminal

/-!
The lexer cuts a text as its terminals do: the length that it computes for each kind of piece is
that of the first match of the pattern.
-/

namespace LuaCore.Lexer

namespace Pattern

variable {α : Type}

-- A pattern backtracks into an earlier part when a later one fails. Passing on what is to be done
-- with the rest makes that visible: a part is only matched in a way that everything behind it can
-- go on from.
/-- What comes of the first rest that a pattern leaves and that something can be done with. -/
def lead (pattern : Pattern) (go : List Char → Option α) (text : List Char) : Option α :=
  (pattern.rests text).findSome? go

theorem rest?_lead (pattern : Pattern) (text : List Char) :
    pattern.rest? text = pattern.lead some text := by
  unfold rest? lead
  cases pattern.rests text <;> rfl

theorem findSome?_flatMap {β : Type} (list : List β) (step : β → List (List Char))
    (go : List Char → Option α) :
    (list.flatMap step).findSome? go =
      list.findSome? fun element => (step element).findSome? go := by
  induction list with
  | nil => rfl
  | cons first rest ih =>
      rw [List.flatMap_cons, List.findSome?_append, ih, List.findSome?_cons]
      cases (step first).findSome? go <;> rfl

variable (go : List Char → Option α)

theorem lead_nothing (text : List Char) : nothing.lead go text = go text := by
  simp [lead, rests]

theorem lead_both (first second : Pattern) (text : List Char) :
    (both first second).lead go text = first.lead (second.lead go) text :=
  findSome?_flatMap (first.rests text) second.rests go

theorem lead_either (first second : Pattern) (text : List Char) :
    (either first second).lead go text = (first.lead go text).or (second.lead go text) :=
  List.findSome?_append

theorem lead_optional (pattern : Pattern) (text : List Char) :
    (optional pattern).lead go text = (pattern.lead go text).or (go text) := by
  rw [optional, lead_either, lead_nothing]

theorem lead_one_cons (test : Char → Bool) (c : Char) (rest : List Char) :
    (one test).lead go (c :: rest) = if test c then go rest else none := by
  cases matched : test c <;> simp [lead, rests, matched]

theorem lead_exactly (word text : List Char) :
    (exactly word).lead go text =
      if word.isPrefixOf text then go (text.drop word.length) else none := by
  induction word generalizing text with
  | nil => simp [exactly, lead_nothing]
  | cons c word ih =>
      rw [exactly, lead_both]
      cases text with
      | nil => rfl
      | cons first rest =>
          rw [lead_one_cons, ih]
          by_cases same : first = c
          · subst same
            simp
          · have other : ¬ c = first := fun equal => same equal.symm
            simp [same, other]

/-- Characters of a class are all taken, if the pattern behind them never needs one of them back. -/
theorem lead_many_one (test : Char → Bool)
    (keeps : ∀ c rest, test c → (go (c :: rest)).isSome → (go (rest.dropWhile test)).isSome)
    (text : List Char) : (many (one test)).lead go text = go (text.dropWhile test) := by
  have general : ∀ bound, text.length ≤ bound →
      (greedy (one test).rests bound text).findSome? go = go (text.dropWhile test) := by
    induction text with
    | nil =>
        intro bound _
        cases bound <;> simp [greedy, rests]
    | cons c rest ih =>
        intro bound enough
        cases bound with
        | zero => simp at enough
        | succ bound =>
            simp only [List.length_cons, Nat.add_le_add_iff_right] at enough
            rw [greedy, List.findSome?_append]
            by_cases matched : test c
            · simp only [rests, matched, if_true, List.flatMap_cons, List.flatMap_nil,
                List.append_nil, ih bound enough, List.dropWhile_cons_of_pos matched]
              -- The longest way is tried first, and if it leads nowhere no shorter one does.
              cases ahead : go (rest.dropWhile test) with
              | some found => rfl
              | none =>
                  cases here : go (c :: rest) with
                  | none => simp [here]
                  | some found =>
                      have kept := keeps c rest matched (by simp [here])
                      simp [ahead] at kept
            · simp [rests, matched, List.dropWhile_cons_of_neg matched]
  exact general text.length (Nat.le_refl _)

theorem lead_many_last (test : Char → Bool) (text : List Char) :
    (many (one test)).lead some text = some (text.dropWhile test) :=
  lead_many_one some test (fun _ _ _ _ => rfl) text

end Pattern

open Pattern

theorem drop_run (test : Char → Bool) (text : List Char) :
    text.drop (run test text) = text.dropWhile test := by
  induction text with
  | nil => rfl
  | cons c rest ih =>
      by_cases matched : test c
      · simpa [run, List.takeWhile_cons_of_pos matched, List.dropWhile_cons_of_pos matched] using ih
      · simp [run, List.takeWhile_cons_of_neg matched, List.dropWhile_cons_of_neg matched]

theorem run_eq_zero (test : Char → Bool) {text : List Char} (none : run test text = 0) :
    text.dropWhile test = text := by
  have whole := drop_run test text
  rw [none] at whole
  exact whole.symm

theorem lead_oneOrMore {α : Type} (go : List Char → Option α) (test : Char → Bool)
    (keeps : ∀ c rest, test c → (go (c :: rest)).isSome → (go (rest.dropWhile test)).isSome)
    (text : List Char) :
    (oneOrMore (one test)).lead go text =
      if run test text = 0 then none else go (text.dropWhile test) := by
  rw [oneOrMore, lead_both]
  cases text with
  | nil => rfl
  | cons c rest =>
      rw [lead_one_cons]
      by_cases matched : test c
      · simp only [matched, if_true, lead_many_one go test keeps, run,
          List.takeWhile_cons_of_pos matched, List.dropWhile_cons_of_pos matched]
        rfl
      · simp [matched, run, List.takeWhile_cons_of_neg matched]

/-- A length in front of a text that a pattern matches. -/
def Measures (pattern : Pattern) (measure : List Char → Option Nat) : Prop :=
  ∀ text, pattern.rest? text = (measure text).map fun length => text.drop length

/-! Comments, names and blanks. -/

theorem lead_closing (text : List Char) :
    (few (one fun _ => true)).lead ((exactly [']', ']']).lead some) text =
      (closing? text).map fun length => text.drop length := by
  have general : ∀ bound, text.length ≤ bound →
      (lazy (one fun _ => true).rests bound text).findSome? ((exactly [']', ']']).lead some) =
        (closing? text).map fun length => text.drop length := by
    induction text with
    | nil =>
        intro bound _
        cases bound <;> rfl
    | cons c rest ih =>
        intro bound enough
        cases bound with
        | zero => simp at enough
        | succ bound =>
            simp only [List.length_cons, Nat.add_le_add_iff_right] at enough
            simp only [lazy, rests, if_true, List.flatMap_cons, List.flatMap_nil,
              List.append_nil, List.findSome?_cons, lead_exactly, ih bound enough]
            by_cases closed : [']', ']'].isPrefixOf (c :: rest)
            · obtain ⟨more, same⟩ := List.isPrefixOf_iff_prefix.mp closed
              rw [← same]
              rfl
            · have open' : closing? (c :: rest) = (closing? rest).map (· + 1) := by
                rw [closing?]
                intro more first second
                subst first second
                exact closed rfl
              rw [if_neg closed, open']
              cases closing? rest <;> rfl
  exact general text.length (Nat.le_refl _)

theorem measures_longComment : Measures Terminal.longComment.pattern longComment? := by
  intro text
  rw [rest?_lead, Terminal.pattern, lead_both, lead_exactly, lead_both, lead_closing]
  by_cases opened : ['-', '-', '[', '['].isPrefixOf text
  · obtain ⟨rest, rfl⟩ := List.isPrefixOf_iff_prefix.mp opened
    rw [if_pos opened]
    change (closing? rest).map (fun length => rest.drop length) =
      ((closing? rest).map (· + 4)).map _
    cases closing? rest <;> rfl
  · rw [if_neg opened, longComment?]
    · rfl
    · intro rest same
      subst same
      exact opened rfl

theorem measures_comment : Measures Terminal.comment.pattern comment? := by
  intro text
  rw [rest?_lead, Terminal.pattern, lead_both, lead_exactly, noneOf, lead_many_last]
  by_cases opened : ['-', '-'].isPrefixOf text
  · obtain ⟨rest, rfl⟩ := List.isPrefixOf_iff_prefix.mp opened
    have inLine : (fun c => !(['\r', '\n'].contains c)) = fun c => c != '\r' && c != '\n' := by
      funext c
      simp only [List.contains_cons, List.contains_nil, Bool.or_false, Bool.not_or, bne]
    rw [if_pos opened, inLine]
    exact congrArg some (drop_run _ rest).symm
  · rw [if_neg opened, comment?]
    · rfl
    · intro rest same
      subst same
      exact opened rfl

theorem measures_word : Measures Terminal.name.pattern word? := by
  intro text
  rw [rest?_lead, Terminal.pattern, lead_both]
  cases text with
  | nil => rfl
  | cons first rest =>
      rw [lead_one_cons, lead_many_last, word?]
      by_cases letter : isLetter first
      · rw [if_pos letter, if_pos letter]
        exact congrArg some (drop_run isNamePart rest).symm
      · rw [if_neg letter, if_neg letter]
        rfl

theorem measures_blank : Measures Terminal.blank.pattern blank? := by
  intro text
  have blanks : [' ', '\t', '\x0c', '\r', '\n'].contains = isBlank := by
    funext c
    simp only [List.contains_cons, List.contains_nil, Bool.or_false, Bool.or_assoc, isBlank]
  rw [rest?_lead, Terminal.pattern, oneOf, blanks, oneOrMore, lead_both]
  cases text with
  | nil => rfl
  | cons first rest =>
      rw [lead_one_cons, lead_many_last, blank?]
      by_cases blank : isBlank first
      · rw [if_pos blank, if_pos blank]
        exact congrArg some (drop_run isBlank rest).symm
      · rw [if_neg blank, if_neg blank]
        rfl

/-! Numerals. -/

theorem run_cons (test : Char → Bool) {c : Char} (matched : test c) (rest : List Char) :
    run test (c :: rest) = run test rest + 1 := by
  simp [run, List.takeWhile_cons_of_pos matched]

theorem run_cons_zero (test : Char → Bool) {c : Char} (differs : ¬ test c) (rest : List Char) :
    run test (c :: rest) = 0 := by
  simp [run, List.takeWhile_cons_of_neg differs]

theorem lead_oneOrMore_last (test : Char → Bool) (text : List Char) :
    (oneOrMore (one test)).lead some text =
      if run test text = 0 then none else some (text.drop (run test text)) := by
  rw [lead_oneOrMore some test (fun _ _ _ _ => rfl), drop_run]

theorem measures_hexadecimal : Measures Terminal.hexadecimalPattern hexadecimal? := by
  intro text
  rw [rest?_lead, Terminal.hexadecimalPattern, lead_both, lead_exactly]
  by_cases zero : ['0'].isPrefixOf text
  · obtain ⟨rest, rfl⟩ := List.isPrefixOf_iff_prefix.mp zero
    rw [if_pos zero, lead_both]
    change (oneOf ['x', 'X']).lead _ rest = (hexadecimal? ('0' :: rest)).map _
    cases rest with
    | nil => rfl
    | cons mark rest =>
        rw [oneOf, lead_one_cons, lead_oneOrMore_last]
        cases rest with
        | nil => simp [run, hexadecimal?]
        | cons first rest =>
            rw [hexadecimal?]
            by_cases digit : Text.isHexDigit first
            · rw [run_cons _ digit]
              by_cases marked : mark = 'x' ∨ mark = 'X' <;> simp [marked, digit]
            · rw [run_cons_zero _ digit]
              simp [digit]
  · rw [if_neg zero, hexadecimal?]
    · rfl
    · intro mark first rest same
      subst same
      exact zero rfl

theorem sign_no_digit {c : Char} (sign : ['+', '-'].contains c) : ¬ Text.isDecimalDigit c := by
  simp only [List.contains_cons, List.contains_nil, Bool.or_false, Bool.or_eq_true,
    beq_iff_eq] at sign
  rcases sign with rfl | rfl <;> decide

theorem exponentDigits_lead (text : List Char) :
    (optional (oneOf ['+', '-'])).lead ((oneOrMore (one Text.isDecimalDigit)).lead some) text =
      if exponentDigits text = 0 then none else some (text.drop (exponentDigits text)) := by
  rw [lead_optional]
  cases text with
  | nil => rfl
  | cons sign rest =>
      rw [oneOf, lead_one_cons, lead_oneOrMore_last, lead_oneOrMore_last, exponentDigits]
      by_cases signed : ['+', '-'].contains sign
      · have isSign : (sign == '+' || sign == '-') = true := by
          simpa only [List.contains_cons, List.contains_nil, Bool.or_false] using signed
        rw [if_pos signed, if_pos isSign, run_cons_zero _ (sign_no_digit signed)]
        cases run Text.isDecimalDigit rest <;> simp
      · have noSign : (sign == '+' || sign == '-') = false := by
          simpa only [List.contains_cons, List.contains_nil, Bool.or_false,
            Bool.not_eq_true] using signed
        rw [if_neg signed, noSign]
        rfl

theorem exponent_lead (text : List Char) :
    (optional Terminal.exponentPattern).lead some text = some (text.drop (exponent text)) := by
  rw [lead_optional, Terminal.exponentPattern, lead_both]
  cases text with
  | nil => rfl
  | cons mark rest =>
      rw [oneOf, lead_one_cons, lead_both, exponentDigits_lead, exponent]
      by_cases marked : ['e', 'E'].contains mark
      · have isMark : (mark == 'e' || mark == 'E') = true := by
          simpa only [List.contains_cons, List.contains_nil, Bool.or_false] using marked
        rw [if_pos marked, if_pos isMark]
        cases exponentDigits rest <;> simp
      · have noMark : (mark == 'e' || mark == 'E') = false := by
          simpa only [List.contains_cons, List.contains_nil, Bool.or_false,
            Bool.not_eq_true] using marked
        rw [if_neg marked, noMark]
        rfl

theorem point_no_digit : Text.isDecimalDigit '.' = false := by
  decide

/-- What comes of a point and the digits behind it. -/
theorem point_lead (text : List Char) :
    (both (exactly ['.']) (many (one Text.isDecimalDigit))).lead
        ((optional Terminal.exponentPattern).lead some) text =
      if ['.'].isPrefixOf text then
        (optional Terminal.exponentPattern).lead some
          ((text.drop 1).dropWhile Text.isDecimalDigit)
      else none := by
  have always (rest : List Char) :
      ((optional Terminal.exponentPattern).lead some rest).isSome := by rw [exponent_lead]; rfl
  rw [lead_both, lead_exactly, lead_many_one _ _ fun _ rest _ _ => always _]
  rfl

theorem no_point {c : Char} (other : c ≠ '.') (rest : List Char) :
    ¬ ['.'].isPrefixOf (c :: rest) := by
  have apart : '.' ≠ c := fun same => other same.symm
  simp [List.isPrefixOf, apart]

theorem mantissa_without {text : List Char} (digits : run Text.isDecimalDigit text = 0) :
    mantissa? text =
      if ['.'].isPrefixOf text then
        if run Text.isDecimalDigit (text.drop 1) = 0 then none
        else some (run Text.isDecimalDigit (text.drop 1) + 1)
      else none := by
  rw [mantissa?, digits, run_eq_zero _ digits]
  cases text with
  | nil => rfl
  | cons c rest =>
      by_cases point : c = '.'
      · subst point
        cases behind : run Text.isDecimalDigit rest <;> simp [behind]
      · rw [if_neg (no_point point rest)]
        simp [point]

theorem mantissa_with {text : List Char} (digits : run Text.isDecimalDigit text ≠ 0) :
    mantissa? text =
      if ['.'].isPrefixOf (text.dropWhile Text.isDecimalDigit) then
        some (run Text.isDecimalDigit text +
          (run Text.isDecimalDigit ((text.dropWhile Text.isDecimalDigit).drop 1) + 1))
      else some (run Text.isDecimalDigit text) := by
  rw [mantissa?]
  cases whole : run Text.isDecimalDigit text with
  | zero => exact absurd whole digits
  | succ count =>
      cases text.dropWhile Text.isDecimalDigit with
      | nil => rfl
      | cons c rest =>
          by_cases point : c = '.'
          · subst point
            change some (count + 2 + run Text.isDecimalDigit rest) =
              some (count + 1 + (run Text.isDecimalDigit rest + 1))
            congr 1
            omega
          · rw [if_neg (no_point point rest)]
            simp [point]

/-- The digits in front of a point, the digits behind it, or both. -/
theorem mantissa_lead (text : List Char) :
    Terminal.decimalPattern.lead some text =
      (mantissa? text).bind fun length =>
        (optional Terminal.exponentPattern).lead some (text.drop length) := by
  have always (rest : List Char) :
      ((optional Terminal.exponentPattern).lead some rest).isSome := by rw [exponent_lead]; rfl
  -- Digits are not given back: only a point or an exponent can follow them, and no digit starts
  -- either.
  have digit_first (c : Char) (rest : List Char) (digit : Text.isDecimalDigit c) :
      ¬ ['.'].isPrefixOf (c :: rest) := by
    refine no_point ?_ rest
    rintro rfl
    simp [point_no_digit] at digit
  rw [Terminal.decimalPattern, lead_both, lead_either, lead_either, lead_both, lead_both,
    lead_exactly, lead_oneOrMore _ _ fun c rest digit found => ?_,
    lead_oneOrMore _ _ fun _ rest _ _ => always _, lead_oneOrMore _ _ fun _ rest _ _ => always _,
    point_lead]
  · by_cases digits : run Text.isDecimalDigit text = 0
    · rw [mantissa_without digits, if_pos digits, if_pos digits]
      by_cases point : ['.'].isPrefixOf text
      · rw [if_pos point, if_pos point]
        change none.or ((if run Text.isDecimalDigit (text.drop 1) = 0 then none
          else _).or none) = _
        by_cases more : run Text.isDecimalDigit (text.drop 1) = 0
        · rw [if_pos more, if_pos more]
          rfl
        · rw [if_neg more, if_neg more, ← drop_run, List.drop_drop]
          simp [Nat.add_comm]
      · rw [if_neg point, if_neg point]
        rfl
    · have front : ¬ ['.'].isPrefixOf text := by
        cases text with
        | nil => exact absurd rfl digits
        | cons c rest =>
            by_cases digit : Text.isDecimalDigit c
            · exact digit_first c rest digit
            · exact absurd (run_cons_zero _ digit rest) digits
      rw [mantissa_with digits, if_neg digits, if_neg digits, if_neg front]
      by_cases point : ['.'].isPrefixOf (text.dropWhile Text.isDecimalDigit)
      · rw [if_pos point, if_pos point, ← drop_run _ (List.drop 1 _), ← drop_run _ text,
          List.drop_drop, List.drop_drop]
        simp only [exponent_lead, Option.bind_some, Option.some_or]
        simp [Nat.add_assoc, Nat.add_comm]
      · rw [if_neg point, if_neg point, ← drop_run]
        rfl
  · rw [point_lead, if_neg (digit_first c rest digit)] at found
    cases found

theorem measures_decimal : Measures Terminal.decimalPattern decimal? := by
  intro text
  rw [rest?_lead, mantissa_lead, decimal?]
  cases mantissa? text with
  | none => rfl
  | some length =>
      simp only [Option.bind_some, Option.map_some, exponent_lead, List.drop_drop]

theorem measures_number : Measures Terminal.number.pattern number? := by
  intro text
  rw [rest?_lead, Terminal.pattern, lead_either, ← rest?_lead, ← rest?_lead,
    measures_hexadecimal text, measures_decimal text, number?, Option.map_or]

/-! String literals. -/

/-- A character of a string literal, or two behind a backslash. -/
def quotedPart (mark : Char) : Pattern :=
  either (noneOf [mark, '\\', '\r', '\n']) (both (exactly ['\\']) (noneOf ['\n']))

theorem quotedPart_rests (mark c : Char) (rest : List Char) :
    (quotedPart mark).rests (c :: rest) =
      if c = '\\' then
        match rest with
        | [] => []
        | second :: more => if second = '\n' then [] else [more]
      else if c = mark ∨ c = '\r' ∨ c = '\n' then [] else [rest] := by
  by_cases slash : c = '\\'
  · subst slash
    cases rest with
    | nil => simp [quotedPart, noneOf, exactly, rests]
    | cons second more =>
        by_cases line : second = '\n' <;> simp [quotedPart, noneOf, exactly, rests, line]
  · by_cases ends : c = mark ∨ c = '\r' ∨ c = '\n'
    · rw [if_neg slash, if_pos ends]
      rcases ends with rfl | rfl | rfl <;> simp [quotedPart, noneOf, exactly, rests, slash]
    · rw [if_neg slash, if_neg ends]
      simp only [not_or] at ends
      simp [quotedPart, noneOf, exactly, rests, slash, ends.1, ends.2.1, ends.2.2]

theorem stringRest_cons {mark c : Char} (plain : c ≠ '\\') (rest : List Char) :
    stringRest? mark (c :: rest) =
      if c = mark then some 1
      else if c = '\\' ∨ c = '\r' ∨ c = '\n' then none
      else (stringRest? mark rest).map (· + 1) := by
  rw [stringRest?]
  rintro second more rfl
  exact absurd rfl plain

theorem quoted_lead (mark : Char) (plain : mark ≠ '\\') (text : List Char) :
    (many (quotedPart mark)).lead ((exactly [mark]).lead some) text =
      (stringRest? mark text).map fun length => text.drop length := by
  -- On a bound of the length, since an escape takes two characters at once.
  have general : ∀ bound text, text.length ≤ bound →
      (greedy (quotedPart mark).rests bound text).findSome? ((exactly [mark]).lead some) =
        (stringRest? mark text).map fun length => text.drop length := by
    intro bound
    induction bound with
    | zero =>
        intro text enough
        cases text with
        | nil => simp [greedy, lead_exactly, stringRest?]
        | cons => simp at enough
    | succ bound ih =>
        intro text enough
        cases text with
        | nil => simp [greedy, quotedPart, noneOf, exactly, rests, stringRest?, lead]
        | cons c rest =>
            simp only [List.length_cons, Nat.add_le_add_iff_right] at enough
            rw [greedy, List.findSome?_append, quotedPart_rests]
            by_cases slash : c = '\\'
            · subst slash
              have open' : ¬ [mark].isPrefixOf ('\\' :: rest) := by simp [List.isPrefixOf, plain]
              rw [if_pos rfl, List.findSome?_singleton, lead_exactly, if_neg open', Option.or_none]
              cases rest with
              | nil => simp [stringRest?, plain.symm]
              | cons second more =>
                  rw [stringRest?]
                  by_cases line : second = '\n'
                  · simp [line]
                  · simp only [List.length_cons] at enough
                    simp only [if_neg line, List.flatMap_cons, List.flatMap_nil, List.append_nil,
                      ih more (by omega)]
                    cases stringRest? mark more <;> rfl
            · rw [if_neg slash, stringRest_cons slash, List.findSome?_singleton, lead_exactly]
              by_cases closes : c = mark
              · simp [closes, List.isPrefixOf]
              · have apart : mark ≠ c := fun same => closes same.symm
                have open' : ¬ [mark].isPrefixOf (c :: rest) := by simp [List.isPrefixOf, apart]
                rw [if_neg open', Option.or_none, if_neg closes]
                by_cases line : c = '\r' ∨ c = '\n'
                · simp [slash, closes, line]
                · rw [if_neg (by simp [closes, line]), if_neg (by simp [slash, line]),
                    List.flatMap_cons, List.flatMap_nil, List.append_nil, ih rest enough]
                  cases stringRest? mark rest <;> rfl
  exact general text.length text (Nat.le_refl _)

theorem quotedPattern_lead (mark : Char) (plain : mark ≠ '\\') (text : List Char) :
    (Terminal.quotedPattern mark).lead some text =
      if [mark].isPrefixOf text then
        (stringRest? mark (text.drop 1)).map fun length => (text.drop 1).drop length
      else none := by
  rw [Terminal.quotedPattern, lead_both, lead_exactly, lead_both]
  rw [← quoted_lead mark plain]
  rfl

theorem measures_string : Measures Terminal.string.pattern string? := by
  intro text
  rw [rest?_lead, Terminal.pattern, lead_either, quotedPattern_lead '"' (by decide),
    quotedPattern_lead '\'' (by decide)]
  cases text with
  | nil => rfl
  | cons c rest =>
      have quoted (mark : Char) : [mark].isPrefixOf (c :: rest) = (c == mark) := by
        change (mark == c && true) = _
        rw [Bool.and_true, BEq.comm]
      rw [string?, quoted, quoted, List.drop_one, List.tail_cons]
      by_cases double : c = '"'
      · subst double
        cases stringRest? '"' rest <;> rfl
      · by_cases single : c = '\''
        · subst single
          cases stringRest? '\'' rest <;> rfl
        · simp [double, single]

theorem measures_symbol (mark : Symbol) :
    Measures (Terminal.symbol mark).pattern fun text =>
      if mark.text.toList.isPrefixOf text then some mark.text.length else none := by
  intro text
  rw [rest?_lead, Terminal.pattern, lead_exactly]
  by_cases starts : mark.text.toList.isPrefixOf text
  · simp only [starts, if_true, Option.map_some, String.length_toList]
  · simp [starts]

/-! The first terminal that matches. -/

/-- The length of the match of a terminal. -/
def Terminal.length? : Terminal → List Char → Option Nat
  | longComment, text => longComment? text
  | comment, text => comment? text
  | number, text => number? text
  | string, text => string? text
  | name, text => word? text
  | blank, text => blank? text
  | symbol mark, text => if mark.text.toList.isPrefixOf text then some mark.text.length else none

theorem measures (terminal : Terminal) : Measures terminal.pattern terminal.length? := by
  cases terminal with
  | longComment => exact measures_longComment
  | comment => exact measures_comment
  | number => exact measures_number
  | string => exact measures_string
  | name => exact measures_word
  | blank => exact measures_blank
  | symbol mark => exact measures_symbol mark

theorem decimal_pos {text : List Char} {length : Nat} (found : decimal? text = some length) :
    0 < length := by
  obtain ⟨mantissa, whole, rfl⟩ := Option.map_eq_some_iff.mp found
  by_cases digits : run Text.isDecimalDigit text = 0
  · rw [mantissa_without digits] at whole
    split at whole
    · split at whole
      · cases whole
      · cases whole
        omega
    · cases whole
  · rw [mantissa_with digits] at whole
    split at whole
    · cases whole
      omega
    · cases whole
      omega

theorem hexadecimal_pos {text : List Char} {length : Nat}
    (found : hexadecimal? text = some length) : 0 < length := by
  unfold hexadecimal? at found
  split at found
  · split at found
    · cases found
      omega
    · cases found
  · cases found

theorem length_pos (terminal : Terminal) {text : List Char} {length : Nat}
    (found : terminal.length? text = some length) : 0 < length := by
  cases terminal with
  | longComment =>
      simp only [Terminal.length?] at found
      unfold longComment? at found
      split at found
      · obtain ⟨_, _, rfl⟩ := Option.map_eq_some_iff.mp found
        omega
      · cases found
  | comment =>
      simp only [Terminal.length?] at found
      unfold comment? at found
      split at found
      · cases found
        omega
      · cases found
  | number =>
      rcases Option.or_eq_some_iff.mp found with hexadecimal | ⟨_, decimal⟩
      · exact hexadecimal_pos hexadecimal
      · exact decimal_pos decimal
  | string =>
      cases text with
      | nil => cases found
      | cons mark rest =>
          simp only [Terminal.length?, string?] at found
          split at found
          · obtain ⟨_, _, rfl⟩ := Option.map_eq_some_iff.mp found
            omega
          · cases found
  | name | blank =>
      cases text with
      | nil => cases found
      | cons first rest =>
          simp only [Terminal.length?, word?, blank?] at found
          split at found
          · cases found
            omega
          · cases found
  | symbol mark =>
      simp only [Terminal.length?] at found
      split at found
      · cases found
        cases mark with
        | operator operation => cases operation <;> decide
        | _ => decide
      · cases found

-- The lexer measures before it cuts, and tries its rules in the order of the terminals.
/-- The first terminal that matches, and the length of its match. -/
def measured? (text : List Char) : Option (Terminal × Nat) :=
  Terminal.all.findSome? fun terminal => (terminal.length? text).map (terminal, ·)

theorem first_measured (text : List Char) :
    Terminal.first? text =
      (measured? text).map fun found => (found.1, text.drop found.2) := by
  rw [measured?, List.map_findSome?]
  unfold Terminal.first?
  congr 1
  funext terminal
  rw [measures terminal text, Function.comp, Option.map_map, Option.map_map]
  rfl

/-- The kind of piece that a terminal makes of its match. -/
def Terminal.pieceKind (terminal : Terminal) (text : List Char) : Piece.Kind :=
  match terminal with
  | longComment => .longComment
  | comment => .comment
  | blank => .blank
  | number => .token .number
  | string => .token .string
  | name => .token (wordKind text)
  | symbol mark => .token (.symbol mark)

theorem symbol_measured (text : List Char) :
    (symbol? text).map (fun mark => (Piece.Kind.token (.symbol mark), mark.text.length)) =
      ((Symbol.all.map Terminal.symbol).findSome? fun terminal =>
        (terminal.length? text).map (terminal, ·)).map
          fun found => (found.1.pieceKind (text.take found.2), found.2) := by
  rw [List.findSome?_map, symbol?]
  induction Symbol.all with
  | nil => rfl
  | cons mark rest ih =>
      rw [List.find?_cons, List.findSome?_cons]
      by_cases starts : mark.text.toList.isPrefixOf text
      · have measured : (Terminal.symbol mark).length? text = some mark.text.length :=
          if_pos starts
        simp only [starts, Function.comp, measured]
        rfl
      · have measured : (Terminal.symbol mark).length? text = none := if_neg starts
        simp only [starts, Function.comp, measured]
        exact ih

theorem kind_measured (text : List Char) :
    kind? text =
      (measured? text).map fun found => (found.1.pieceKind (text.take found.2), found.2) := by
  rw [measured?, Terminal.all, List.findSome?_append, Option.map_or, ← symbol_measured, kind?]
  simp only [List.findSome?_cons, List.findSome?_nil, Terminal.length?]
  cases longComment? text <;> cases comment? text <;> cases number? text <;>
    cases string? text <;> cases word? text <;> cases blank? text <;> rfl

end LuaCore.Lexer
