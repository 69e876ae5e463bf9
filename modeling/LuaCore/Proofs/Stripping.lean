import Mathlib.Data.List.TakeWhile
import LuaCore.Text.Colour

/-!
Stripping codes from a text. No two codes of a form overlap, so stripping removes each code that
stands in the text, wherever that is, and keeps everything else in order. What it keeps can stand
next to something else than before, and there a new code can come to be.
-/

namespace LuaCore.Text

namespace CodeForm

variable (form : CodeForm)

/-- An escape character, a bracket, parameters, and a character that ends the code. -/
def IsCode (text : List Char) : Prop :=
  ∃ parameters last, text = '\x1b' :: '[' :: parameters ++ [last] ∧
    (∀ c ∈ parameters, form.isParameter c) ∧ form.isEnd last

/-- A code stands somewhere in the text. -/
def HasCode (text : List Char) : Prop :=
  ∃ front code back, text = front ++ code ++ back ∧ form.IsCode code

/-- Codes end with their first character that is no parameter, and none starts inside of another
one. -/
structure Proper : Prop where
  ends : ∀ c, form.isEnd c → ¬ form.isParameter c
  parameter : ¬ form.isParameter '\x1b'
  last : ¬ form.isEnd '\x1b'

theorem colour_proper : colour.Proper where
  ends c ends := by
    obtain rfl : c = 'm' := by simpa [colour] using ends
    decide
  parameter := by decide
  last := by decide

end CodeForm

variable {form : CodeForm} {text front code back tail : List Char}

/-! The code that a text begins with. -/

theorem code_first (isCode : form.IsCode code) : ∃ rest, code = '\x1b' :: rest := by
  obtain ⟨parameters, last, rfl, _⟩ := isCode
  exact ⟨_, rfl⟩

theorem afterCode_code (proper : form.Proper) (isCode : form.IsCode code) (back : List Char) :
    afterCode? form (code ++ back) = some back := by
  obtain ⟨parameters, last, rfl, are, ends⟩ := isCode
  have stops : (parameters ++ last :: back).dropWhile form.isParameter = last :: back := by
    rw [List.dropWhile_append_of_pos are, List.dropWhile_cons_of_neg (proper.ends last ends)]
  simp [afterCode?, stops, ends]

theorem afterCode_split (found : afterCode? form text = some tail) :
    ∃ code, form.IsCode code ∧ text = code ++ tail := by
  unfold afterCode? at found
  split at found
  · next rest =>
      split at found
      · next last after behind =>
          split_ifs at found with ends
          cases found
          refine ⟨'\x1b' :: '[' :: rest.takeWhile form.isParameter ++ [last],
            ⟨_, last, rfl, fun c member => List.mem_takeWhile_imp member, ends⟩, ?_⟩
          have whole := List.takeWhile_append_dropWhile (p := form.isParameter) (l := rest)
          rw [behind] at whole
          simp [whole]
      · cases found
  · cases found

theorem afterCode_other (other : ∀ rest, text ≠ '\x1b' :: '[' :: rest) :
    afterCode? form text = none := by
  unfold afterCode?
  split
  · exact absurd rfl (other _)
  · rfl

/-- Whether a text begins with a code does not depend on what follows an escape character. -/
theorem afterCode_front (proper : form.Proper) (nonempty : front ≠ []) (more : List Char) :
    afterCode? form (front ++ '\x1b' :: more) =
      (afterCode? form front).map (· ++ '\x1b' :: more) := by
  by_cases opens : ∃ rest, front = '\x1b' :: '[' :: rest
  · obtain ⟨rest, rfl⟩ := opens
    simp only [afterCode?, List.cons_append, List.dropWhile_append]
    cases rest.dropWhile form.isParameter with
    | nil => simp [List.dropWhile_cons_of_neg proper.parameter, proper.last]
    | cons last after => by_cases ends : form.isEnd last <;> simp [ends]
  · have closed : ∀ rest, front ≠ '\x1b' :: '[' :: rest := fun rest same => opens ⟨rest, same⟩
    rw [afterCode_other closed]
    apply afterCode_other
    intro rest same
    match front with
    | [c] => simp at same
    | c :: d :: inner =>
        obtain ⟨rfl, rfl, _⟩ : c = '\x1b' ∧ d = '[' ∧ _ := by simpa using same
        exact closed inner rfl

/-! Where codes stand. -/

theorem strip_code (proper : form.Proper) (isCode : form.IsCode code) (back : List Char) :
    strip form (code ++ back) = strip form back := by
  obtain ⟨rest, rfl⟩ := code_first isCode
  have found := afterCode_code proper isCode back
  rw [List.cons_append] at found ⊢
  rw [strip]
  split
  · next found' =>
      rw [found] at found'
      cases found'
      rfl
  · next none =>
      rw [found] at none
      cases none

theorem strip_keep {c : Char} (none : afterCode? form (c :: text) = none) :
    strip form (c :: text) = c :: strip form text := by
  rw [strip]
  split
  · next found =>
      rw [none] at found
      cases found
  · rfl

/-- A code is removed wherever it stands. -/
theorem strip_around (proper : form.Proper) (isCode : form.IsCode code) (front back : List Char) :
    strip form (front ++ code ++ back) = strip form front ++ strip form back := by
  fun_induction strip form front with
  | case1 => exact strip_code proper isCode back
  | case2 c rest tail found ih =>
      obtain ⟨first, isCode', split⟩ := afterCode_split found
      rw [split, List.append_assoc, List.append_assoc, strip_code proper isCode',
        ← List.append_assoc, ih]
  | case3 c rest none ih =>
      obtain ⟨inside, rfl⟩ := code_first isCode
      have stays := afterCode_front proper (List.cons_ne_nil c rest) (inside ++ back)
      rw [none] at stays
      have whole : c :: rest ++ '\x1b' :: inside ++ back =
          c :: (rest ++ '\x1b' :: inside ++ back) := rfl
      rw [whole, strip_keep, ih, List.cons_append]
      simpa using stays

theorem strip_plain (none : ¬ form.HasCode text) : strip form text = text := by
  fun_induction strip form text with
  | case1 => rfl
  | case2 c rest tail found _ =>
      obtain ⟨code, isCode, split⟩ := afterCode_split found
      exact absurd ⟨[], code, tail, split, isCode⟩ none
  | case3 c rest _ ih =>
      rw [ih]
      rintro ⟨front, code, back, split, isCode⟩
      exact none ⟨c :: front, code, back, congrArg (c :: ·) split, isCode⟩

theorem strip_le (form : CodeForm) (text : List Char) :
    (strip form text).length ≤ text.length := by
  fun_induction strip form text with
  | case1 => exact Nat.le_refl 0
  | case2 c rest tail found ih => exact Nat.le_trans ih (Nat.le_of_lt (afterCode?_length found))
  | case3 c rest _ ih => exact Nat.succ_le_succ ih

/-- Stripping leaves just those texts alone in which no code stands. -/
theorem strip_eq_iff (proper : form.Proper) : strip form text = text ↔ ¬ form.HasCode text := by
  refine ⟨?_, strip_plain⟩
  rintro same ⟨front, code, back, split, isCode⟩
  obtain ⟨inside, rfl⟩ := code_first isCode
  have lengths := congrArg List.length same
  rw [split, strip_around proper isCode] at lengths
  have shorter := strip_le form front
  have shorter' := strip_le form back
  simp only [List.length_append, List.length_cons] at lengths
  omega

/-! What is kept. -/

/-- The text is cut into parts, each with a code behind it, and a last part. These are all codes
that stand in the text. -/
structure Cut (form : CodeForm) (text : List Char) (parts : List (List Char × List Char))
    (last : List Char) : Prop where
  whole : text = (parts.flatMap fun part => part.1 ++ part.2) ++ last
  codes : ∀ part ∈ parts, form.IsCode part.2
  every : ∀ front code back, text = front ++ code ++ back → form.IsCode code →
    ∃ before part after, parts = before ++ part :: after ∧
      front = (before.flatMap fun part => part.1 ++ part.2) ++ part.1 ∧ code = part.2

theorem no_code_inside (proper : form.Proper) {more : List Char} (isCode : form.IsCode code)
    (split : code = front ++ '\x1b' :: more) : front = [] := by
  obtain ⟨parameters, last, rfl, are, ends⟩ := isCode
  cases front with
  | nil => rfl
  | cons c front =>
      have behind : '[' :: parameters ++ [last] = front ++ '\x1b' :: more :=
        (List.cons.inj split).2
      have member : '\x1b' ∈ '[' :: parameters ++ [last] := by
        rw [behind]
        simp
      simp only [List.cons_append, List.mem_cons, List.mem_append, List.not_mem_nil, or_false]
        at member
      rcases member with bracket | parameter | final
      · cases bracket
      · exact absurd (are _ parameter) proper.parameter
      · rw [← final] at ends
        exact absurd ends proper.last

/-- A code in a text that begins with a code is that one, or stands behind it. -/
theorem code_beyond (proper : form.Proper) {first : List Char} (isCode : form.IsCode code)
    (isFirst : form.IsCode first) (split : first ++ tail = front ++ code ++ back) :
    (front = [] ∧ code = first) ∨
      ∃ between, front = first ++ between ∧ tail = between ++ code ++ back := by
  rw [List.append_assoc] at split
  rcases List.append_eq_append_iff.mp split with ⟨between, rfl, rest⟩ | ⟨overlap, same, rest⟩
  · exact .inr ⟨between, rfl, by rw [rest, List.append_assoc]⟩
  · cases overlap with
    | nil => exact .inr ⟨[], by simpa using same.symm, by simpa using rest.symm⟩
    | cons c overlap =>
        obtain ⟨inside, begins⟩ := code_first isCode
        obtain rfl : '\x1b' = c := by
          rw [begins] at rest
          exact (List.cons.inj rest).1
        obtain rfl := no_code_inside proper isFirst same
        refine .inl ⟨rfl, ?_⟩
        have found := afterCode_code proper isFirst tail
        have found' := afterCode_code proper isCode back
        rw [split, List.nil_append, found'] at found
        cases found
        exact (List.append_cancel_right split).symm

theorem cut_code (proper : form.Proper) (isCode : form.IsCode code)
    {parts : List (List Char × List Char)} {last : List Char} (cut : Cut form tail parts last) :
    Cut form (code ++ tail) (([], code) :: parts) last where
  whole := by
    rw [cut.whole]
    simp
  codes := List.forall_mem_cons.mpr ⟨isCode, cut.codes⟩
  every := by
    intro front other back split isCode'
    rcases code_beyond proper isCode' isCode split with ⟨rfl, rfl⟩ | ⟨between, rfl, rest⟩
    · exact ⟨[], _, parts, rfl, rfl, rfl⟩
    · obtain ⟨before, part, after, rfl, rfl, rfl⟩ := cut.every between other back rest isCode'
      exact ⟨_ :: before, part, after, rfl, by simp, rfl⟩

theorem code_behind {c : Char} (proper : form.Proper) (none : afterCode? form (c :: text) = none)
    (split : c :: text = front ++ code ++ back) (isCode : form.IsCode code) :
    ∃ inner, front = c :: inner ∧ text = inner ++ code ++ back := by
  cases front with
  | nil =>
      rw [split, List.nil_append, afterCode_code proper isCode] at none
      cases none
  | cons first inner =>
      obtain ⟨rfl, rest⟩ := List.cons.inj split
      exact ⟨inner, rfl, rest⟩

/-- A character that is kept belongs to the first part. -/
theorem cut_keep {c : Char} (proper : form.Proper) (none : afterCode? form (c :: text) = none)
    {parts : List (List Char × List Char)} {last : List Char} (cut : Cut form text parts last) :
    ∃ parts' last', Cut form (c :: text) parts' last' ∧
      parts'.flatMap Prod.fst ++ last' = c :: (parts.flatMap Prod.fst ++ last) := by
  cases parts with
  | nil =>
      refine ⟨[], c :: last, ⟨congrArg (c :: ·) cut.whole, nofun, ?_⟩, rfl⟩
      intro front code back split isCode
      obtain ⟨inner, _, rest⟩ := code_behind proper none split isCode
      obtain ⟨before, part, after, nothing, _⟩ := cut.every inner code back rest isCode
      simp at nothing
  | cons first parts =>
      refine ⟨(c :: first.1, first.2) :: parts, last, ⟨congrArg (c :: ·) cut.whole, ?_, ?_⟩, rfl⟩
      · obtain ⟨isCode, are⟩ := List.forall_mem_cons.mp cut.codes
        exact List.forall_mem_cons.mpr ⟨isCode, are⟩
      · intro front code back split isCode
        obtain ⟨inner, rfl, rest⟩ := code_behind proper none split isCode
        obtain ⟨before, part, after, same, rfl, rfl⟩ := cut.every inner code back rest isCode
        cases before with
        | nil =>
            obtain ⟨rfl, rfl⟩ := List.cons.inj same
            exact ⟨[], _, _, rfl, rfl, rfl⟩
        | cons other before =>
            obtain ⟨rfl, rfl⟩ := List.cons.inj same
            exact ⟨_ :: before, part, after, rfl, rfl, rfl⟩

theorem cut_exists (proper : form.Proper) (text : List Char) : ∃ parts last,
    Cut form text parts last ∧ strip form text = parts.flatMap Prod.fst ++ last := by
  fun_induction strip form text with
  | case1 =>
      refine ⟨[], [], ⟨rfl, nofun, ?_⟩, rfl⟩
      intro front code back split isCode
      obtain ⟨inside, rfl⟩ := code_first isCode
      simp at split
  | case2 c rest tail found ih =>
      obtain ⟨parts, last, cut, kept⟩ := ih
      obtain ⟨code, isCode, split⟩ := afterCode_split found
      rw [split]
      exact ⟨_, last, cut_code proper isCode cut, kept⟩
  | case3 c rest none ih =>
      obtain ⟨parts, last, cut, kept⟩ := ih
      obtain ⟨parts', last', cut', kept'⟩ := cut_keep proper none cut
      exact ⟨parts', last', cut', by rw [kept', kept]⟩

/-! Codes that come to be. -/

/-- Some code in the text stands between the opening of another one and what closes it, once the
codes in front of it and behind it are removed. -/
def Joins (form : CodeForm) (text : List Char) : Prop :=
  ∃ front code back opening closing, text = front ++ code ++ back ∧ form.IsCode code ∧
    opening ≠ [] ∧ closing ≠ [] ∧ opening <:+ strip form front ∧ closing <+: strip form back ∧
      form.IsCode (opening ++ closing)

theorem joins_behind (proper : form.Proper) (isCode : form.IsCode code) (front : List Char)
    (joins : Joins form back) : Joins form (front ++ code ++ back) := by
  obtain ⟨inner, other, rest, opening, closing, rfl, isOther, some', some'', ends, starts, joined⟩ :=
    joins
  refine ⟨front ++ code ++ inner, other, rest, opening, closing, by simp, isOther, some', some'',
    ?_, starts, joined⟩
  rw [strip_around proper isCode]
  exact ends.trans (List.suffix_append _ _)

/-- In front of the first code there is none. -/
theorem first_code (proper : form.Proper) (has : form.HasCode text) :
    ∃ front code back, text = front ++ code ++ back ∧ form.IsCode code ∧ ¬ form.HasCode front := by
  obtain ⟨parts, last, cut, _⟩ := cut_exists proper text
  cases parts with
  | nil =>
      obtain ⟨front, code, back, split, isCode⟩ := has
      obtain ⟨before, part, after, nothing, _⟩ := cut.every front code back split isCode
      simp at nothing
  | cons part parts =>
      let rest := (parts.flatMap fun part => part.1 ++ part.2) ++ last
      have whole : text = part.1 ++ part.2 ++ rest := by
        rw [cut.whole, List.flatMap_cons, List.append_assoc]
      refine ⟨part.1, part.2, rest, whole, cut.codes part List.mem_cons_self, ?_⟩
      rintro ⟨front, code, back, split, isCode⟩
      have within : front.length < part.1.length := by
        obtain ⟨inside, rfl⟩ := code_first isCode
        rw [split]
        simp
      have stands : text = front ++ code ++ (back ++ part.2 ++ rest) := by
        rw [whole, split]
        simp
      -- Every code of the text stands behind one of the parts, of which this one is the first.
      obtain ⟨before, other, after, same, rfl, rfl⟩ := cut.every front code _ stands isCode
      cases before with
      | nil =>
          obtain ⟨rfl, _⟩ := List.cons.inj same
          exact absurd within (Nat.lt_irrefl _)
      | cons first before =>
          obtain ⟨rfl, _⟩ := List.cons.inj same
          simp only [List.flatMap_cons, List.length_append] at within
          omega

/-- A code in two texts one behind the other is in one of them, or in part in both. -/
theorem has_append (has : form.HasCode (front ++ back)) :
    form.HasCode front ∨ form.HasCode back ∨ ∃ opening closing, opening ≠ [] ∧ closing ≠ [] ∧
      opening <:+ front ∧ closing <+: back ∧ form.IsCode (opening ++ closing) := by
  obtain ⟨before, code, after, split, isCode⟩ := has
  rw [List.append_assoc] at split
  rcases List.append_eq_append_iff.mp split with ⟨inner, rfl, rest⟩ | ⟨opening, rfl, rest⟩
  · exact .inr (.inl ⟨inner, code, after, by rw [rest, List.append_assoc], isCode⟩)
  · rcases List.append_eq_append_iff.mp rest with ⟨inner, rfl, rfl⟩ | ⟨closing, rfl, rfl⟩
    · exact .inl ⟨before, code, inner, by rw [List.append_assoc], isCode⟩
    · by_cases some : opening = []
      · subst some
        exact .inr (.inl ⟨[], closing, after, rfl, isCode⟩)
      by_cases some' : closing = []
      · subst some'
        rw [List.append_nil] at isCode
        exact .inl ⟨before, opening, [], by simp, isCode⟩
      exact .inr (.inr ⟨opening, closing, some, some', List.suffix_append _ _,
        List.prefix_append _ _, isCode⟩)

theorem has_joins (proper : form.Proper) (text : List Char)
    (has : form.HasCode (strip form text)) : Joins form text := by
  by_cases codes : form.HasCode text
  · obtain ⟨front, code, back, split, isCode, none⟩ := first_code proper codes
    have kept : strip form text = front ++ strip form back := by
      rw [split, strip_around proper isCode, strip_plain none]
    have shorter : back.length < text.length := by
      obtain ⟨inside, rfl⟩ := code_first isCode
      rw [split]
      simp only [List.length_append, List.length_cons]
      omega
    rw [kept] at has
    rcases has_append has with before | behind | ⟨opening, closing, some, some', ends, starts, joined⟩
    · exact absurd before none
    · rw [split]
      exact joins_behind proper isCode front (has_joins proper back behind)
    · refine ⟨front, code, back, opening, closing, split, isCode, some, some', ?_, starts, joined⟩
      rwa [strip_plain none]
  · rw [strip_plain codes] at has
    exact absurd has codes
termination_by text.length

/-- The codes of a stripped text are those that its stripping has made. -/
theorem strip_has_iff (proper : form.Proper) (text : List Char) :
    form.HasCode (strip form text) ↔ Joins form text := by
  refine ⟨has_joins proper text, ?_⟩
  rintro ⟨front, code, back, opening, closing, rfl, isCode, _, _, ⟨before, ends⟩, ⟨after, starts⟩,
    joined⟩
  refine ⟨before, opening ++ closing, after, ?_, joined⟩
  rw [strip_around proper isCode, ← ends, ← starts]
  simp

/-- Plain output is the text without exactly the colour codes that stand in it, and everything else
in order. It has a colour code, and would be stripped further, just if the removal of one has joined
the parts of another one. -/
theorem plain_exact (text : List Char) :
    (∃ parts last, Cut .colour text parts last ∧
      strip .colour text = parts.flatMap Prod.fst ++ last) ∧
    (CodeForm.colour.HasCode (strip .colour text) ↔ Joins .colour text) ∧
    (strip .colour (strip .colour text) = strip .colour text ↔ ¬ Joins .colour text) := by
  have joined := strip_has_iff CodeForm.colour_proper text
  refine ⟨cut_exists CodeForm.colour_proper text, joined, ?_⟩
  rw [strip_eq_iff CodeForm.colour_proper, joined]

/-- A colour code inside of another one is removed, and leaves that one. -/
theorem plain_exact_nested :
    let text := ['\x1b', '[', '\x1b', '[', 'm', 'm']
    strip .colour text = ['\x1b', '[', 'm'] ∧ CodeForm.colour.HasCode (strip .colour text) ∧
      strip .colour (strip .colour text) = [] := by
  intro text
  have once : strip .colour text = ['\x1b', '[', 'm'] := by cbv
  have twice : strip .colour ['\x1b', '[', 'm'] = [] := by cbv
  rw [once, twice]
  exact ⟨rfl, ⟨[], ['\x1b', '[', 'm'], [], rfl, [], 'm', rfl, List.forall_mem_nil _, rfl⟩, rfl⟩

end LuaCore.Text
