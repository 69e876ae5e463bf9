import LuaCore.Proofs.Cutting

/-!
The front of a text. What a pattern leaves of the front is what it leaves of the text, as far as it
does not reach behind the front. So what a text starts with does not change when the text is cut off
further on.
-/

namespace LuaCore.Lexer

namespace Pattern

/-- The pattern takes some character. -/
def Shortens (pattern : Pattern) : Prop :=
  ∀ text, ∀ rest ∈ pattern.rests text, rest.length < text.length

/-- The pattern takes some character in each repetition. -/
def Productive : Pattern → Prop
  | nothing | one _ => True
  | both first second | either first second => first.Productive ∧ second.Productive
  | many inner | few inner => inner.Productive ∧ inner.Shortens

section

variable {step : List Char → List (List Char)}

theorem greedy_unfold {bound : Nat} {text : List Char} (stuck : bound = 0 → step text = []) :
    greedy step bound text = (step text).flatMap (greedy step (bound - 1)) ++ [text] := by
  cases bound with
  | zero =>
      rw [stuck rfl]
      rfl
  | succ bound => rfl

theorem lazy_unfold {bound : Nat} {text : List Char} (stuck : bound = 0 → step text = []) :
    lazy step bound text = text :: (step text).flatMap (lazy step (bound - 1)) := by
  cases bound with
  | zero =>
      rw [stuck rfl]
      rfl
  | succ bound => rfl

/-- A bound as long as the text is only reached at the end of the text. -/
theorem step_stuck {bound : Nat} {text : List Char}
    (shortens : ∀ text, ∀ rest ∈ step text, rest.length < text.length)
    (enough : text.length ≤ bound) (none : bound = 0) : step text = [] := by
  apply List.eq_nil_iff_forall_not_mem.mpr
  intro rest member
  have lower := shortens text rest member
  omega

theorem greedy_length (shorter : ∀ text, ∀ rest ∈ step text, rest.length ≤ text.length)
    (bound : Nat) (text : List Char) :
    ∀ rest ∈ greedy step bound text, rest.length ≤ text.length := by
  induction bound generalizing text with
  | zero => exact fun rest member => List.mem_singleton.mp member ▸ Nat.le_refl _
  | succ bound ih =>
      intro rest member
      rcases List.mem_append.mp member with member | member
      · obtain ⟨middle, first, behind⟩ := List.mem_flatMap.mp member
        exact Nat.le_trans (ih middle rest behind) (shorter text middle first)
      · exact List.mem_singleton.mp member ▸ Nat.le_refl _

theorem lazy_length (shorter : ∀ text, ∀ rest ∈ step text, rest.length ≤ text.length)
    (bound : Nat) (text : List Char) :
    ∀ rest ∈ lazy step bound text, rest.length ≤ text.length := by
  induction bound generalizing text with
  | zero => exact fun rest member => List.mem_singleton.mp member ▸ Nat.le_refl _
  | succ bound ih =>
      intro rest member
      rcases List.mem_cons.mp member with rfl | member
      · exact Nat.le_refl _
      · obtain ⟨middle, first, behind⟩ := List.mem_flatMap.mp member
        exact Nat.le_trans (ih middle rest behind) (shorter text middle first)

end

theorem rests_length (pattern : Pattern) (text : List Char) :
    ∀ rest ∈ pattern.rests text, rest.length ≤ text.length := by
  induction pattern generalizing text with
  | nothing => exact fun rest member => List.mem_singleton.mp member ▸ Nat.le_refl _
  | one test =>
      cases text with
      | nil => exact fun rest member => absurd member List.not_mem_nil
      | cons c others =>
          intro rest member
          rw [rests] at member
          split at member
          · exact List.mem_singleton.mp member ▸ Nat.le_succ _
          · exact absurd member List.not_mem_nil
  | both first second ih ih' =>
      intro rest member
      obtain ⟨middle, front, behind⟩ := List.mem_flatMap.mp member
      exact Nat.le_trans (ih' middle rest behind) (ih text middle front)
  | either first second ih ih' =>
      intro rest member
      rcases List.mem_append.mp member with member | member
      · exact ih text rest member
      · exact ih' text rest member
  | many inner ih => exact greedy_length ih _ text
  | few inner ih => exact lazy_length ih _ text

section

variable {back : List Char}

/-- Whether a rest has all of the back in it, for all that its length tells. -/
def within (back rest : List Char) : Bool :=
  decide (back.length ≤ rest.length)

theorem within_append (text : List Char) : within back (text ++ back) = true :=
  decide_eq_true (by simp)

theorem flatMap_filter {test : List Char → Bool} {next : List Char → List (List Char)}
    (none : ∀ text, ¬ test text → next text = []) (list : List (List Char)) :
    (list.filter test).flatMap next = list.flatMap next := by
  induction list with
  | nil => rfl
  | cons text list ih =>
      by_cases kept : test text
      · rw [List.filter_cons_of_pos kept, List.flatMap_cons, List.flatMap_cons, ih]
      · rw [List.filter_cons_of_neg kept, List.flatMap_cons, none text kept, ih, List.nil_append]

/-- Rests that are too short to have the back in them lead to no others that do. -/
theorem flatMap_front {list fronts : List (List Char)} {next next' : List Char → List (List Char)}
    (first : list.filter (within back) = fronts.map (· ++ back))
    (shorter : ∀ text, ∀ rest ∈ next text, rest.length ≤ text.length)
    (others : ∀ text ∈ fronts,
      (next (text ++ back)).filter (within back) = (next' text).map (· ++ back)) :
    (list.flatMap next).filter (within back) = (fronts.flatMap next').map (· ++ back) := by
  have none (text : List Char) (short : ¬ within back text) :
      (next text).filter (within back) = [] := by
    apply List.filter_eq_nil_iff.mpr
    intro rest member long
    have bound := shorter text rest member
    simp only [within, decide_eq_true_eq] at short long
    omega
  rw [List.filter_flatMap, ← flatMap_filter none, first, List.flatMap_map, List.map_flatMap]
  exact List.flatMap_congr others

section

variable {step : List Char → List (List Char)}
  (front : ∀ text, (step (text ++ back)).filter (within back) = (step text).map (· ++ back))
  (shortens : ∀ text, ∀ rest ∈ step text, rest.length < text.length)

include front shortens

theorem greedy_front {bound bound' : Nat} {text : List Char} (enough : text.length ≤ bound)
    (enough' : (text ++ back).length ≤ bound') :
    (greedy step bound' (text ++ back)).filter (within back) =
      (greedy step bound text).map (· ++ back) := by
  rw [greedy_unfold (step_stuck shortens enough), greedy_unfold (step_stuck shortens enough'),
    List.filter_append, List.map_append]
  congr 1
  · apply flatMap_front (front text)
    · exact greedy_length (fun text rest member => Nat.le_of_lt (shortens text rest member)) _
    · intro rest member
      have lower := shortens text rest member
      simp only [List.length_append] at enough'
      exact greedy_front (by omega) (by simp only [List.length_append]; omega)
  · exact List.filter_cons_of_pos (within_append text)
termination_by text.length

theorem lazy_front {bound bound' : Nat} {text : List Char} (enough : text.length ≤ bound)
    (enough' : (text ++ back).length ≤ bound') :
    (lazy step bound' (text ++ back)).filter (within back) =
      (lazy step bound text).map (· ++ back) := by
  rw [lazy_unfold (step_stuck shortens enough), lazy_unfold (step_stuck shortens enough'),
    List.filter_cons_of_pos (within_append text), List.map_cons]
  congr 1
  apply flatMap_front (front text)
  · exact lazy_length (fun text rest member => Nat.le_of_lt (shortens text rest member)) _
  · intro rest member
    have lower := shortens text rest member
    simp only [List.length_append] at enough'
    exact lazy_front (by omega) (by simp only [List.length_append]; omega)
termination_by text.length

end

/-- What a pattern leaves of the front of a text. -/
theorem rests_front {pattern : Pattern} (productive : pattern.Productive)
    (text back : List Char) :
    (pattern.rests (text ++ back)).filter (within back) = (pattern.rests text).map (· ++ back) := by
  induction pattern generalizing text with
  | nothing => exact List.filter_cons_of_pos (within_append text)
  | one test =>
      cases text with
      | nil =>
          rw [rests, List.map_nil, List.filter_eq_nil_iff]
          intro rest member
          cases back with
          | nil => exact absurd member List.not_mem_nil
          | cons c back =>
              rw [List.nil_append, rests] at member
              split at member
              · cases List.mem_singleton.mp member
                simp [within]
              · exact absurd member List.not_mem_nil
      | cons c rest =>
          by_cases taken : test c
          · simp [rests, taken, within_append]
          · simp [rests, taken]
  | both first second ih ih' =>
      exact flatMap_front (ih productive.1 text) (rests_length second)
        fun rest _ => ih' productive.2 rest
  | either first second ih ih' =>
      rw [rests, List.filter_append, ih productive.1, ih' productive.2, ← List.map_append]
      rfl
  | many inner ih =>
      exact greedy_front (ih productive.1) productive.2 (Nat.le_refl _) (Nat.le_refl _)
  | few inner ih =>
      exact lazy_front (ih productive.1) productive.2 (Nat.le_refl _) (Nat.le_refl _)

theorem rest?_front {pattern : Pattern} (productive : pattern.Productive) {text rest : List Char}
    (matched : pattern.rest? (text ++ back) = some (rest ++ back)) :
    pattern.rest? text = some rest := by
  obtain ⟨others, all⟩ := List.head?_eq_some_iff.mp matched
  have front := rests_front productive text back
  rw [all, List.filter_cons_of_pos (within_append rest)] at front
  obtain ⟨first, _, same, rests, _⟩ := List.map_eq_cons_iff.mp front.symm
  rw [rest?, same, List.append_cancel_right rests]
  rfl

theorem rest?_front_none {pattern : Pattern} (productive : pattern.Productive) {text : List Char}
    (unmatched : pattern.rest? (text ++ back) = none) : pattern.rest? text = none := by
  have front := rests_front productive text back
  rw [List.head?_eq_none_iff.mp unmatched] at front
  exact List.head?_eq_none_iff.mpr (List.map_eq_nil_iff.mp front.symm)

end

theorem one_shortens (test : Char → Bool) : (one test).Shortens := by
  intro text rest member
  cases text with
  | nil => cases member
  | cons c text =>
      rw [rests] at member
      split at member
      · cases List.mem_singleton.mp member
        exact Nat.lt_succ_self _
      · cases member

theorem exactly_productive (word : List Char) : (exactly word).Productive := by
  induction word with
  | nil => trivial
  | cons c word ih => exact ⟨trivial, ih⟩

end Pattern

open Pattern

theorem quotedPart_shortens (mark : Char) : (quotedPart mark).Shortens := by
  intro text rest member
  cases text with
  | nil => simp [quotedPart, noneOf, exactly, rests] at member
  | cons c text =>
      rw [quotedPart_rests] at member
      split at member
      · cases text with
        | nil => cases member
        | cons second text =>
            simp only at member
            split at member
            · cases member
            · cases List.mem_singleton.mp member
              simp only [List.length_cons]
              omega
      · split at member
        · cases member
        · cases List.mem_singleton.mp member
          exact Nat.lt_succ_self _

theorem quoted_productive (mark : Char) : (Terminal.quotedPattern mark).Productive :=
  ⟨exactly_productive _, ⟨⟨trivial, exactly_productive _, trivial⟩, quotedPart_shortens mark⟩,
    exactly_productive _⟩

theorem terminal_productive (terminal : Terminal) : terminal.pattern.Productive := by
  have repeated (test : Char → Bool) : (many (one test)).Productive := ⟨trivial, one_shortens test⟩
  cases terminal with
  | longComment =>
      exact ⟨exactly_productive _, ⟨trivial, one_shortens _⟩, exactly_productive _⟩
  | comment => exact ⟨exactly_productive _, repeated _⟩
  | number =>
      have digits := repeated Text.isDecimalDigit
      have point := exactly_productive ['.']
      have mantissa : Terminal.decimalPattern.Productive :=
        ⟨⟨⟨⟨trivial, digits⟩, point, digits⟩, ⟨point, trivial, digits⟩, trivial, digits⟩,
          ⟨trivial, ⟨trivial, trivial⟩, trivial, digits⟩, trivial⟩
      exact ⟨⟨exactly_productive _, trivial, trivial, repeated _⟩, mantissa⟩
  | string => exact ⟨quoted_productive _, quoted_productive _⟩
  | name => exact ⟨trivial, repeated _⟩
  | blank => exact ⟨trivial, repeated _⟩
  | symbol mark => exact exactly_productive _

/-- A terminal is the first one that matches if those in front of it do not match. -/
theorem first_iff {text rest : List Char} {terminal : Terminal} :
    Terminal.first? text = some (terminal, rest) ↔
      ∃ before after, Terminal.all = before ++ terminal :: after ∧
        (∀ other ∈ before, other.pattern.rest? text = none) ∧
        terminal.pattern.rest? text = some rest := by
  rw [Terminal.first?, List.findSome?_eq_some_iff]
  constructor
  · rintro ⟨before, other, after, order, matched, none⟩
    obtain ⟨left, found, same⟩ := Option.map_eq_some_iff.mp matched
    cases same
    exact ⟨before, after, order, fun other member => Option.map_eq_none_iff.mp (none other member),
      found⟩
  · rintro ⟨before, after, order, none, matched⟩
    refine ⟨before, terminal, after, order, ?_, ?_⟩
    · rw [matched]
      rfl
    · exact fun other member => Option.map_eq_none_iff.mpr (none other member)

/-- What a text starts with, the front of the text starts with if it reaches so far. -/
theorem first_front {lexeme rest back : List Char} {terminal : Terminal}
    (first : Terminal.first? (lexeme ++ (rest ++ back)) = some (terminal, rest ++ back)) :
    Terminal.first? (lexeme ++ rest) = some (terminal, rest) := by
  rw [← List.append_assoc] at first
  obtain ⟨before, after, order, none, matched⟩ := first_iff.mp first
  refine first_iff.mpr ⟨before, after, order, ?_, rest?_front (terminal_productive _) matched⟩
  exact fun other member => rest?_front_none (terminal_productive _) (none other member)

end LuaCore.Lexer
