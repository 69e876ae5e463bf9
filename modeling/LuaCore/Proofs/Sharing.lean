import Mathlib.Data.List.Induction
import LuaCore.Proofs.Looping

/-!
Sharing: which scopes of a family have a cell of a name in common. That is decided by the history of
the family alone. A clone has the bindings that its parent had when it was made, and what either of
them binds later is its own, so scopes share a cell if they have the name from one source.
-/

namespace LuaCore.Scopes

/-! Histories. -/

/-- The scope that an operation is asked of. -/
def Operation.scope : Operation → Nat
  | .put scope _ _ | .has scope _ | .get scope _ | .clone scope => scope

def Operation.isClone : Operation → Bool
  | .clone _ => true
  | _ => false

/-- What operations make of one empty scope. -/
def after (history : List Operation) : Scopes :=
  history.foldl (fun family operation => (family.apply operation).2) {}

/-- The number of scopes that a history leads to: the first one and the clones. -/
def size (history : List Operation) : Nat :=
  history.countP Operation.isClone + 1

/-- Every operation is asked of a scope that there is by then. -/
inductive Meant : List Operation → Prop where
  | nil : Meant []
  | snoc {history : List Operation} {operation : Operation} (meant : Meant history)
      (present : operation.scope < size history) : Meant (history ++ [operation])

/-- The scope binds the name: the name was put there, or its parent bound it when the scope was
made. -/
inductive Binds (name : String) : List Operation → Nat → Prop where
  | put {before rest : List Operation} {scope : Nat} {value : Value} :
      Binds name (before ++ .put scope name value :: rest) scope
  | clone {before rest : List Operation} {parent : Nat} (bound : Binds name before parent) :
      Binds name (before ++ .clone parent :: rest) (size before)

/-- The scope is the source, or descends from it by clones each of which was made when its parent
bound the name. -/
inductive Inherits (history : List Operation) (name : String) (source : Nat) : Nat → Prop where
  | source : Inherits history name source source
  | clone {before rest : List Operation} {parent : Nat}
      (cloned : history = before ++ .clone parent :: rest) (bound : Binds name before parent)
      (inherits : Inherits history name source parent) :
      Inherits history name source (size before)

/-- The scopes have the name from one source. -/
def Shares (history : List Operation) (name : String) (first second : Nat) : Prop :=
  ∃ source, Binds name history source ∧ Inherits history name source first ∧
    Inherits history name source second

/-- The value is the last one put to the name through a scope that has it from the same source. -/
def Holds (history : List Operation) (scope : Nat) (name : String) (value : Value) : Prop :=
  ∃ before through rest, history = before ++ .put through name value :: rest ∧
    Shares history name through scope ∧
    ∀ other later, .put other name later ∈ rest → ¬ Shares history name other scope

/-- The names that are put through a scope, in their order. -/
def putNames (scope : Nat) (history : List Operation) : List String :=
  history.filterMap fun
    | .put target name _ => if target = scope then some name else none
    | _ => none

section

variable {history before rest : List Operation} {operation : Operation} {name asked : String}
variable {scope source parent other : Nat} {value : Value}

theorem after_snoc (history : List Operation) (operation : Operation) :
    after (history ++ [operation]) = ((after history).apply operation).2 := by
  simp [after]

/-- An operation of a longer history is the last one, or one of the shorter history. -/
theorem snoc_split {last : Operation} (split : history ++ [last] = before ++ operation :: rest) :
    (before = history ∧ operation = last) ∨
      ∃ inner, rest = inner ++ [last] ∧ history = before ++ operation :: inner := by
  rcases List.eq_nil_or_concat' rest with rfl | ⟨inner, final, rfl⟩
  · obtain ⟨same, last⟩ := List.append_inj' split rfl
    exact .inl ⟨same.symm, (List.cons.inj last).1.symm⟩
  · have split : history ++ [last] = (before ++ operation :: inner) ++ [final] := by simpa using split
    obtain ⟨same, last⟩ := List.append_inj' split rfl
    cases last
    exact .inr ⟨inner, rfl, same⟩

theorem meant_snoc (meant : Meant (history ++ [operation])) :
    Meant history ∧ operation.scope < size history := by
  generalize whole : history ++ [operation] = longer at meant
  cases meant with
  | nil => simp at whole
  | snoc meant present =>
      obtain ⟨rfl, last⟩ := List.append_inj' whole rfl
      cases last
      exact ⟨meant, present⟩

theorem meant_front (meant : Meant (before ++ rest)) : Meant before := by
  induction rest using List.reverseRecOn with
  | nil => simpa using meant
  | append_singleton rest operation ih =>
      rw [← List.append_assoc] at meant
      exact ih (meant_snoc meant).1

/-! What a longer history binds and hands down. -/

theorem binds_longer (bound : Binds name history scope) (operation : Operation) :
    Binds name (history ++ [operation]) scope := by
  cases bound with
  | put =>
      rw [List.append_assoc, List.cons_append]
      exact .put
  | clone bound =>
      rw [List.append_assoc, List.cons_append]
      exact .clone bound

theorem binds_snoc : Binds name (history ++ [operation]) scope ↔
    Binds name history scope ∨ (∃ value, operation = .put scope name value) ∨
      ∃ parent, operation = .clone parent ∧ scope = size history ∧ Binds name history parent := by
  constructor
  · intro bound
    generalize whole : history ++ [operation] = longer at bound
    cases bound with
    | put =>
        rcases snoc_split whole with ⟨_, rfl⟩ | ⟨inner, _, rfl⟩
        · exact .inr (.inl ⟨_, rfl⟩)
        · exact .inl .put
    | clone bound =>
        rcases snoc_split whole with ⟨rfl, rfl⟩ | ⟨inner, _, rfl⟩
        · exact .inr (.inr ⟨_, rfl, rfl, bound⟩)
        · exact .inl (.clone bound)
  · rintro (bound | ⟨value, rfl⟩ | ⟨parent, rfl, rfl, bound⟩)
    · exact binds_longer bound operation
    · exact .put
    · exact .clone bound

theorem inherits_longer (inherits : Inherits history name source scope) (operation : Operation) :
    Inherits (history ++ [operation]) name source scope := by
  induction inherits with
  | source => exact .source
  | @clone before rest parent cloned bound _ ih =>
      have longer : history ++ [operation] = before ++ .clone parent :: (rest ++ [operation]) := by
        rw [cloned, List.append_assoc, List.cons_append]
      exact .clone longer bound ih

/-! The cells of a family, operation by operation. -/

/-- The cell that a scope of the family has for a name. -/
def cell? (family : Scopes) (scope : Nat) (name : String) : Option Nat :=
  (family.scope scope).cell? name

theorem cell_put (scope : Scope) (cells : Cells) (name : String) (value : Value) (asked : String) :
    (scope.put cells name value).1.cell? asked =
      if asked = name then some (scope.target cells name) else scope.cell? asked := by
  by_cases same : asked = name
  · rw [if_pos same, same, Scope.put_target]
  · rw [if_neg same]
    rcases scope.put_cases cells name value with ⟨cell, _, put⟩ | ⟨_, put⟩
    · rw [put]
    · rw [put, Scope.cell?, List.lookup_append, List.lookup_cons, beq_false_of_ne same]
      exact Option.or_none

theorem scope_set {family : Scopes} (present : scope < family.scopes.length) (changed : Scope)
    (cells : Cells) (other : Nat) :
    (Scopes.mk (family.scopes.set scope changed) cells).scope other =
      if other = scope then changed else family.scope other := by
  simp only [Scopes.scope, List.getD_eq_getElem?_getD, List.getElem?_set]
  by_cases same : other = scope
  · rw [if_pos same, if_pos same.symm, if_pos present]
    rfl
  · rw [if_neg same, if_neg (Ne.symm same)]

theorem scope_added (family : Scopes) (added : Scope) (other : Nat) :
    ({ family with scopes := family.scopes ++ [added] } : Scopes).scope other =
      if other = family.scopes.length then added else family.scope other := by
  simp only [Scopes.scope, List.getD_eq_getElem?_getD, List.getElem?_append]
  by_cases old : other < family.scopes.length
  · rw [if_pos old, if_neg (Nat.ne_of_lt old)]
  · rw [if_neg old]
    by_cases same : other = family.scopes.length
    · rw [if_pos same, same, Nat.sub_self]
      rfl
    · rw [if_neg same, List.getElem?_eq_none (by rw [List.length_singleton]; omega),
        List.getElem?_eq_none (Nat.not_lt.mp old)]

theorem after_has (history : List Operation) (scope : Nat) (name : String) :
    after (history ++ [.has scope name]) = after history :=
  after_snoc history _

theorem after_get (history : List Operation) (scope : Nat) (name : String) :
    after (history ++ [.get scope name]) = after history := by
  rw [after_snoc, apply]
  split <;> rfl

theorem size_snoc (history : List Operation) (operation : Operation) :
    size (history ++ [operation]) = size history + if operation.isClone then 1 else 0 := by
  rw [size, size, List.countP_append, List.countP_singleton, Nat.add_right_comm]

theorem length_after (history : List Operation) : (after history).scopes.length = size history := by
  induction history using List.reverseRecOn with
  | nil => rfl
  | append_singleton history operation ih =>
      rw [size_snoc, ← ih]
      cases operation with
      | put scope name value => rw [after_snoc, apply, List.length_set]; rfl
      | has scope name => rw [after_has]; rfl
      | get scope name => rw [after_get]; rfl
      | clone parent => rw [after_snoc, apply, List.length_append]; rfl

theorem scope_after_put (present : scope < size history) (name : String) (value : Value)
    (other : Nat) : (after (history ++ [.put scope name value])).scope other =
      if other = scope then (((after history).scope scope).put (after history).cells name value).1
      else (after history).scope other := by
  rw [← length_after] at present
  rw [after_snoc, apply, scope_set present]

theorem scope_after_clone (history : List Operation) (parent other : Nat) :
    (after (history ++ [.clone parent])).scope other =
      if other = size history then (after history).scope parent
      else (after history).scope other := by
  rw [after_snoc, apply, scope_added, length_after]

theorem cell_after_put (present : scope < size history) (name : String) (value : Value)
    (other : Nat) (asked : String) :
    (after (history ++ [.put scope name value])).cell? other asked =
      if other = scope ∧ asked = name then
        some (((after history).scope scope).target (after history).cells name)
      else (after history).cell? other asked := by
  rw [cell?, scope_after_put present]
  by_cases same : other = scope
  · rw [if_pos same, cell_put, same]
    simp [cell?]
  · rw [if_neg same, if_neg (fun both => same both.1), cell?]

theorem cell_after_clone (history : List Operation) (parent other : Nat) (asked : String) :
    (after (history ++ [.clone parent])).cell? other asked =
      if other = size history then (after history).cell? parent asked
      else (after history).cell? other asked := by
  rw [cell?, scope_after_clone]
  split_ifs <;> rfl

theorem cell_present {cell : Nat} (found : (after history).cell? scope name = some cell) :
    scope < size history := by
  by_contra missing
  have beyond : (after history).scopes.length ≤ scope := by
    rw [length_after]
    exact Nat.not_lt.mp missing
  rw [cell?, Scopes.scope, List.getD_eq_getElem?_getD, List.getElem?_eq_none beyond] at found
  cases found

/-- No name that a scope binds gets another cell. -/
theorem cell_kept {cell : Nat} (meant : Meant (history ++ [operation]))
    (found : (after history).cell? scope name = some cell) :
    (after (history ++ [operation])).cell? scope name = some cell := by
  obtain ⟨_, present⟩ := meant_snoc meant
  cases operation with
  | put target bound value =>
      rw [cell_after_put (show target < size history from present)]
      split_ifs with same
      · obtain ⟨rfl, rfl⟩ := same
        exact congrArg some (Scope.target_found found _)
      · exact found
  | has => rwa [after_has]
  | get => rwa [after_get]
  | clone parent =>
      rw [cell_after_clone, if_neg (Nat.ne_of_lt (cell_present found))]
      exact found

theorem cell_kept_long {cell : Nat} (meant : Meant (history ++ rest))
    (found : (after history).cell? scope name = some cell) :
    (after (history ++ rest)).cell? scope name = some cell := by
  induction rest using List.reverseRecOn with
  | nil => rwa [List.append_nil]
  | append_singleton rest operation ih =>
      rw [← List.append_assoc] at meant ⊢
      exact cell_kept meant (ih (meant_snoc meant).1)

/-! What the history says of the cells. -/

/-- A name has a cell in a scope as soon as the scope binds it. -/
theorem cell_iff (meant : Meant history) (scope : Nat) (name : String) :
    (∃ cell, (after history).cell? scope name = some cell) ↔ Binds name history scope := by
  induction meant generalizing scope with
  | nil =>
      refine iff_of_false ?_ ?_
      · rintro ⟨cell, found⟩
        cases scope <;> cases found
      · intro bound
        generalize none : ([] : List Operation) = history at bound
        cases bound <;> simp at none
  | @snoc history operation meant present ih =>
      rw [binds_snoc, ← ih]
      cases operation with
      | put target bound value =>
          rw [cell_after_put (show target < size history from present)]
          by_cases same : scope = target ∧ name = bound
          · simp [same]
          · rw [if_neg same]
            refine ⟨.inl, ?_⟩
            rintro (old | ⟨_, new⟩ | ⟨_, new, _⟩)
            · exact old
            · cases new
              exact absurd ⟨rfl, rfl⟩ same
            · cases new
      | has => rw [after_has]; simp
      | get => rw [after_get]; simp
      | clone parent =>
          rw [cell_after_clone]
          by_cases same : scope = size history
          · rw [if_pos same, ih]
            refine ⟨fun bound => .inr (.inr ⟨parent, rfl, same, bound⟩), ?_⟩
            rintro (⟨cell, old⟩ | ⟨_, new⟩ | ⟨_, new, _, bound⟩)
            · exact absurd same (Nat.ne_of_lt (cell_present old))
            · cases new
            · cases new
              exact bound
          · simp [same]

/-- What a scope inherits has the cell that it has in the source. -/
theorem inherits_cell (meant : Meant history) (inherits : Inherits history name source scope)
    {cell : Nat} (found : (after history).cell? source name = some cell) :
    (after history).cell? scope name = some cell := by
  induction inherits with
  | source => exact found
  | @clone before rest parent cloned bound _ ih =>
      have whole : history = (before ++ [.clone parent]) ++ rest := by simpa using cloned
      rw [whole] at meant
      obtain ⟨own, bound⟩ := (cell_iff (meant_front (meant_front meant)) parent name).mpr bound
      have copied : (after (before ++ [.clone parent])).cell? (size before) name = some own := by
        rw [cell_after_clone, if_pos rfl, bound]
      have same := cell_kept_long meant (cell_kept (meant_front meant) bound)
      rw [← whole, ih] at same
      rw [whole, cell_kept_long meant copied, same]

theorem shares_longer {first second : Nat} (shares : Shares history name first second)
    (operation : Operation) : Shares (history ++ [operation]) name first second := by
  obtain ⟨source, bound, inherits, inherits'⟩ := shares
  exact ⟨source, binds_longer bound operation, inherits_longer inherits operation,
    inherits_longer inherits' operation⟩

/-- A name that is bound already is put to its cell, and any other one to a new cell. -/
theorem put_cases (present : scope < size history) (name : String) (value : Value) :
    (∃ own, (after history).cell? scope name = some own ∧
      (after (history ++ [.put scope name value])).cells =
        (after history).cells.setIfInBounds own value ∧
      ∀ other asked, (after (history ++ [.put scope name value])).cell? other asked =
        (after history).cell? other asked) ∨
    ((after (history ++ [.put scope name value])).cells = (after history).cells.push value ∧
      ∀ other asked, (after (history ++ [.put scope name value])).cell? other asked =
        if other = scope ∧ asked = name then some (after history).cells.size
        else (after history).cell? other asked) := by
  have cells : (after (history ++ [.put scope name value])).cells =
      (((after history).scope scope).put (after history).cells name value).2 := by
    rw [after_snoc, apply]
  unfold Scope.put at cells
  cases found : (after history).cell? scope name with
  | some own =>
      have bound : ((after history).scope scope).cell? name = some own := found
      refine .inl ⟨own, rfl, by rw [cells, bound], ?_⟩
      intro other asked
      rw [cell_after_put present, Scope.target_found bound]
      split_ifs with same
      · obtain ⟨rfl, rfl⟩ := same
        exact found.symm
      · rfl
  | none =>
      have unbound : ((after history).scope scope).cell? name = none := found
      refine .inr ⟨by rw [cells, unbound], ?_⟩
      intro other asked
      rw [cell_after_put present, Scope.target, unbound]
      rfl

/-- What a clone has is what its parent had. -/
theorem clone_descends {cell : Nat} (meant : Meant history)
    (found : (after (history ++ [.clone parent])).cell? scope name = some cell) :
    ∃ elder, (after history).cell? elder name = some cell ∧
      ∀ source, Inherits history name source elder →
        Inherits (history ++ [.clone parent]) name source scope := by
  rw [cell_after_clone] at found
  split_ifs at found with same
  · refine ⟨parent, found, ?_⟩
    intro source inherits
    rw [same]
    exact .clone rfl ((cell_iff meant parent name).mp ⟨cell, found⟩)
      (inherits_longer inherits (.clone parent))
  · exact ⟨scope, found, fun source inherits => inherits_longer inherits (.clone parent)⟩

theorem cell_lt {cell : Nat} (meant : Meant history)
    (found : (after history).cell? scope name = some cell) : cell < (after history).cells.size := by
  induction meant generalizing scope with
  | nil => cases scope <;> cases found
  | @snoc history operation meant present ih =>
      cases operation with
      | put target bound value =>
          rcases put_cases (show target < size history from present) bound value with
            ⟨own, _, cells, put⟩ | ⟨cells, put⟩
          · rw [put] at found
            rw [cells, Array.size_setIfInBounds]
            exact ih found
          · rw [put] at found
            rw [cells, Array.size_push]
            split_ifs at found
            · cases found
              exact Nat.lt_succ_self _
            · exact Nat.lt_succ_of_lt (ih found)
      | has =>
          rw [after_has] at found ⊢
          exact ih found
      | get =>
          rw [after_get] at found ⊢
          exact ih found
      | clone parent =>
          obtain ⟨elder, found, _⟩ := clone_descends meant found
          rw [after_snoc]
          exact ih found

/-- Scopes that have a cell in common have it for one name, from one source. -/
theorem shared_cell {first second cell : Nat} (meant : Meant history)
    (found : (after history).cell? first name = some cell)
    (found' : (after history).cell? second asked = some cell) :
    name = asked ∧ Shares history name first second := by
  induction meant generalizing first second with
  | nil => cases first <;> cases found
  | @snoc history operation meant present ih =>
      have longer {first second} (found : (after history).cell? first name = some cell)
          (found' : (after history).cell? second asked = some cell) :
          name = asked ∧ Shares (history ++ [operation]) name first second := by
        obtain ⟨same, shares⟩ := ih found found'
        exact ⟨same, shares_longer shares operation⟩
      cases operation with
      | put target bound value =>
          rcases put_cases (show target < size history from present) bound value with
            ⟨own, _, _, put⟩ | ⟨_, put⟩
          · rw [put] at found found'
            exact longer found found'
          · rw [put] at found found'
            split_ifs at found found' with same same'
            · obtain ⟨rfl, rfl⟩ := same
              obtain ⟨rfl, rfl⟩ := same'
              exact ⟨rfl, second, .put, .source, .source⟩
            · cases found
              exact absurd (cell_lt meant found') (Nat.lt_irrefl _)
            · cases found'
              exact absurd (cell_lt meant found) (Nat.lt_irrefl _)
            · exact longer found found'
      | has =>
          rw [after_has] at found found'
          exact longer found found'
      | get =>
          rw [after_get] at found found'
          exact longer found found'
      | clone parent =>
          obtain ⟨elder, found, descends⟩ := clone_descends meant found
          obtain ⟨elder', found', descends'⟩ := clone_descends meant found'
          obtain ⟨same, source, bound, inherits, inherits'⟩ := ih found found'
          subst same
          exact ⟨rfl, source, binds_longer bound _, descends source inherits,
            descends' source inherits'⟩

/-- Scopes share a name just if they have a cell of it in common. -/
theorem shares_iff (meant : Meant history) (name : String) (first second : Nat) :
    Shares history name first second ↔ ∃ cell,
      (after history).cell? first name = some cell ∧
        (after history).cell? second name = some cell := by
  constructor
  · rintro ⟨source, bound, inherits, inherits'⟩
    obtain ⟨cell, found⟩ := (cell_iff meant source name).mpr bound
    exact ⟨cell, inherits_cell meant inherits found, inherits_cell meant inherits' found⟩
  · rintro ⟨cell, found, found'⟩
    exact (shared_cell meant found found').2

/-! Values. -/

/-- The cell has the value that was put last through a scope that has the cell. -/
def Reads (history : List Operation) (name : String) (cell : Nat) : Prop :=
  ∃ before through value rest, history = before ++ .put through name value :: rest ∧
    (after history).cell? through name = some cell ∧
    (∀ other later, .put other name later ∈ rest →
      (after history).cell? other name ≠ some cell) ∧
    (after history).cells[cell]? = some value

theorem put_binds (member : .put scope name value ∈ history) : Binds name history scope := by
  obtain ⟨before, rest, rfl⟩ := List.append_of_mem member
  exact .put

/-- An operation that does not put to the cell leaves what it reads. -/
theorem reads_longer {cell : Nat} (meant : Meant (history ++ [operation]))
    (spares : ∀ target value, operation = .put target name value →
      (after (history ++ [operation])).cell? target name ≠ some cell)
    (kept : (after (history ++ [operation])).cells[cell]? = (after history).cells[cell]?)
    (reads : Reads history name cell) : Reads (history ++ [operation]) name cell := by
  obtain ⟨before, through, value, rest, split, found, last, stored⟩ := reads
  refine ⟨before, through, value, rest ++ [operation], ?_, cell_kept meant found, ?_,
    kept.trans stored⟩
  · rw [split, List.append_assoc, List.cons_append]
  · intro other later member
    rcases List.mem_append.mp member with old | new
    · have given : Operation.put other name later ∈ history := by
        rw [split]
        exact List.mem_append_right _ (List.mem_cons_of_mem _ old)
      obtain ⟨own, found'⟩ := (cell_iff (meant_snoc meant).1 other name).mpr (put_binds given)
      rw [cell_kept meant found', ← found']
      exact last other later old
    · exact spares other later (List.mem_singleton.mp new).symm

theorem cell_reads {cell : Nat} (meant : Meant history)
    (found : (after history).cell? scope name = some cell) : Reads history name cell := by
  induction meant generalizing scope with
  | nil => cases scope <;> cases found
  | @snoc history operation meant present ih =>
      have whole := Meant.snoc meant present
      cases operation with
      | put target bound value =>
          rcases put_cases (show target < size history from present) bound value with
            ⟨own, self, cells, put⟩ | ⟨cells, put⟩
          · rw [put] at found
            by_cases same : cell = own
            · subst same
              obtain ⟨rfl, _⟩ := shared_cell meant found self
              refine ⟨history, target, value, [], rfl, by rw [put, self], nofun, ?_⟩
              rw [cells, Array.getElem?_setIfInBounds_self_of_lt (cell_lt meant found)]
            · apply reads_longer whole _ _ (ih found)
              · rintro _ _ ⟨⟩
                rw [put, self]
                exact fun same' => same (Option.some.inj same').symm
              · rw [cells, Array.getElem?_setIfInBounds_ne (Ne.symm same)]
          · rw [put] at found
            split_ifs at found with same
            · obtain ⟨rfl, rfl⟩ := same
              cases found
              refine ⟨history, scope, value, [], rfl, by rw [put, if_pos ⟨rfl, rfl⟩], nofun, ?_⟩
              rw [cells, Array.getElem?_push_size]
            · have old := cell_lt meant found
              apply reads_longer whole _ _ (ih found)
              · rintro _ _ ⟨⟩
                rw [put, if_pos ⟨rfl, rfl⟩]
                exact fun same' => Nat.ne_of_gt old (Option.some.inj same')
              · rw [cells, Array.getElem?_push_lt old, Array.getElem?_eq_getElem old]
      | has => exact reads_longer whole nofun (by rw [after_has]) (ih (by rwa [after_has] at found))
      | get => exact reads_longer whole nofun (by rw [after_get]) (ih (by rwa [after_get] at found))
      | clone parent =>
          obtain ⟨elder, found, _⟩ := clone_descends meant found
          exact reads_longer whole nofun (by rw [after_snoc]; rfl) (ih found)

theorem get_answer (family : Scopes) (scope : Nat) (name : String) :
    (family.apply (.get scope name)).1 =
      match family.cell? scope name with
      | some cell => .value (family.cells.getD cell .nil)
      | none => .unbound := by
  rw [apply, Scope.get?, cell?]
  cases (family.scope scope).cell? name with
  | some cell => rfl
  | none => rfl

/-- What is put last is put once. -/
theorem holds_unique {value' : Value} (holds : Holds history scope name value)
    (holds' : Holds history scope name value') : value = value' := by
  obtain ⟨before, through, rest, split, shares, last⟩ := holds
  obtain ⟨before', through', rest', split', shares', last'⟩ := holds'
  rw [split] at split'
  rcases List.append_eq_append_iff.mp split' with ⟨between, same, behind⟩ | ⟨between, same, behind⟩
  · cases between with
    | nil =>
        cases behind
        rfl
    | cons first between =>
        obtain ⟨rfl, rfl⟩ := List.cons.inj behind
        exact absurd shares' (last through' value' (by simp))
  · cases between with
    | nil =>
        cases behind
        rfl
    | cons first between =>
        obtain ⟨rfl, rfl⟩ := List.cons.inj behind
        exact absurd shares (last' through value (by simp))

theorem get_holds (meant : Meant history) {cell : Nat}
    (found : (after history).cell? scope name = some cell) :
    Holds history scope name ((after history).cells.getD cell .nil) := by
  obtain ⟨before, through, value, rest, split, found', last, stored⟩ := cell_reads meant found
  rw [Array.getD_eq_getD_getElem?, stored]
  refine ⟨before, through, rest, split, (shared_cell meant found' found).2, ?_⟩
  intro other later member shares
  obtain ⟨own, here, there⟩ := (shares_iff meant name other scope).mp shares
  rw [found] at there
  cases there
  exact last other later member here

theorem get_iff (meant : Meant history) (scope : Nat) (name : String) (value : Value) :
    ((after history).apply (.get scope name)).1 = .value value ↔
      Holds history scope name value := by
  rw [get_answer]
  cases found : (after history).cell? scope name with
  | some cell =>
      have holds := get_holds meant found
      refine ⟨?_, fun holds' => congrArg Answer.value (holds_unique holds holds')⟩
      rintro ⟨⟩
      exact holds
  | none =>
      refine iff_of_false nofun ?_
      rintro ⟨_, through, _, _, shares, _⟩
      obtain ⟨cell, _, found'⟩ := (shares_iff meant name through scope).mp shares
      rw [found] at found'
      cases found'

theorem unbound_iff (meant : Meant history) (scope : Nat) (name : String) :
    ((after history).apply (.get scope name)).1 = .unbound ↔ ¬ Binds name history scope := by
  rw [get_answer, ← cell_iff meant]
  cases (after history).cell? scope name with
  | some cell => exact iff_of_false nofun fun none => none ⟨cell, rfl⟩
  | none => exact iff_of_true rfl nofun

theorem shares_self (scope : Nat) (name : String) (value : Value) :
    Shares (history ++ [.put scope name value]) name scope scope :=
  ⟨scope, .put, .source, .source⟩

/-- What is put to a name changes no other name, and none of a scope that does not share it. -/
theorem put_spares (meant : Meant history) (present : scope < size history)
    (apart : asked ≠ name ∨ ¬ Shares (history ++ [.put scope name value]) name scope other) :
    ((after (history ++ [.put scope name value])).apply (.get other asked)).1 =
      ((after history).apply (.get other asked)).1 := by
  have longer : Meant (history ++ [.put scope name value]) := .snoc meant present
  rw [get_answer, get_answer]
  rcases put_cases present name value with ⟨own, self, cells, put⟩ | ⟨cells, put⟩
  · rw [put, cells]
    cases found : (after history).cell? other asked with
    | some cell =>
        have different : own ≠ cell := by
          rintro rfl
          obtain ⟨same, shares⟩ :=
            shared_cell longer (cell_kept longer self) (cell_kept longer found)
          exact apart.elim (fun differs => differs same.symm) fun unshared => unshared shares
        simp only [Array.getD_eq_getD_getElem?, Array.getElem?_setIfInBounds_ne different]
    | none => rfl
  · have elsewhere : ¬ (other = scope ∧ asked = name) := by
      rintro ⟨rfl, rfl⟩
      exact apart.elim (fun differs => differs rfl) fun unshared => unshared (shares_self _ _ _)
    rw [put, if_neg elsewhere, cells]
    cases found : (after history).cell? other asked with
    | some cell =>
        have old := cell_lt meant found
        simp only [Array.getD_eq_getD_getElem?, Array.getElem?_push_lt old,
          Array.getElem?_eq_getElem old]
    | none => rfl

theorem put_elsewhere (present : scope < size history)
    (unshared : ¬ Shares (history ++ [.put scope name value]) name scope other) :
    (after (history ++ [.put scope name value])).scope other = (after history).scope other := by
  rw [scope_after_put present, if_neg]
  rintro rfl
  exact unshared (shares_self _ _ _)

/-! Names. -/

theorem listed_iff (scope : Scope) (name : String) : name ∈ scope.names ↔ scope.has name := by
  rw [Scope.has, Scope.cell?, List.lookup_isSome_iff, Scope.names, List.mem_map]
  constructor
  · rintro ⟨binding, member, rfl⟩
    exact ⟨binding, member, beq_self_eq_true _⟩
  · rintro ⟨binding, member, same⟩
    exact ⟨binding, member, (beq_iff_eq.mp same).symm⟩

/-- A name that is not bound yet is listed behind the others. -/
theorem names_put (scope : Scope) (cells : Cells) (name : String) (value : Value) :
    (scope.put cells name value).1.names =
      if name ∈ scope.names then scope.names else scope.names ++ [name] := by
  unfold Scope.put
  cases found : scope.cell? name with
  | some cell =>
      have listed : name ∈ scope.names := by
        rw [listed_iff, Scope.has, found]
        rfl
      rw [if_pos listed]
  | none =>
      have missing : name ∉ scope.names := by
        rw [listed_iff, Scope.has, found]
        exact Bool.false_ne_true
      rw [if_neg missing, Scope.names, List.map_append]
      rfl

theorem eraseDups_snoc (names : List String) (last : String) :
    (names ++ [last]).eraseDups =
      if last ∈ names then names.eraseDups else names.eraseDups ++ [last] := by
  rw [List.eraseDups_append, List.removeAll, List.filter_singleton]
  by_cases listed : last ∈ names <;> simp [listed, List.eraseDups_cons]

theorem eraseDups_distinct {names : List String} (distinct : names.Nodup) :
    names.eraseDups = names := by
  induction names using List.reverseRecOn with
  | nil => rfl
  | append_singleton names last ih =>
      have fresh : last ∉ names := fun listed =>
        (List.nodup_append.mp distinct).2.2 last listed last List.mem_cons_self rfl
      rw [eraseDups_snoc, if_neg fresh, ih (List.nodup_append.mp distinct).1]

theorem names_distinct (meant : Meant history) (scope : Nat) :
    ((after history).scope scope).names.Nodup := by
  induction meant generalizing scope with
  | nil => cases scope <;> exact List.nodup_nil
  | @snoc history operation meant present ih =>
      cases operation with
      | put target bound value =>
          rw [scope_after_put (show target < size history from present)]
          split_ifs
          · rw [names_put]
            split_ifs with listed
            · exact ih target
            · refine List.nodup_append.mpr ⟨ih target, List.pairwise_singleton .., ?_⟩
              rintro name member _ new rfl
              exact listed (List.mem_singleton.mp new ▸ member)
          · exact ih scope
      | has =>
          rw [after_has]
          exact ih scope
      | get =>
          rw [after_get]
          exact ih scope
      | clone parent =>
          rw [scope_after_clone]
          split_ifs
          · exact ih parent
          · exact ih scope

/-- A scope lists the names that it had, and then those that are put through it. -/
theorem names_after (meant : Meant (before ++ rest)) (present : scope < size before) :
    ((after (before ++ rest)).scope scope).names =
      (((after before).scope scope).names ++ putNames scope rest).eraseDups := by
  induction rest using List.reverseRecOn with
  | nil =>
      rw [List.append_nil] at meant
      rw [List.append_nil, putNames, List.filterMap_nil, List.append_nil,
        eraseDups_distinct (names_distinct meant scope)]
  | append_singleton rest operation ih =>
      rw [← List.append_assoc] at meant
      obtain ⟨front, there⟩ := meant_snoc meant
      have listed := ih front
      have added : putNames scope (rest ++ [operation]) =
          putNames scope rest ++ putNames scope [operation] := List.filterMap_append
      rw [← List.append_assoc, added, ← List.append_assoc]
      cases operation with
      | put target name value =>
          rw [scope_after_put (show target < size (before ++ rest) from there)]
          by_cases same : scope = target
          · subst same
            have new : putNames scope [.put scope name value] = [name] := by simp [putNames]
            rw [if_pos rfl, names_put, new, eraseDups_snoc, listed]
            simp only [List.mem_eraseDups]
          · have none : putNames scope [.put target name value] = [] := by
              simp [putNames, Ne.symm same]
            rw [if_neg same, none, List.append_nil, listed]
      | has => rw [after_has, listed]; exact congrArg _ (List.append_nil _).symm
      | get => rw [after_get, listed]; exact congrArg _ (List.append_nil _).symm
      | clone parent =>
          have old : scope ≠ size (before ++ rest) := by
            rw [size, List.countP_append]
            rw [size] at present
            omega
          rw [scope_after_clone, if_neg old, listed]
          exact congrArg _ (List.append_nil _).symm

end

/-- The family answers as its history tells. -/
structure Follows (history : List Operation) : Prop where
  /-- Scopes have a cell in common just if they have the name from one source. -/
  shared : ∀ name first second,
    (∃ cell, ((after history).scope first).cell? name = some cell ∧
      ((after history).scope second).cell? name = some cell) ↔ Shares history name first second
  clone : ∀ parent, ((after history).apply (.clone parent)).1 = .scope (size history)
  has : ∀ scope name, ∃ truth, ((after history).apply (.has scope name)).1 = .truth truth ∧
    (truth = true ↔ Binds name history scope)
  unbound : ∀ scope name,
    ((after history).apply (.get scope name)).1 = .unbound ↔ ¬ Binds name history scope
  get : ∀ scope name value,
    ((after history).apply (.get scope name)).1 = .value value ↔ Holds history scope name value
  distinct : ∀ scope, ((after history).scope scope).names.Nodup
  firstNames : ((after history).scope 0).names = (putNames 0 history).eraseDups
  /-- A clone lists the names of its parent, and then those that were put through it. -/
  cloneNames : ∀ before parent rest, history = before ++ .clone parent :: rest →
    ((after history).scope (size before)).names =
      (((after before).scope parent).names ++ putNames (size before) rest).eraseDups
  /-- What is put changes no other name, and nothing in a scope that does not share the name. -/
  put : ∀ scope name value, scope < size history →
    let next := history ++ [.put scope name value]
    ∀ other, (¬ Shares next name scope other →
        (after next).scope other = (after history).scope other) ∧
      ∀ asked, asked ≠ name ∨ ¬ Shares next name scope other →
        ((after next).apply (.get other asked)).1 = ((after history).apply (.get other asked)).1

/-- A family of scopes does what its history tells: which scopes have a cell in common, what each
name has for a value, which names there are and in which order, and how far a change reaches. -/
theorem family_follows {history : List Operation} (meant : Meant history) : Follows history where
  shared name first second := (shares_iff meant name first second).symm
  clone parent := congrArg Answer.scope (length_after history)
  has scope name := by
    refine ⟨_, rfl, ?_⟩
    rw [← cell_iff meant, Scope.has, Option.isSome_iff_exists]
    rfl
  unbound := unbound_iff meant
  get := get_iff meant
  distinct := names_distinct meant
  firstNames := names_after (show Meant ([] ++ history) from meant) (Nat.lt_succ_self 0)
  cloneNames before parent rest split := by
    have whole : history = (before ++ [.clone parent]) ++ rest := by simpa using split
    rw [whole] at meant ⊢
    rw [names_after meant, scope_after_clone, if_pos rfl]
    rw [size_snoc]
    exact Nat.lt_succ_self _
  put scope name value present other :=
    ⟨put_elsewhere present, fun _ apart => put_spares meant present apart⟩

/-- A name that is bound before the clones is one for all three scopes, also when the last one puts
it. A name that the first clone binds is its own and that of the clone of it. -/
theorem family_follows_clones :
    let history : List Operation := [.put 0 "a" .nil, .clone 0, .put 1 "b" (.boolean true),
      .clone 1, .put 0 "b" (.boolean false), .put 2 "a" (.boolean true)]
    Meant history ∧ Shares history "a" 0 2 ∧ Holds history 0 "a" (.boolean true) ∧
      Shares history "b" 1 2 ∧ ¬ Shares history "b" 0 2 ∧ Holds history 2 "b" (.boolean true) := by
  intro history
  have meant : Meant history := by
    have first : Meant [.put 0 "a" .nil, .clone 0] :=
      .snoc (.snoc .nil (by decide)) (by decide)
    have second : Meant [.put 0 "a" .nil, .clone 0, .put 1 "b" (.boolean true), .clone 1] :=
      .snoc (.snoc first (by decide)) (by decide)
    exact .snoc (.snoc second (by decide)) (by decide)
  have follows := family_follows meant
  refine ⟨meant, (follows.shared ..).mp ⟨0, rfl, rfl⟩, (follows.get ..).mp rfl,
    (follows.shared ..).mp ⟨1, rfl, rfl⟩, ?_, (follows.get ..).mp rfl⟩
  intro shares
  obtain ⟨cell, first, third⟩ := (follows.shared ..).mpr shares
  have apart : (2 : Nat) = 1 := Option.some.inj (first.trans third.symm)
  cases apart

end LuaCore.Scopes
