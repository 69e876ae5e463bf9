import LuaCore.Proofs.Grammar
import LuaCore.Proofs.Proper

/-!
What phrases are read to: the meaning of a phrase is of the kind that its category has, and that of
statements one behind the other is made of theirs.
-/

namespace LuaCore

open Tree.Grammar

/-- What a phrase of a category means. -/
abbrev Meaning : Category → Type
  | .block | .statements | .closing | .statement => Block
  | .branches => List Branch
  | .alternative => Option Block
  | .arguments | .moreArguments => List Expression
  | .fields | .moreFields => List Field
  | .field => Field
  | .level _ => Expression

/-- Reads what a phrase stands for. -/
def meaning : (category : Category) → category.Result → Except Fault (Meaning category)
  | .block | .statements | .closing | .statement => Block.ofTree
  | .branches => Branch.ofTrees
  | .alternative => Block.ofTree?
  | .arguments | .moreArguments => Expression.ofTrees
  | .fields | .moreFields => Field.ofTrees
  | .field => Field.ofTree
  | .level _ => Expression.ofTree

theorem ofTree_append (trees others : List Tree.Statement) :
    Block.ofTree (trees ++ others) = do
      let first ← Block.ofTree trees
      let second ← Block.ofTree others
      return first ++ second := by
  induction trees with
  | nil =>
      simp only [List.nil_append, Block.ofTree]
      cases Block.ofTree others <;> rfl
  | cons tree trees ih =>
      simp only [List.cons_append, Block.ofTree, ih]
      cases Statement.ofTree tree with
      | error => rfl
      | ok statement =>
          cases Block.ofTree trees with
          | error => rfl
          | ok first => cases Block.ofTree others <;> rfl

theorem ofTree_append_ok {trees others : List Tree.Statement} {block : Block}
    (read : Block.ofTree (trees ++ others) = .ok block) :
    ∃ first second, Block.ofTree trees = .ok first ∧ Block.ofTree others = .ok second ∧
      block = first ++ second := by
  rw [ofTree_append] at read
  obtain ⟨first, read', read⟩ := ok_bind read
  obtain ⟨second, read'', read⟩ := ok_bind read
  cases read
  exact ⟨first, second, read', read'', rfl⟩

theorem ofTree_single {tree : Tree.Statement} {block : Block}
    (read : Block.ofTree [tree] = .ok block) :
    ∃ statement, Statement.ofTree tree = .ok statement ∧ block = [statement] := by
  obtain ⟨statement, read', read⟩ := ok_bind read
  obtain ⟨_, nothing, read⟩ := ok_bind read
  cases nothing
  cases read
  exact ⟨statement, read', rfl⟩

theorem assign_target {start : Position} {target value : Expression} {statement : Statement}
    (read : Statement.assign? start target value = .ok statement) :
    target.isTarget ∧ statement = .assign target value := by
  unfold Statement.assign? at read
  split at read
  · next isTarget =>
      cases read
      exact ⟨isTarget, rfl⟩
  · cases read

end LuaCore
