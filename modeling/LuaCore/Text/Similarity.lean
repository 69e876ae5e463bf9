/-!
How alike two texts are. The longest block of characters that they share is set apart, then the
longest ones on either side of it, and so on; what counts is how much of both texts the blocks make
up. The main statement is that a longest block lies within the first text, so that the search comes
to an end.
-/

namespace LuaCore.Text

/-- A block of characters that two texts share: where it starts in each of them, and its size. -/
structure SharedBlock where
  first : Nat
  second : Nat
  size : Nat
  deriving DecidableEq

/-- How many characters two texts have in common from their starts on. -/
def agreement : List Char → List Char → Nat
  | a :: as, b :: bs => if a = b then agreement as bs + 1 else 0
  | _, _ => 0

namespace SharedBlock

/-- The blocks from all pairs of places, by the place in the first text and then in the second. -/
def all (a b : List Char) : List SharedBlock :=
  (List.range a.length).flatMap fun i =>
    (List.range b.length).map fun j => ⟨i, j, agreement (a.drop i) (b.drop j)⟩

def longer (best next : SharedBlock) : SharedBlock :=
  if best.size < next.size then next else best

/-- The first one of the longest blocks. It has no size when the texts share nothing. -/
def longest (a b : List Char) : SharedBlock :=
  (all a b).foldl longer ⟨0, 0, 0⟩

end SharedBlock

theorem agreement_le_length (a b : List Char) : agreement a b ≤ a.length := by
  induction a generalizing b with
  | nil => simp [agreement]
  | cons x a ih =>
    cases b with
    | nil => simp [agreement]
    | cons y b =>
      simp only [agreement, List.length_cons]
      split
      · exact Nat.succ_le_succ (ih b)
      · exact Nat.zero_le _

namespace SharedBlock

theorem end_le_length_of_mem_all {a b : List Char} {block : SharedBlock}
    (found : block ∈ all a b) : block.first + block.size ≤ a.length := by
  simp only [all, List.mem_flatMap, List.mem_range, List.mem_map] at found
  obtain ⟨i, inside, j, _, rfl⟩ := found
  have := agreement_le_length (a.drop i) (b.drop j)
  simp only [List.length_drop] at this
  simp only
  omega

theorem foldl_longer_keeps (holds : SharedBlock → Prop) (blocks : List SharedBlock)
    (start : SharedBlock) (base : holds start) (each : ∀ block ∈ blocks, holds block) :
    holds (blocks.foldl longer start) := by
  induction blocks generalizing start with
  | nil => exact base
  | cons block rest ih =>
    refine ih _ ?_ fun next later => each next (List.mem_cons_of_mem block later)
    unfold longer
    split
    · exact each block List.mem_cons_self
    · exact base

theorem longest_end_le_length (a b : List Char) :
    (longest a b).first + (longest a b).size ≤ a.length :=
  foldl_longer_keeps (fun block => block.first + block.size ≤ a.length) (all a b) ⟨0, 0, 0⟩
    (Nat.zero_le _) fun _ found => end_le_length_of_mem_all found

end SharedBlock

/-- How many characters lie in the shared blocks of two texts. -/
def shared (a b : List Char) : Nat :=
  match found : SharedBlock.longest a b with
  | ⟨_, _, 0⟩ => 0
  | ⟨i, j, size + 1⟩ =>
      shared (a.take i) (b.take j) + (size + 1) +
        shared (a.drop (i + size + 1)) (b.drop (j + size + 1))
termination_by a.length
decreasing_by
  all_goals
    have inside := SharedBlock.longest_end_le_length a b
    simp only [found] at inside
    simp only [List.length_take, List.length_drop]
    omega

/-- Whether the shared blocks make up at least three fifths of both texts together. Texts of very
different lengths cannot share that much. -/
def alike (a b : List Char) : Bool :=
  let total := a.length + b.length
  3 * total ≤ 10 * min a.length b.length && 3 * total ≤ 10 * shared a b

end LuaCore.Text
