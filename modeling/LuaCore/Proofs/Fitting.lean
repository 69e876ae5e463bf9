import Mathlib.Algebra.Order.BigOperators.Group.List
import LuaCore.Proofs.Readback

/-!
What fits on one line. A table is laid out after the tables in it, each of which has been laid out
for a line of its own, four columns further in. So a table is shown as it is without any width if it
fits and if each table in it would fit on a line of its own.
-/

namespace LuaCore.Display

/-! Lengths of layouts. -/

theorem separated_length (separator : List Char) (items : List (List Char)) :
    (separated separator items).length =
      (items.map List.length).sum + separator.length * (items.length - 1) := by
  induction items with
  | nil => rfl
  | cons first items ih =>
      cases items with
      | nil => simp [separated]
      | cons next items =>
          rw [separated_cons, List.length_append, List.length_append, ih]
          simp only [List.map_cons, List.sum_cons, List.length_cons, Nat.add_sub_cancel,
            Nat.mul_add_one]
          omega

theorem singleLine_length (items : List (List Char)) :
    (singleLine items).length =
      (items.map List.length).sum + 2 * (items.length - 1) + 2 := by
  rw [singleLine, List.cons_append, List.length_cons, List.length_append, separated_length]
  rfl

/-- Several lines take more characters than one. -/
theorem severalLines_longer (indent : Int) (items : List (List Char)) :
    (singleLine items).length < (severalLines indent items).length := by
  have wide : 2 * (items.length - 1) ≤
      ([',', '\n'] ++ blanks (indent + 4)).length * (items.length - 1) :=
    Nat.mul_le_mul_right _ (by simp)
  simp only [singleLine_length, severalLines, List.length_append, separated_length,
    List.length_cons, List.length_nil] at wide ⊢
  omega

theorem singleLine_shortest (width : Option Int) (indent : Int) (items : List (List Char)) :
    (singleLine items).length ≤ (layout width indent items).length := by
  rw [layout]
  split
  · exact Nat.le_refl _
  · exact Nat.le_of_lt (severalLines_longer indent items)

/-- A layout is as short as one line only if that line fits. -/
theorem layout_short {width : Option Int} {indent : Int} {items : List (List Char)}
    (short : (layout width indent items).length ≤ (singleLine items).length) :
    fits width indent (singleLine items) := by
  rw [layout] at short
  split at short
  · assumption
  · exact absurd short (Nat.not_le_of_lt (severalLines_longer indent items))

/-! Lengths of the items of a table. -/

theorem entryText_length (text : Value → List Char) (entry : Key × Value) :
    (entryText text entry).length =
      (entryText (fun _ => []) entry).length + (text entry.2).length := by
  simp only [entryText, List.length_append, List.length_cons, List.length_nil]

/-- The items are as long as they are without the texts of the values, and as these. -/
theorem items_sum (table : Table) (text : Value → List Char) :
    ((items table text).map List.length).sum =
      ((items table fun _ => []).map List.length).sum +
        ((listing table).map fun entry => (text entry.2).length).sum := by
  have others (entries : List (Key × Value)) :
      ((entries.map (entryText text)).map List.length).sum =
        ((entries.map (entryText fun _ => [])).map List.length).sum +
          (entries.map fun entry => (text entry.2).length).sum := by
    rw [List.map_map, List.map_map, ← List.sum_map_add]
    exact congrArg List.sum (List.map_congr_left fun entry _ => entryText_length text entry)
  simp only [items_listing, listing, List.map_append, List.sum_append, others]
  simp [Function.comp_def]
  omega

theorem items_length (table : Table) (text other : Value → List Char) :
    (items table text).length = (items table other).length := by
  simp [items]

/-- The texts of the values decide how long a table is on one line. -/
theorem singleLine_sum (table : Table) (text other : Value → List Char) :
    (singleLine (items table text)).length +
        ((listing table).map fun entry => (other entry.2).length).sum =
      (singleLine (items table other)).length +
        ((listing table).map fun entry => (text entry.2).length).sum := by
  rw [singleLine_length, singleLine_length, items_sum table text, items_sum table other,
    items_length table text other]
  omega

theorem items_congr {table : Table} {text other : Value → List Char}
    (same : ∀ entry ∈ listing table, text entry.2 = other entry.2) :
    items table text = items table other := by
  obtain ⟨first, others⟩ := List.forall_mem_append.mp same
  have entries : ∀ entry ∈ table.entries.filter fun entry =>
      !inSequence (sequenceLength table) entry.1, entryText text entry = entryText other entry :=
    fun entry member => by rw [entryText, entryText, others entry member]
  rw [items_listing, items_listing, List.map_congr_left first, List.map_congr_left entries]

/-- Longer texts of the values make a longer line. -/
theorem singleLine_le {table : Table} {text other : Value → List Char}
    (le : ∀ entry ∈ listing table, (text entry.2).length ≤ (other entry.2).length) :
    (singleLine (items table text)).length ≤ (singleLine (items table other)).length := by
  have sums := List.sum_le_sum le
  have balance := singleLine_sum table text other
  omega

/-- If the line is no longer, none of the texts is. -/
theorem singleLine_tight {table : Table} {text other : Value → List Char}
    (le : ∀ entry ∈ listing table, (text entry.2).length ≤ (other entry.2).length)
    (tight : (singleLine (items table other)).length ≤ (singleLine (items table text)).length) :
    ∀ entry ∈ listing table, (other entry.2).length ≤ (text entry.2).length := by
  intro entry listed
  by_contra longer
  have sums := List.sum_lt_sum (fun entry => (text entry.2).length) _ le
    ⟨entry, listed, Nat.lt_of_not_le longer⟩
  have balance := singleLine_sum table text other
  omega

/-! Tables inside of tables. -/

section Nesting

variable {machine : Machine} {unseen : List Nat} {indent : Int} {value : Value}

theorem itemWithin_table (width : Option Int) {id : Nat} (member : id ∈ unseen) :
    itemWithin machine width unseen indent (.table id) =
      layout width indent
        (items (machine.table id) (itemWithin machine width (unseen.erase id) (indent + 4))) := by
  rw [itemWithin, dif_pos member]

/-- A value that is no table, or one that is shown already, is shown alike everywhere. -/
theorem itemWithin_plain (width width' : Option Int) (indent' : Int)
    (plain : ∀ id ∈ unseen, value ≠ .table id) :
    itemWithin machine width unseen indent value =
      itemWithin machine width' unseen indent' value := by
  cases value with
  | table id =>
      have seen : id ∉ unseen := fun member => plain id member rfl
      rw [itemWithin, dif_neg seen, itemWithin, dif_neg seen]
  | _ => simp only [itemWithin]

/-- Values are shown from the tables in them. -/
theorem item_induction {motive : List Nat → Int → Value → Prop}
    (plain : ∀ unseen indent value, (∀ id ∈ unseen, value ≠ .table id) →
      motive unseen indent value)
    (table : ∀ unseen indent id, id ∈ unseen →
      (∀ value, motive (unseen.erase id) (indent + 4) value) → motive unseen indent (.table id))
    (unseen : List Nat) (indent : Int) (value : Value) : motive unseen indent value := by
  induction unseen, indent, value using itemWithin.induct with
  | case7 unseen indent id member ih => exact table unseen indent id member ih
  | case8 unseen indent id seen =>
      exact plain unseen indent _ fun other member same => seen (Value.table.inj same ▸ member)
  | _ => exact plain _ _ _ (by simp)

/-- A table is shown in full inside a value, with some tables around it, of which none is left. -/
inductive Shows (machine : Machine) : List Nat → Value → Nat → List Nat → Nat → Prop
  | itself {unseen : List Nat} {id : Nat} (member : id ∈ unseen) :
      Shows machine unseen (.table id) 0 unseen id
  | inside {unseen left : List Nat} {id inner depth : Nat} {entry : Key × Value}
      (member : id ∈ unseen) (listed : entry ∈ listing (machine.table id))
      (shows : Shows machine (unseen.erase id) entry.2 depth left inner) :
      Shows machine unseen (.table id) (depth + 1) left inner

/-- Each table in a value would fit on a line of its own, four columns further in for each table
around it. -/
def Fits (machine : Machine) (width : Int) (unseen : List Nat) (indent : Int) (value : Value) :
    Prop :=
  ∀ depth left id, Shows machine unseen value depth left id →
    (itemWithin machine none left 0 (.table id)).length + (indent + 4 * depth) ≤ width

theorem fits_plain {width : Int} (plain : ∀ id ∈ unseen, value ≠ .table id) :
    Fits machine width unseen indent value := by
  intro depth left id shows
  cases shows with
  | itself member | inside member => exact absurd rfl (plain _ member)

theorem fits_table {width : Int} {id : Nat} (member : id ∈ unseen) :
    Fits machine width unseen indent (.table id) ↔
      (itemWithin machine none unseen 0 (.table id)).length + indent ≤ width ∧
        ∀ entry ∈ listing (machine.table id),
          Fits machine width (unseen.erase id) (indent + 4) entry.2 := by
  constructor
  · intro all
    refine ⟨by simpa using all 0 unseen id (.itself member), ?_⟩
    intro entry listed depth left inner shows
    have inside := all _ left inner (.inside member listed shows)
    push_cast at inside
    omega
  · rintro ⟨outer, all⟩ depth left inner shows
    cases shows with
    | itself => simpa using outer
    | inside _ listed shows =>
        have inside := all _ listed _ left inner shows
        push_cast
        omega

/-- Without a width the indentation does not matter. -/
theorem unlimited_indent (indent' : Int) :
    itemWithin machine none unseen indent value = itemWithin machine none unseen indent' value := by
  induction unseen, indent, value using item_induction generalizing indent' with
  | plain unseen indent value plain => exact itemWithin_plain none none indent' plain
  | table unseen indent id member ih =>
      have same : itemWithin machine none (unseen.erase id) (indent + 4) =
          itemWithin machine none (unseen.erase id) (indent' + 4) :=
        funext fun value => ih value (indent' + 4)
      rw [itemWithin_table none member, itemWithin_table none member, same]
      rfl

theorem unlimited_table {id : Nat} (member : id ∈ unseen) :
    itemWithin machine none unseen indent (.table id) =
      singleLine (items (machine.table id) (itemWithin machine none (unseen.erase id) 0)) := by
  have inside : itemWithin machine none (unseen.erase id) (indent + 4) =
      itemWithin machine none (unseen.erase id) 0 := funext fun value => unlimited_indent 0
  rw [itemWithin_table none member, inside]
  rfl

/-- A value in which every table fits is shown as it is without a width. -/
theorem fits_unlimited {width : Int} (fits : Fits machine width unseen indent value) :
    itemWithin machine (some width) unseen indent value =
      itemWithin machine none unseen 0 value := by
  induction unseen, indent, value using item_induction with
  | plain unseen indent value plain => exact itemWithin_plain (some width) none 0 plain
  | table unseen indent id member ih =>
      obtain ⟨outer, inner⟩ := (fits_table member).mp fits
      rw [unlimited_table member] at outer
      have same := items_congr fun entry listed => ih entry.2 (inner entry listed)
      rw [itemWithin_table (some width) member, unlimited_table member, same, layout, Display.fits,
        if_pos (by simpa using outer)]

/-- A width never makes a text shorter. -/
theorem unlimited_shortest (width : Option Int) :
    (itemWithin machine none unseen 0 value).length ≤
      (itemWithin machine width unseen indent value).length := by
  induction unseen, indent, value using item_induction with
  | plain unseen indent value plain =>
      exact Nat.le_of_eq (congrArg List.length (itemWithin_plain none width indent plain))
  | table unseen indent id member ih =>
      rw [unlimited_table member, itemWithin_table width member]
      exact Nat.le_trans (singleLine_le fun entry _ => ih entry.2) (singleLine_shortest ..)

/-- A text that is no longer than without the width has only tables that fit. -/
theorem short_fits {width : Int}
    (short : (itemWithin machine (some width) unseen indent value).length ≤
      (itemWithin machine none unseen 0 value).length) :
    Fits machine width unseen indent value := by
  induction unseen, indent, value using item_induction with
  | plain unseen indent value plain => exact fits_plain plain
  | table unseen indent id member ih =>
      have le : ∀ entry ∈ listing (machine.table id),
          (itemWithin machine none (unseen.erase id) 0 entry.2).length ≤
            (itemWithin machine (some width) (unseen.erase id) (indent + 4) entry.2).length :=
        fun entry _ => unlimited_shortest (some width)
      have longer := singleLine_le le
      rw [itemWithin_table (some width) member, unlimited_table member] at short
      have line := layout_short (Nat.le_trans short longer)
      have tight := singleLine_tight le (Nat.le_trans (singleLine_shortest ..) short)
      refine (fits_table member).mpr ⟨?_, fun entry listed => ih entry.2 (tight entry listed)⟩
      rw [unlimited_table member]
      simp only [Display.fits, decide_eq_true_eq] at line
      omega

end Nesting

/-- When a value is shown as it is without any width. -/
theorem item_unlimited_iff (machine : Machine) (width indent : Int) (value : Value) :
    item machine (some width) indent value = item machine none 0 value ↔
      ∀ depth left id, Shows machine (List.range machine.tables.size) value depth left id →
        (itemWithin machine none left 0 (.table id)).length + (indent + 4 * depth) ≤ width := by
  constructor
  · intro same
    exact short_fits (Nat.le_of_eq (congrArg List.length same))
  · exact fits_unlimited

/-- A machine with an empty table inside of another one. -/
def boxed : Machine := { tables := #[⟨[(.integer 1, .table 1)]⟩, ⟨[]⟩] }

/-- A line that fits can hold a table that would not, since on one line the inner table stands only
a brace further in. -/
theorem item_unlimited_boxed :
    ¬ ∀ (machine : Machine) (width indent : Int) (id : Nat),
      item machine (some width) indent (.table id) = item machine none 0 (.table id) ↔
        (item machine none 0 (.table id)).length + indent ≤ width := by
  intro always
  have limited : item boxed (some 4) 0 (.table 0) =
      ['{', ' ', ' ', ' ', '{', ' ', ' ', ' ', '\n', ' ', ' ', ' ', ' ', '}', '\n', '}'] := by cbv
  have unlimited : item boxed none 0 (.table 0) = ['{', '{', '}', '}'] := by cbv
  have same := (always boxed 4 0 0).mpr (by rw [unlimited]; decide)
  rw [limited, unlimited] at same
  exact absurd same (by decide)

/-! Room to spare. -/

/-- A table stands between two more braces for each table around it. -/
theorem shows_length {machine : Machine} {unseen left : List Nat} {value : Value} {depth id : Nat}
    (shows : Shows machine unseen value depth left id) :
    (itemWithin machine none left 0 (.table id)).length + 2 * depth ≤
      (itemWithin machine none unseen 0 value).length := by
  induction shows with
  | itself member => exact Nat.le_refl _
  | @inside unseen left id inner depth entry member listed _ ih =>
      have within := List.single_le_sum (fun _ _ => Nat.zero_le _) _
        (List.mem_map_of_mem (f := fun entry : Key × Value =>
          (itemWithin machine none (unseen.erase id) 0 entry.2).length) listed)
      have sum := items_sum (machine.table id) (itemWithin machine none (unseen.erase id) 0)
      rw [unlimited_table member, singleLine_length, sum]
      omega

/-- Two more columns for each level of tables are room enough. -/
theorem item_unlimited_room {machine : Machine} {width indent : Int} {value : Value} {deepest : Nat}
    (deep : ∀ depth left id, Shows machine (List.range machine.tables.size) value depth left id →
      depth ≤ deepest)
    (room : (item machine none 0 value).length + (indent + 2 * deepest) ≤ width) :
    item machine (some width) indent value = item machine none 0 value := by
  refine fits_unlimited fun depth left id shows => ?_
  have shorter := shows_length shows
  have lower := deep depth left id shows
  rw [item] at room
  omega

end LuaCore.Display
