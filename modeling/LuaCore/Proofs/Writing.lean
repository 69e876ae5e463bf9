import Mathlib.Data.Set.Card
import LuaCore.Proofs.Copying

/-!
Tables by what was written to them. A key reads as what was last written to it. It is there if that
is not nil, and the keys that are there stand in the order in which they last came to be there.
Nothing else of the writes shows, and all of this does, so that it tells one table from any other.
-/

namespace LuaCore.Table

/-! One write. -/

theorem lookup_entry (entry : Key × Value) (entries : List (Key × Value)) (key : Key) :
    (entry :: entries).lookup key = if key = entry.1 then some entry.2 else entries.lookup key := by
  rw [List.lookup_cons]
  by_cases asked : key = entry.1
  · rw [if_pos asked, beq_iff_eq.mpr asked]
  · rw [if_neg asked, beq_false_of_ne asked]

theorem lookup_put (key : Key) (value : Value) (entries : List (Key × Value)) (other : Key) :
    (put key value entries).lookup other =
      if other = key then some value else entries.lookup other := by
  induction entries with
  | nil => exact lookup_entry (key, value) [] other
  | cons entry entries ih =>
      rw [put]
      by_cases here : entry.1 = key
      · rw [if_pos here, lookup_entry, lookup_entry, here]
        by_cases asked : other = key <;> simp [asked]
      · rw [if_neg here, lookup_entry, lookup_entry, ih]
        by_cases asked : other = key
        · simp [asked, Ne.symm here]
        · simp [asked]

theorem lookup_erase (key : Key) (entries : List (Key × Value)) (other : Key) :
    (erase key entries).lookup other = if other = key then none else entries.lookup other := by
  induction entries with
  | nil => simp [erase]
  | cons entry entries ih =>
      rw [erase] at ih ⊢
      by_cases here : entry.1 = key
      · rw [List.filter_cons_of_neg (by simp [here]), ih, lookup_entry, here]
        by_cases asked : other = key <;> simp [asked]
      · rw [List.filter_cons_of_pos (by simp [here]), lookup_entry, lookup_entry, ih]
        by_cases asked : other = key
        · simp [asked, Ne.symm here]
        · simp [asked]

theorem get_set (table : Table) (key : Key) (value : Value) (other : Key) :
    (table.set key value).get other = if other = key then value else table.get other := by
  cases value with
  | nil =>
      change ((erase key table.entries).lookup other).getD .nil = _
      rw [lookup_erase]
      by_cases asked : other = key <;> simp [asked, get]
  | _ =>
      change ((put key _ table.entries).lookup other).getD .nil = _
      rw [lookup_put]
      by_cases asked : other = key <;> simp [asked, get]

/-- A key that is there is overwritten in its place. -/
theorem put_present {key : Key} (value : Value) {entries : List (Key × Value)}
    (distinct : (entries.map Prod.fst).Nodup) (present : key ∈ entries.map Prod.fst) :
    put key value entries =
      entries.map fun entry => if entry.1 = key then (key, value) else entry := by
  induction entries with
  | nil => exact absurd present List.not_mem_nil
  | cons entry entries ih =>
      obtain ⟨fresh, distinct'⟩ := List.nodup_cons.mp distinct
      by_cases here : entry.1 = key
      · have others : (entries.map fun other => if other.1 = key then (key, value) else other) =
            entries := by
          refine (List.map_congr_left fun other member => ?_).trans (List.map_id' entries)
          refine if_neg fun same => fresh ?_
          rw [here, ← same]
          exact List.mem_map_of_mem member
        rw [put, if_pos here, List.map_cons, if_pos here, others, here]
      · have behind := (List.mem_cons.mp present).resolve_left (Ne.symm here)
        rw [put, if_neg here, List.map_cons, if_neg here, ih distinct' behind]

theorem remove_absent {table : Table} {key : Key} (absent : key ∉ table.keys) :
    table.set key .nil = table := by
  have kept : erase key table.entries = table.entries := by
    refine List.filter_eq_self.mpr fun entry member => bne_iff_ne.mpr ?_
    rintro rfl
    exact absent (List.mem_map_of_mem member)
  exact congrArg Table.mk kept

theorem size_distinct {table : Table} (distinct : table.keys.Nodup) :
    table.size = {key | table.contains key}.ncard := by
  have same : {key | table.contains key} = (table.keys.toFinset : Set Key) := by
    ext key
    rw [Set.mem_ofPred_eq, contains_iff, Finset.mem_coe, List.mem_toFinset]
  rw [same, Set.ncard_coe_finset, List.toFinset_card_of_nodup distinct, keys, List.length_map, size]

/-- The entries are what the keys read as, in their order. -/
theorem entries_keys {table : Table} (distinct : table.keys.Nodup) :
    table.entries = table.keys.map fun key => (key, table.get key) := by
  have reads : ∀ entry ∈ table.entries, (entry.1, table.get entry.1) = entry := by
    intro entry member
    rw [get_mem distinct member]
  rw [keys, List.map_map]
  exact ((List.map_congr_left reads).trans (List.map_id' table.entries)).symm

/-! All writes. -/

/-- What was written last to a key, which is nil if nothing was. -/
def lastWrite (writes : List (Key × Value)) (key : Key) : Value :=
  (writes.reverse.lookup key).getD .nil

/-- The key came to be there by the write with that number and was there from then on. -/
structure Arrives (writes : List (Key × Value)) (key : Key) (n : Nat) : Prop where
  within : n < writes.length
  absent : lastWrite (writes.take n) key = .nil
  stays : ∀ m, n < m → m ≤ writes.length → lastWrite (writes.take m) key ≠ .nil

/-- The table is what the writes, in their order, make of an empty one. -/
structure Written (writes : List (Key × Value)) (table : Table) : Prop where
  distinct : table.keys.Nodup
  reads : ∀ key, table.get key = lastWrite writes key
  present : ∀ key, key ∈ table.keys ↔ lastWrite writes key ≠ .nil
  arrived : ∀ key ∈ table.keys, ∃ n, Arrives writes key n
  order : table.keys.Pairwise fun first second =>
    ∀ n m, Arrives writes first n → Arrives writes second m → n < m

section

variable {writes : List (Key × Value)} {key : Key}

theorem lastWrite_append (writes : List (Key × Value)) (write : Key × Value) (key : Key) :
    lastWrite (writes ++ [write]) key =
      if key = write.1 then write.2 else lastWrite writes key := by
  rw [lastWrite, List.reverse_append, List.reverse_singleton, List.singleton_append,
    lookup_entry]
  by_cases asked : key = write.1
  · rw [if_pos asked, if_pos asked]
    rfl
  · rw [if_neg asked, if_neg asked]
    rfl

theorem arrives_unique {n m : Nat} (first : Arrives writes key n) (second : Arrives writes key m) :
    n = m := by
  rcases Nat.lt_trichotomy n m with earlier | same | later
  · exact absurd second.absent (first.stays m earlier (Nat.le_of_lt second.within))
  · exact same
  · exact absurd first.absent (second.stays n later (Nat.le_of_lt first.within))

/-- A further write that leaves the key there does not change how it came to be there. -/
theorem arrives_append {n : Nat} (arrives : Arrives writes key n) {write : Key × Value}
    (present : lastWrite (writes ++ [write]) key ≠ .nil) :
    Arrives (writes ++ [write]) key n := by
  obtain ⟨within, absent, stays⟩ := arrives
  refine ⟨?_, ?_, ?_⟩
  · rw [List.length_append]
    omega
  · rwa [List.take_append_of_le_length (Nat.le_of_lt within)]
  · intro m above below
    rcases Nat.lt_or_ge writes.length m with whole | part
    · rwa [List.take_of_length_le (by rw [List.length_append]; exact whole)]
    · rw [List.take_append_of_le_length part]
      exact stays m above part

theorem arrives_last {write : Key × Value} (absent : lastWrite writes key = .nil)
    (present : lastWrite (writes ++ [write]) key ≠ .nil) :
    Arrives (writes ++ [write]) key writes.length := by
  refine ⟨?_, ?_, ?_⟩
  · rw [List.length_append]
    exact Nat.lt_succ_self _
  · rwa [List.take_left]
  · intro m above _
    rwa [List.take_of_length_le (by rw [List.length_append]; exact above)]

theorem written_nil : Written [] {} := by
  refine ⟨List.nodup_nil, fun _ => rfl, ?_, ?_, .nil⟩
  · intro key
    exact iff_of_false List.not_mem_nil (fun present => present rfl)
  · intro key member
    cases member

/-- The order of keys that were there before. -/
theorem order_append {table : Table} (written : Written writes table) {write : Key × Value}
    {keys : List Key} (sublist : keys.Sublist table.keys)
    (present : ∀ key ∈ keys, lastWrite (writes ++ [write]) key ≠ .nil) :
    keys.Pairwise fun first second => ∀ n m, Arrives (writes ++ [write]) first n →
      Arrives (writes ++ [write]) second m → n < m := by
  refine (written.order.sublist sublist).imp_of_mem ?_
  intro first second member member' before n m arrives arrives'
  obtain ⟨n', old⟩ := written.arrived first (sublist.subset member)
  obtain ⟨m', old'⟩ := written.arrived second (sublist.subset member')
  obtain rfl := arrives_unique arrives (arrives_append old (present first member))
  obtain rfl := arrives_unique arrives' (arrives_append old' (present second member'))
  exact before n m old old'

/-- A key that was not there arrives behind all others. -/
theorem order_last {table : Table} (written : Written writes table) {write : Key × Value}
    (absent : write.1 ∉ table.keys) (nonnil : write.2 ≠ .nil) :
    (table.keys ++ [write.1]).Pairwise fun first second =>
      ∀ n m, Arrives (writes ++ [write]) first n → Arrives (writes ++ [write]) second m →
        n < m := by
  have stays : ∀ key ∈ table.keys, lastWrite (writes ++ [write]) key ≠ .nil := by
    intro key member
    have other : key ≠ write.1 := fun same => absent (same ▸ member)
    rw [lastWrite_append, if_neg other]
    exact (written.present key).mp member
  have added : lastWrite (writes ++ [write]) write.1 ≠ .nil := by
    rwa [lastWrite_append, if_pos rfl]
  have last := arrives_last (not_not.mp (mt (written.present write.1).mpr absent)) added
  refine List.pairwise_append.mpr
    ⟨order_append written (List.Sublist.refl _) stays, List.pairwise_singleton .., ?_⟩
  intro first member second new n m arrives arrives'
  obtain rfl := List.mem_singleton.mp new
  obtain ⟨n', old⟩ := written.arrived first member
  obtain rfl := arrives_unique arrives (arrives_append old (stays first member))
  obtain rfl := arrives_unique arrives' last
  exact old.within

theorem written_set {table : Table} (written : Written writes table) (write : Key × Value) :
    Written (writes ++ [write]) (table.set write.1 write.2) := by
  have present : ∀ key, key ∈ (table.set write.1 write.2).keys ↔
      lastWrite (writes ++ [write]) key ≠ .nil := by
    intro key
    rw [keys_set_iff, lastWrite_append]
    by_cases asked : key = write.1
    · rw [if_pos asked, if_pos asked]
    · rw [if_neg asked, if_neg asked, written.present]
  refine ⟨set_distinct written.distinct .., ?_, present, ?_, ?_⟩
  · intro key
    rw [get_set, lastWrite_append, written.reads]
  · intro key member
    have stays := (present key).mp member
    by_cases before : key ∈ table.keys
    · obtain ⟨n, old⟩ := written.arrived key before
      exact ⟨n, arrives_append old stays⟩
    · have absent := not_not.mp (mt (written.present key).mpr before)
      exact ⟨writes.length, arrives_last absent stays⟩
  · have stays : ∀ key ∈ (table.set write.1 write.2).keys,
        lastWrite (writes ++ [write]) key ≠ .nil := fun key => (present key).mp
    by_cases nonnil : write.2 = .nil
    · rw [nonnil, keys_set_nil] at stays ⊢
      exact order_append written List.filter_sublist stays
    · rw [keys_set table write.1 nonnil] at stays ⊢
      by_cases there : write.1 ∈ table.keys
      · rw [if_pos there] at stays ⊢
        exact order_append written (List.Sublist.refl _) stays
      · rw [if_neg there]
        exact order_last written there nonnil

end

/-- What a table is after any writes to an empty one. -/
theorem setAll_written (writes : List (Key × Value)) :
    Written writes (({} : Table).setAll writes) := by
  induction writes using List.reverseRecOn with
  | nil => exact written_nil
  | append_singleton writes write ih =>
      rw [setAll, List.foldl_append]
      exact written_set ih write

/-- The writes tell all there is to a table. -/
theorem written_unique {writes : List (Key × Value)} {table other : Table}
    (written : Written writes table) (written' : Written writes other) : table = other := by
  have members : table.keys.Perm other.keys :=
    (List.perm_ext_iff_of_nodup written.distinct written'.distinct).mpr fun key =>
      (written.present key).trans (written'.present key).symm
  have same : table.keys = other.keys := by
    refine members.eq_of_pairwise ?_ written.order written'.order
    intro first second member member' before behind
    obtain ⟨n, arrives⟩ := written.arrived first member
    obtain ⟨m, arrives'⟩ := written'.arrived second member'
    exact absurd (before n m arrives arrives') (Nat.lt_asymm (behind m n arrives' arrives))
  have entries : table.entries = other.entries := by
    rw [entries_keys written.distinct, entries_keys written'.distinct, same]
    exact List.map_congr_left fun key _ => by rw [written.reads, written'.reads]
  exact congrArg Table.mk entries

/-- What a table tells of the writes to it, and how it takes another one. -/
structure Records (writes : List (Key × Value)) (table : Table) : Prop
    extends Written writes table where
  contained : ∀ key, table.contains key ↔ lastWrite writes key ≠ .nil
  size : table.size = {key | table.contains key}.ncard
  entries : table.entries = table.keys.map fun key => (key, lastWrite writes key)
  /-- A key that is there keeps its place. -/
  overwrite : ∀ key value, table.contains key → value ≠ .nil →
    (table.set key value).entries =
      table.entries.map fun entry => if entry.1 = key then (key, value) else entry
  /-- A key that is removed and written to again goes behind all others. -/
  again : ∀ key value, value ≠ .nil →
    ((table.set key .nil).set key value).entries =
      table.entries.filter (fun entry => entry.1 != key) ++ [(key, value)]
  /-- To remove a key that is not there changes nothing. -/
  remove : ∀ key, ¬ table.contains key → table.set key .nil = table

theorem written_records {writes : List (Key × Value)} {table : Table}
    (written : Written writes table) : Records writes table where
  toWritten := written
  contained key := contains_iff.trans (written.present key)
  size := size_distinct written.distinct
  entries := by
    rw [entries_keys written.distinct]
    exact List.map_congr_left fun key _ => by rw [written.reads]
  overwrite key value present nonnil := by
    rw [set_nonnil table key nonnil]
    exact put_present value written.distinct (contains_iff.mp present)
  again key value nonnil := by
    have absent : key ∉ (table.set key .nil).keys := by
      rw [keys_set_iff, if_pos rfl]
      exact fun differs => differs rfl
    exact congrArg Table.entries (set_absent absent nonnil)
  remove key absent := remove_absent (mt contains_iff.mpr absent)

/-- A table records writes just if it is what they make of an empty one: each key reads as its last
write, the keys that read as anything but nil are there and are counted, and they are listed in the
order in which they last came to be there. -/
theorem records_iff (writes : List (Key × Value)) (table : Table) :
    Records writes table ↔ table = ({} : Table).setAll writes := by
  constructor
  · intro records
    exact written_unique records.toWritten (setAll_written writes)
  · rintro rfl
    exact written_records (setAll_written writes)

/-- The first key stays where it is when it is overwritten, and the second one, which is removed
before it is written to again, goes behind the third. -/
example : (({} : Table).setAll [(.name "a", .boolean true), (.name "b", .boolean true),
    (.integer 1, .boolean true), (.name "b", .nil), (.name "c", .nil), (.name "a", .boolean false),
    (.name "b", .boolean false)]).entries =
      [(.name "a", .boolean false), (.integer 1, .boolean true), (.name "b", .boolean false)] := by
  decide

end LuaCore.Table
