import Mathlib.Data.List.AList
import Mathlib.Algebra.Order.BigOperators.Group.List
import Mathlib.Algebra.Order.Group.Nat
import Mathlib.Tactic.Abel

/-!
# Totals over a finite keyed table

A finite table is Mathlib's `AList` at a constant value family.  `total`
adds up a measure of the stored values; the lemmas say how inserting,
replacing and erasing an entry change it, so that a counter kept beside a
table can be compared with the table.
-/

namespace Zabbix.Library.KeyedTable

open List Option

variable {Key Value Amount : Type*}

/-- A finite table from keys to values. -/
abbrev Table (Key Value : Type*) := AList fun _ : Key => Value

variable [AddCommMonoid Amount]

/-- The sum of a measure over all stored values. -/
def total (measure : Value → Amount) (table : Table Key Value) : Amount :=
  (table.entries.map fun entry => measure entry.2).sum

@[simp]
theorem total_empty (measure : Value → Amount) :
    total measure (∅ : Table Key Value) = 0 := by
  simp [total]

theorem total_mono
    {smaller larger : Value → Nat} (bounded : ∀ value, smaller value ≤ larger value)
    (table : Table Key Value) :
    total smaller table ≤ total larger table :=
  sum_le_sum fun entry _ => bounded entry.2

variable [DecidableEq Key]

private theorem sum_kerase_of_dlookup
    (measure : Value → Amount) {key : Key} {value : Value}
    {entries : List (Sigma fun _ : Key => Value)}
    (found : dlookup key entries = some value) :
    (entries.map fun entry => measure entry.2).sum =
      measure value +
        ((kerase key entries).map fun entry => measure entry.2).sum := by
  induction entries with
  | nil => simp at found
  | cons entry rest ih =>
    obtain ⟨entryKey, entryValue⟩ := entry
    by_cases same : key = entryKey
    · subst same
      simp only [dlookup_cons_eq, some.injEq] at found
      subst found
      simp [kerase_cons_eq]
    · rw [dlookup_cons_ne _ _ same] at found
      rw [kerase_cons_ne same]
      simp only [map_cons, sum_cons, ih found]
      exact add_left_comm _ _ _

theorem total_eq_add_erase
    (measure : Value → Amount) {table : Table Key Value}
    {key : Key} {value : Value}
    (found : table.lookup key = some value) :
    total measure table = measure value + total measure (table.erase key) :=
  sum_kerase_of_dlookup measure found

theorem total_insert
    (measure : Value → Amount) (table : Table Key Value)
    (key : Key) (value : Value) :
    total measure (table.insert key value) =
      measure value + total measure (table.erase key) := by
  rw [total, AList.entries_insert, map_cons, sum_cons]
  rfl

theorem erase_of_lookup_eq_none
    {table : Table Key Value} {key : Key}
    (absent : table.lookup key = none) :
    table.erase key = table := by
  apply AList.ext
  exact kerase_of_notMem_keys
    (AList.lookup_eq_none.mp absent)

theorem total_insert_of_absent
    (measure : Value → Amount) {table : Table Key Value}
    {key : Key} (value : Value)
    (absent : table.lookup key = none) :
    total measure (table.insert key value) =
      measure value + total measure table := by
  rw [total_insert, erase_of_lookup_eq_none absent]

theorem total_insert_add
    (measure : Value → Amount) {table : Table Key Value}
    {key : Key} {old : Value} (new : Value)
    (found : table.lookup key = some old) :
    total measure (table.insert key new) + measure old =
      total measure table + measure new := by
  rw [total_insert, total_eq_add_erase measure found]
  abel

theorem lookup_erase_eq
    (table : Table Key Value) (erased key : Key) :
    (table.erase erased).lookup key =
      if key = erased then none else table.lookup key := by
  split_ifs with same
  · subst same
    exact AList.lookup_erase key table
  · exact AList.lookup_erase_ne same

theorem lookup_insert_eq
    (table : Table Key Value) (inserted key : Key) (value : Value) :
    (table.insert inserted value).lookup key =
      if key = inserted then some value else table.lookup key := by
  split_ifs with same
  · subst same
    exact AList.lookup_insert table
  · exact AList.lookup_insert_ne same

/-- A stored value contributes no more than the whole to a natural total. -/
theorem le_total
    (measure : Value → Nat) {table : Table Key Value}
    {key : Key} {value : Value}
    (found : table.lookup key = some value) :
    measure value ≤ total measure table := by
  rw [total_eq_add_erase measure found]
  exact Nat.le_add_right _ _

theorem exists_of_total_ne_zero
    {measure : Value → Nat} {table : Table Key Value}
    (nonzero : total measure table ≠ 0) :
    ∃ key value, table.lookup key = some value ∧ measure value ≠ 0 := by
  by_contra none
  push Not at none
  apply nonzero
  apply sum_eq_zero
  intro amount member
  obtain ⟨entry, entryMember, rfl⟩ := List.mem_map.mp member
  exact none entry.1 entry.2
    (AList.mem_lookup_iff.mpr (by simpa using entryMember))

theorem total_eq_zero_of_isEmpty
    {measure : Value → Amount} {table : Table Key Value}
    (empty : ∀ key, table.lookup key = none) :
    total measure table = 0 := by
  have entriesNil : table.entries = [] := by
    rw [eq_nil_iff_forall_not_mem]
    intro entry member
    have found : table.lookup entry.1 = some entry.2 :=
      AList.mem_lookup_iff.mpr (by simpa using member)
    simp [empty entry.1] at found
  simp [total, entriesNil]

/-! ## Filtering and changing values -/

/-- Change the values of a table, and drop the keys for which there is no new value. -/
def mapTable (change : Key → Value → Option Value) (table : Table Key Value) :
    Table Key Value where
  entries := table.entries.filterMap fun entry =>
    (change entry.1 entry.2).map fun value => ⟨entry.1, value⟩
  nodupKeys := by
    refine nodupKeys_iff_pairwise.mpr ?_
    refine (pairwise_filterMap).mpr ?_
    refine (nodupKeys_iff_pairwise.mp table.nodupKeys).imp ?_
    intro first second different left isLeft right isRight
    obtain ⟨_, -, rfl⟩ := map_eq_some_iff.mp isLeft
    obtain ⟨_, -, rfl⟩ := map_eq_some_iff.mp isRight
    exact different

theorem lookup_mapTable (change : Key → Value → Option Value) (table : Table Key Value)
    (key : Key) :
    (mapTable change table).lookup key = (table.lookup key).bind (change key) := by
  ext value
  rw [← mem_def, AList.mem_lookup_iff, bind_eq_some_iff]
  simp only [mapTable, mem_filterMap, map_eq_some_iff]
  constructor
  · rintro ⟨⟨entryKey, old⟩, member, new, changed, same⟩
    cases same
    exact ⟨old, AList.mem_lookup_iff.mpr member, changed⟩
  · rintro ⟨old, found, changed⟩
    exact ⟨⟨key, old⟩, AList.mem_lookup_iff.mp found, value, changed, rfl⟩

theorem total_mapTable_add {Part : Type*} [AddCommMonoid Part]
    (measure rest : Value → Part) (after : Key → Value → Part)
    (change : Key → Value → Option Value)
    (table : Table Key Value)
    (balanced : ∀ key value, table.lookup key = some value →
      (change key value).elim 0 measure + after key value = rest value) :
    total measure (mapTable change table) +
        (table.entries.map fun entry => after entry.1 entry.2).sum =
      total rest table := by
  have steps (entries : List (Sigma fun _ : Key => Value))
      (each : ∀ entry ∈ entries,
        (change entry.1 entry.2).elim 0 measure + after entry.1 entry.2 = rest entry.2) :
      ((entries.filterMap fun entry =>
          (change entry.1 entry.2).map fun value =>
            (⟨entry.1, value⟩ : Sigma fun _ : Key => Value)).map
            fun entry => measure entry.2).sum +
          (entries.map fun entry => after entry.1 entry.2).sum =
        (entries.map fun entry => rest entry.2).sum := by
    induction entries with
    | nil => simp
    | cons entry others ih =>
      have later := ih fun other member => each other (mem_cons_of_mem _ member)
      have first := each entry mem_cons_self
      cases changed : change entry.1 entry.2 with
      | none =>
        simp only [changed, elim_none] at first
        simp only [filterMap_cons, changed, map_none, map_cons, sum_cons, ← first, ← later]
        abel
      | some value =>
        simp only [changed, elim_some] at first
        simp only [filterMap_cons, changed, map_some, map_cons, sum_cons, ← first, ← later]
        abel
  exact steps table.entries fun entry member =>
    balanced entry.1 entry.2 (AList.mem_lookup_iff.mpr member)

end Zabbix.Library.KeyedTable
