import Zabbix.Algo.Hashset

/-!
# Hash sets over all runs

The purpose of a hash set is a finite set of records: `Held` says which entry,
if any, stands for a record.  `hashset_refines` compares the two after any
sequence of calls on a set of any initial size.

The conditions of a call are those of its caller and of the allocator: a block
that `mem_malloc_func` returns is not in use, `zbx_hashset_remove_direct` is
given an entry of the set, and the bytes that `zbx_hashset_insert_ext` does not
copy are not among those that the compare function looks at.
-/

namespace Zabbix.Algo.HashsetRuns

open Hashset Numeric Library.SlotTable List

/-- The calls on a hash set. -/
inductive Call where
  | insertExt (data : Record) (offset : Nat) (memory : Record) (address : Nat)
  | reserve (numSlotsReq : Int)
  | search (data : Record)
  | remove (data : Record)
  | removeDirect (dataEntry : Entry)
  | clear
deriving DecidableEq, Repr

variable (callbacks : Callbacks)

/-- The set after a call. -/
def perform (hs : Hashset) : Call → Hashset
  | .insertExt data offset memory address =>
    (zbxHashsetInsertExt callbacks hs data offset memory address).1
  | .reserve numSlotsReq => zbxHashsetReserve hs numSlotsReq
  | .search _ => hs
  | .remove data => zbxHashsetRemove callbacks hs data
  | .removeDirect dataEntry => zbxHashsetRemoveDirect hs dataEntry
  | .clear => zbxHashsetClear hs

/-- What the caller and the allocator guarantee for a call. -/
def Allowed (hs : Hashset) : Call → Prop
  | .insertExt data offset memory address =>
    (∀ entry ∈ hs.entries, entry.address ≠ address) ∧
      callbacks.compareFunc (memory.take offset ++ data.drop offset) data = 0
  | .removeDirect dataEntry => dataEntry ∈ hs.entries
  | _ => True

/-- The set after a sequence of calls. -/
def run (hs : Hashset) (calls : List Call) : Hashset :=
  calls.foldl (perform callbacks) hs

/-- Every call of a sequence is allowed where it is made. -/
def AllowedRun (hs : Hashset) : List Call → Prop
  | [] => True
  | call :: calls => Allowed callbacks hs call ∧ AllowedRun (perform callbacks hs call) calls

/-- A set of records: the entry that stands for a record. -/
abbrev Held := Record → Option Entry

/-- What a call does to a set of records. -/
def Held.perform (held : Held) : Call → Held
  | .insertExt data offset memory address =>
    if (held data).isSome then held
    else fun other =>
      if callbacks.compareFunc data other = 0 then
        some (newEntry callbacks data offset memory address)
      else held other
  | .reserve _ => held
  | .search _ => held
  | .remove data => fun other => if callbacks.compareFunc data other = 0 then none else held other
  | .removeDirect dataEntry => fun other =>
    if held other = some dataEntry then none else held other
  | .clear => fun _ => none

/-- The records inserted by a sequence of calls and not removed since. -/
def heldAfter (calls : List Call) : Held :=
  calls.foldl (Held.perform callbacks) fun _ => none

/-! ## One call -/

variable {callbacks} {hs after : Hashset} {held : Held}

/-- A hash set and the set of records it stands for. -/
structure Represents (callbacks : Callbacks) (hs : Hashset) (held : Held) : Prop where
  sound : Sound callbacks hs
  search : ∀ data, zbxHashsetSearch callbacks hs data = held data

variable (consistent : Consistent callbacks)

include consistent

theorem search_of_added (sound : Sound callbacks hs)
    (soundAfter : Sound callbacks after) {entry : Entry}
    (added : after.entries.Perm (entry :: hs.entries)) (data : Record) :
    zbxHashsetSearch callbacks after data =
      if callbacks.compareFunc entry.data data = 0 then some entry
      else zbxHashsetSearch callbacks hs data := by
  split_ifs with equal
  · rw [search_eq_some_iff soundAfter consistent]
    exact ⟨added.mem_iff.mpr mem_cons_self, equal⟩
  · apply Option.ext
    intro other
    rw [search_eq_some_iff soundAfter consistent,
      search_eq_some_iff sound consistent, added.mem_iff, mem_cons]
    constructor
    · rintro ⟨rfl | member, equalOther⟩
      · exact absurd equalOther equal
      · exact ⟨member, equalOther⟩
    · rintro ⟨member, equalOther⟩
      exact ⟨Or.inr member, equalOther⟩

theorem search_of_removed (sound : Sound callbacks hs)
    (soundAfter : Sound callbacks after) {entry : Entry}
    (removed : hs.entries.Perm (entry :: after.entries)) (data : Record) :
    zbxHashsetSearch callbacks after data =
      if callbacks.compareFunc entry.data data = 0 then none
      else zbxHashsetSearch callbacks hs data := by
  rw [search_of_added consistent soundAfter sound removed]
  split_ifs with equal
  · rw [search_eq_none_iff soundAfter consistent]
    intro other member equalOther
    have apart := (removed.pairwise_iff fun apart => Apart.symm consistent apart).mp sound.apart
    exact ((pairwise_cons.mp apart).1 other member).1
      (consistent.trans _ _ _ equal (consistent.symm _ _ equalOther))
  · rfl

theorem compare_congr {first second : Record}
    (equal : callbacks.compareFunc first second = 0) (data : Record) :
    callbacks.compareFunc first data = 0 ↔ callbacks.compareFunc second data = 0 := by
  constructor
  · intro equalFirst
    exact consistent.trans _ _ _ (consistent.symm _ _ equal) equalFirst
  · intro equalSecond
    exact consistent.trans _ _ _ equal equalSecond

variable (represents : Represents callbacks hs held)

include represents

theorem Represents.insertExt {data memory : Record} {offset address : Nat}
    (allowed : Allowed callbacks hs (.insertExt data offset memory address)) :
    Represents callbacks (zbxHashsetInsertExt callbacks hs data offset memory address).1
        (Held.perform callbacks held (.insertExt data offset memory address)) ∧
      Held.perform callbacks held (.insertExt data offset memory address) data =
        some (zbxHashsetInsertExt callbacks hs data offset memory address).2 := by
  obtain ⟨sound, search⟩ := represents
  rw [Held.perform]
  cases found : zbxHashsetSearch callbacks hs data with
  | some entry =>
    rw [insertExt_of_found found, ← search data, found, Option.isSome_some, if_pos rfl]
    exact ⟨⟨sound, search⟩, (search data).symm.trans found⟩
  | none =>
    obtain ⟨isNew, soundAfter, added⟩ :=
      insertExt_of_new sound consistent found allowed.1 allowed.2
    rw [← search data, found, if_neg (by simp)]
    refine ⟨⟨soundAfter, ?_⟩, ?_⟩
    · intro other
      rw [search_of_added consistent sound soundAfter added, search other]
      have alike := compare_congr consistent allowed.2 other
      exact if_congr alike rfl rfl
    · rw [if_pos (consistent.refl data), isNew]

theorem Represents.remove (data : Record) :
    Represents callbacks (zbxHashsetRemove callbacks hs data)
      (Held.perform callbacks held (.remove data)) := by
  obtain ⟨sound, search⟩ := represents
  rcases remove_spec sound consistent data with
    ⟨unchanged, absent⟩ | ⟨entry, found, soundAfter, removed⟩
  · rw [unchanged]
    refine ⟨sound, ?_⟩
    intro other
    rw [Held.perform]
    dsimp only
    split_ifs with equal
    · rw [search_eq_none_iff sound consistent] at absent ⊢
      intro entry member equalOther
      exact absent entry member
        (consistent.trans _ _ _ equalOther (consistent.symm _ _ equal))
    · exact search other
  · refine ⟨soundAfter, ?_⟩
    intro other
    have equal := ((search_eq_some_iff sound consistent).mp found).2
    rw [search_of_removed consistent sound soundAfter removed, search other]
    exact if_congr (compare_congr consistent equal other) rfl rfl

theorem Represents.removeDirect {dataEntry : Entry}
    (isEntry : dataEntry ∈ hs.entries) :
    Represents callbacks (zbxHashsetRemoveDirect hs dataEntry)
      (Held.perform callbacks held (.removeDirect dataEntry)) := by
  obtain ⟨sound, search⟩ := represents
  obtain ⟨soundAfter, removed⟩ := removeDirect_spec sound consistent isEntry
  refine ⟨soundAfter, ?_⟩
  intro other
  rw [search_of_removed consistent sound soundAfter removed, search other]
  refine if_congr ?_ rfl rfl
  rw [← search other, search_eq_some_iff sound consistent]
  exact (and_iff_right isEntry).symm

/-- Every call does to the hash set what it does to the set of records. -/
theorem represents_perform {call : Call}
    (allowed : Allowed callbacks hs call) :
    Represents callbacks (perform callbacks hs call) (Held.perform callbacks held call) := by
  cases call with
  | insertExt data offset memory address => exact (represents.insertExt consistent allowed).1
  | reserve numSlotsReq =>
    obtain ⟨sound, permuted, -, -⟩ := reserve_spec represents.sound consistent numSlotsReq
    refine ⟨sound, ?_⟩
    intro data
    refine Eq.trans ?_ (represents.search data)
    apply Option.ext
    intro entry
    rw [perform, search_eq_some_iff sound consistent,
      search_eq_some_iff represents.sound consistent, permuted.mem_iff]
  | search data => exact represents
  | remove data => exact represents.remove consistent data
  | removeDirect dataEntry => exact represents.removeDirect consistent allowed
  | clear =>
    obtain ⟨sound, empty⟩ := @clear_spec callbacks hs
    refine ⟨sound, ?_⟩
    intro data
    rw [perform, Held.perform, search_eq_none_iff sound consistent, empty]
    intro entry member
    cases member

/-! ## All runs -/

theorem represents_run {calls : List Call}
    (allowed : AllowedRun callbacks hs calls) :
    Represents callbacks (run callbacks hs calls) (calls.foldl (Held.perform callbacks) held) := by
  induction calls generalizing hs held with
  | nil => exact represents
  | cons call calls ih =>
    exact ih (represents_perform consistent represents allowed.1) allowed.2

omit represents

theorem represents_create (initSize : Nat) :
    Represents callbacks (zbxHashsetCreate initSize) fun _ => none := by
  have sound : Sound callbacks (zbxHashsetCreate initSize) := sound_initSlots initSize
  refine ⟨sound, ?_⟩
  intro data
  rw [search_eq_none_iff sound consistent, zbxHashsetCreate, initSlots_entries]
  intro entry member
  cases member

omit consistent

/--
After any sequence of calls a hash set holds the records inserted and not
removed since: a search finds the entry of an equal record or nothing, no two
entries are equal, they are counted, and each stands in the slot of its hash.
An insertion returns what a search finds after it, and changes nothing when an
equal record is there; growing loses and duplicates no entry.
-/
theorem hashset_refines (consistent : Consistent callbacks) (initSize : Nat)
    (calls : List Call) (allowed : AllowedRun callbacks (zbxHashsetCreate initSize) calls) :
    let hs := run callbacks (zbxHashsetCreate initSize) calls
    let held := heldAfter callbacks calls
    (∀ data, zbxHashsetSearch callbacks hs data = held data) ∧
      (∀ entry, entry ∈ hs.entries ↔ ∃ data, held data = some entry) ∧
      hs.entries.Pairwise (Apart callbacks) ∧
      hs.numData = hs.entries.length ∧
      (∀ slot chain, hs.slots[slot]? = some chain →
        ∀ entry ∈ chain, entry.hash % hs.slots.length = slot) ∧
      (∀ data offset memory address entry, held data = some entry →
        zbxHashsetInsertExt callbacks hs data offset memory address = (hs, entry)) ∧
      (∀ data offset memory address,
        Allowed callbacks hs (.insertExt data offset memory address) →
        heldAfter callbacks (calls ++ [.insertExt data offset memory address]) data =
          some (zbxHashsetInsertExt callbacks hs data offset memory address).2) ∧
      (∀ numSlotsReq, (zbxHashsetReserve hs numSlotsReq).entries.Perm hs.entries ∧
        (zbxHashsetReserve hs numSlotsReq).numData = hs.numData) := by
  intro hs held
  have represents : Represents callbacks hs held :=
    represents_run consistent (represents_create consistent initSize) allowed
  obtain ⟨sound, search⟩ := represents
  refine ⟨search, ?_, sound.apart, sound.counted, sound.slotted, ?_, ?_, ?_⟩
  · intro entry
    constructor
    · intro member
      refine ⟨entry.data, ?_⟩
      rw [← search, search_eq_some_iff sound consistent]
      exact ⟨member, consistent.refl _⟩
    · rintro ⟨data, found⟩
      rw [← search, search_eq_some_iff sound consistent] at found
      exact found.1
  · intro data offset memory address entry found
    exact insertExt_of_found ((search data).trans found)
  · intro data offset memory address allowedCall
    rw [heldAfter, foldl_append]
    exact (Represents.insertExt consistent ⟨sound, search⟩ allowedCall).2
  · intro numSlotsReq
    have reserved := reserve_spec sound consistent numSlotsReq
    exact ⟨reserved.2.1, reserved.2.2.1⟩

/-- Records of equal bytes, hashed by their length. -/
def byteCallbacks : Callbacks where
  hashFunc := List.length
  compareFunc first second := if first = second then 0 else 1

theorem byteCallbacks_consistent : Consistent byteCallbacks where
  refl := by simp [byteCallbacks]
  symm := by simp [byteCallbacks, eq_comm]
  trans := by
    intro first second third
    simp only [byteCallbacks]
    split_ifs <;> simp_all
  hash := by
    intro first second
    simp only [byteCallbacks]
    split_ifs with same
    · intro _
      rw [same]
    · simp

/-- Two records of one slot, of which the second is removed by its address. -/
theorem hashset_refines_two :
    let calls : List Call :=
      [.insertExt [7] 0 [] 100, .insertExt [8] 0 [] 200, .removeDirect ⟨200, 1, [8]⟩]
    let hs := run byteCallbacks (zbxHashsetCreate 5) calls
    zbxHashsetSearch byteCallbacks hs [7] = some ⟨100, 1, [7]⟩ ∧
      zbxHashsetSearch byteCallbacks hs [8] = none := by
  intro calls hs
  have five : nextPrime 5 = 5 := by
    rw [nextPrime, if_pos]
    rw [isPrime, if_neg (by decide), if_neg (by decide), if_neg (by decide), isPrimeFrom]
    rfl
  have allowed : AllowedRun byteCallbacks (zbxHashsetCreate 5) calls := by
    rw [zbxHashsetCreate, zbxHashsetInitSlots, five, if_pos (by decide)]
    exact ⟨⟨by decide, by decide⟩, ⟨by decide, by decide⟩, by unfold Allowed; decide, trivial⟩
  have refined := hashset_refines byteCallbacks_consistent 5 calls allowed
  exact ⟨(refined.1 [7]).trans (by decide), (refined.1 [8]).trans (by decide)⟩

end Zabbix.Algo.HashsetRuns
