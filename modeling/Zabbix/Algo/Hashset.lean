import Mathlib.Data.List.Pairwise
import Zabbix.Algo.Numeric
import Zabbix.Library.SlotTable

/-!
# Hash sets

`zbx_hashset_t` of `hashset.c`.  A slot is the chain of its entries from the
head on, and `num_slots` is the length of the slot array.  An entry keeps the
address at which it was allocated, because `zbx_hashset_remove_direct` finds it
by its address.  Records are bytes; the hash and the compare function are those
the caller gave to `zbx_hashset_create`.

Growth happens in place: the chains of the old slots are walked one after
another, and an entry that belongs into another slot is pushed at the head of
that slot, possibly ahead of the walk.
-/

namespace Zabbix.Algo.Hashset

open Numeric Library.SlotTable List Option

/-- The bytes at `data`. -/
abbrev Record := List UInt8

/-- `ZBX_HASHSET_ENTRY_T`. -/
structure Entry where
  address : Nat
  hash : Nat
  data : Record
deriving DecidableEq, Repr

/-- `hash_func` and `compare_func` of `zbx_hashset_t`. -/
structure Callbacks where
  hashFunc : Record → Nat
  compareFunc : Record → Record → Int

/-- `zbx_hashset_t`. -/
structure Hashset where
  slots : List (List Entry)
  numData : Nat
deriving DecidableEq, Repr

/-- All entries, slot by slot. -/
def Hashset.entries (hs : Hashset) : List Entry :=
  hs.slots.flatten

/-- `ZBX_HASHSET_DEFAULT_SLOTS`. -/
def defaultSlots : Nat := 10

def zbxHashsetInitSlots (initSize : Nat) : Hashset :=
  if 0 < initSize then
    { slots := replicate (nextPrime initSize) [], numData := 0 }
  else
    { slots := [], numData := 0 }

def zbxHashsetCreate (initSize : Nat) : Hashset :=
  zbxHashsetInitSlots initSize

/--
The walk of `zbx_hashset_reserve` along one chain.  `kept` are the entries up
to `prev_next`, and the last list starts with `curr_entry`.
-/
def rehashChain (incSlots slot : Nat) :
    List Entry → List Entry → List (List Entry) → List (List Entry)
  | _, [], slots => slots
  | kept, currEntry :: rest, slots =>
    let newSlot := currEntry.hash % incSlots
    if slot ≠ newSlot then
      rehashChain incSlots slot kept rest
        ((slots.set newSlot (currEntry :: chainAt slots newSlot)).set slot (kept ++ rest))
    else
      rehashChain incSlots slot (kept ++ [currEntry]) rest slots

/-- One turn of the loop over the old slots. -/
def rehashSlot (incSlots : Nat) (slots : List (List Entry)) (slot : Nat) : List (List Entry) :=
  rehashChain incSlots slot [] (chainAt slots slot) slots

/--
`zbx_hashset_reserve`.  `CRIT_LOAD_FACTOR` is the text `4/5`, so that the
quotient in the first branch is computed by itself, and is zero.
-/
def zbxHashsetReserve (hs : Hashset) (numSlotsReq : Int) : Hashset :=
  if hs.slots.length = 0 then
    zbxHashsetInitSlots (max (defaultSlots : Int) (numSlotsReq * (2 - 4 / 5) + 1)).toNat
  else if (hs.slots.length : Int) * 4 / 5 ≤ numSlotsReq then
    let incSlots := nextPrime (hs.slots.length * 3 / 2)
    let slots := hs.slots ++ replicate (incSlots - hs.slots.length) []
    { hs with slots := (range hs.slots.length).foldl (rehashSlot incSlots) slots }
  else
    hs

variable (callbacks : Callbacks)

/-- The test on an entry of a chain. -/
def isEqual (data : Record) (entry : Entry) : Bool :=
  entry.hash = callbacks.hashFunc data ∧ callbacks.compareFunc entry.data data = 0

def zbxHashsetSearch (hs : Hashset) (data : Record) : Option Entry :=
  if hs.slots.length = 0 then none
  else
    (chainAt hs.slots (callbacks.hashFunc data % hs.slots.length)).find?
      (isEqual callbacks data)

/--
`zbx_hashset_insert_ext` with the returned entry.  `memory` and `address` are
the contents and the address of the block that `mem_malloc_func` returns; the
first `offset` bytes of the new entry are left as they are there.
-/
def zbxHashsetInsertExt (hs : Hashset) (data : Record) (offset : Nat) (memory : Record)
    (address : Nat) : Hashset × Entry :=
  let hs := if hs.slots.length = 0 then zbxHashsetInitSlots defaultSlots else hs
  let hash := callbacks.hashFunc data
  match (chainAt hs.slots (hash % hs.slots.length)).find? (isEqual callbacks data) with
  | some entry => (hs, entry)
  | none =>
    let hs := zbxHashsetReserve hs (hs.numData + 1)
    let slot := hash % hs.slots.length
    let entry : Entry := ⟨address, hash, memory.take offset ++ data.drop offset⟩
    ({ slots := hs.slots.set slot (entry :: chainAt hs.slots slot),
       numData := hs.numData + 1 }, entry)

def zbxHashsetInsert (hs : Hashset) (data memory : Record) (address : Nat) : Hashset × Entry :=
  zbxHashsetInsertExt callbacks hs data 0 memory address

/-- The first entry that passes a test leaves its chain; `none` when there is no such entry. -/
def unlink (test : Entry → Bool) : List Entry → Option (List Entry)
  | [] => none
  | entry :: rest => if test entry then some rest else (unlink test rest).map (entry :: ·)

def removeFrom (hs : Hashset) (slot : Nat) (test : Entry → Bool) : Hashset :=
  match unlink test (chainAt hs.slots slot) with
  | none => hs
  | some chain => { slots := hs.slots.set slot chain, numData := hs.numData - 1 }

def zbxHashsetRemove (hs : Hashset) (data : Record) : Hashset :=
  if hs.slots.length = 0 then hs
  else
    removeFrom hs (callbacks.hashFunc data % hs.slots.length) (isEqual callbacks data)

/-- `zbx_hashset_remove_direct`, given the entry that the pointer points into. -/
def zbxHashsetRemoveDirect (hs : Hashset) (dataEntry : Entry) : Hashset :=
  if hs.slots.length = 0 then hs
  else
    removeFrom hs (dataEntry.hash % hs.slots.length) (·.address = dataEntry.address)

def zbxHashsetClear (hs : Hashset) : Hashset :=
  { slots := hs.slots.map fun _ => [], numData := 0 }

/-! ## Sound sets -/

/-- The compare function is an equivalence, and equal records have one hash. -/
structure Consistent : Prop where
  refl : ∀ data, callbacks.compareFunc data data = 0
  symm : ∀ first second, callbacks.compareFunc first second = 0 →
    callbacks.compareFunc second first = 0
  trans : ∀ first second third, callbacks.compareFunc first second = 0 →
    callbacks.compareFunc second third = 0 → callbacks.compareFunc first third = 0
  hash : ∀ first second, callbacks.compareFunc first second = 0 →
    callbacks.hashFunc first = callbacks.hashFunc second

/-- Two entries for different records in different blocks. -/
def Apart (first second : Entry) : Prop :=
  callbacks.compareFunc first.data second.data ≠ 0 ∧ first.address ≠ second.address

/-- What holds of a hash set between two calls. -/
structure Sound (hs : Hashset) : Prop where
  slotted : Slotted (fun entry => entry.hash % hs.slots.length) hs.slots
  counted : hs.numData = hs.entries.length
  hashed : ∀ entry ∈ hs.entries, entry.hash = callbacks.hashFunc entry.data
  apart : hs.entries.Pairwise (Apart callbacks)

variable {callbacks} {hs : Hashset}

theorem Apart.symm (consistent : Consistent callbacks) {first second : Entry}
    (apart : Apart callbacks first second) : Apart callbacks second first :=
  ⟨fun same => apart.1 (consistent.symm _ _ same), apart.2.symm⟩

theorem Sound.unique (consistent : Consistent callbacks) (sound : Sound callbacks hs)
    {first second : Entry} (isFirst : first ∈ hs.entries) (isSecond : second ∈ hs.entries)
    (same : callbacks.compareFunc first.data second.data = 0 ∨ first.address = second.address) :
    first = second := by
  by_contra differ
  have symmetric : Std.Symm (Apart callbacks) := ⟨fun _ _ => Apart.symm consistent⟩
  have apart := sound.apart.forall isFirst isSecond differ
  rcases same with equal | oneBlock
  · exact apart.1 equal
  · exact apart.2 oneBlock

theorem entries_eq_nil (noSlots : hs.slots.length = 0) : hs.entries = [] := by
  rw [Hashset.entries, length_eq_zero_iff.mp noSlots]
  rfl

theorem Sound.mem_chain_iff (sound : Sound callbacks hs) {entry : Entry}
    (slots : hs.slots.length ≠ 0) :
    entry ∈ chainAt hs.slots (entry.hash % hs.slots.length) ↔ entry ∈ hs.entries :=
  mem_chainAt_iff sound.slotted (Nat.mod_lt _ (Nat.pos_of_ne_zero slots))

theorem mem_entries {slot : Nat} {entry : Entry} (member : entry ∈ chainAt hs.slots slot) :
    entry ∈ hs.entries :=
  (mem_flatten_of_mem_chainAt member).2

theorem isEqual_iff (sound : Sound callbacks hs) (consistent : Consistent callbacks)
    {data : Record} {entry : Entry} (member : entry ∈ hs.entries) :
    isEqual callbacks data entry = true ↔ callbacks.compareFunc entry.data data = 0 := by
  rw [isEqual, decide_eq_true_iff]
  constructor
  · intro both
    exact both.2
  · intro equal
    exact ⟨(sound.hashed entry member).trans (consistent.hash _ _ equal), equal⟩

theorem search_eq_some_iff (sound : Sound callbacks hs) (consistent : Consistent callbacks)
    {data : Record} {entry : Entry} :
    zbxHashsetSearch callbacks hs data = some entry ↔
      entry ∈ hs.entries ∧ callbacks.compareFunc entry.data data = 0 := by
  rw [zbxHashsetSearch]
  by_cases noSlots : hs.slots.length = 0
  · rw [if_pos noSlots, entries_eq_nil noSlots]
    simp
  rw [if_neg noSlots]
  constructor
  · intro found
    have member := mem_entries (mem_of_find?_eq_some found)
    exact ⟨member, (isEqual_iff sound consistent member).mp (find?_some found)⟩
  · rintro ⟨member, equal⟩
    have isTarget := (isEqual_iff sound consistent member).mpr equal
    have place := (sound.mem_chain_iff noSlots).mpr member
    rw [sound.hashed entry member, consistent.hash _ _ equal] at place
    obtain ⟨other, found⟩ := isSome_iff_exists.mp
      (find?_isSome.mpr ⟨entry, place, isTarget⟩)
    have isOther := mem_entries (mem_of_find?_eq_some found)
    have alsoEqual := (isEqual_iff sound consistent isOther).mp (find?_some found)
    rw [found, sound.unique consistent isOther member
      (Or.inl (consistent.trans _ _ _ alsoEqual (consistent.symm _ _ equal)))]

theorem search_eq_none_iff (sound : Sound callbacks hs) (consistent : Consistent callbacks)
    {data : Record} :
    zbxHashsetSearch callbacks hs data = none ↔
      ∀ entry ∈ hs.entries, callbacks.compareFunc entry.data data ≠ 0 := by
  rw [eq_none_iff_forall_ne_some]
  simp only [ne_eq, search_eq_some_iff sound consistent, not_and]

/-! ## Growth -/

theorem flatten_replicate_nil (count : Nat) :
    (replicate count ([] : List Entry)).flatten = [] :=
  List.flatten_replicate_nil

theorem initSlots_entries (initSize : Nat) : (zbxHashsetInitSlots initSize).entries = [] := by
  rw [zbxHashsetInitSlots]
  split_ifs
  · exact flatten_replicate_nil _
  · rfl

theorem initSlots_length {initSize : Nat} (positive : 0 < initSize) :
    (zbxHashsetInitSlots initSize).slots.length ≠ 0 := by
  rw [zbxHashsetInitSlots, if_pos positive, length_replicate]
  have bound := one_lt_nextPrime initSize
  omega

theorem sound_empty (empty : hs.entries = []) (counted : hs.numData = 0) : Sound callbacks hs where
  slotted := by
    rw [slotted_iff]
    intro slot inside entry member
    have isEntry : entry ∈ hs.entries := mem_flatten_iff.mpr ⟨slot, inside, member⟩
    rw [empty] at isEntry
    cases isEntry
  counted := by rw [empty, counted]; rfl
  hashed := by
    rw [empty]
    intro entry member
    cases member
  apart := by
    rw [empty]
    exact List.Pairwise.nil

theorem initSlots_numData (initSize : Nat) : (zbxHashsetInitSlots initSize).numData = 0 := by
  rw [zbxHashsetInitSlots]
  split_ifs
  · rfl
  · rfl

theorem sound_initSlots (initSize : Nat) : Sound callbacks (zbxHashsetInitSlots initSize) :=
  sound_empty (initSlots_entries initSize) (initSlots_numData initSize)

theorem rehashChain_rehashed {incSlots slot : Nat} (positive : 0 < incSlots)
    (rest kept : List Entry) (slots : List (List Entry)) (sized : slots.length = incSlots)
    (inside : slot < incSlots) (chain : chainAt slots slot = kept ++ rest)
    (right : ∀ entry ∈ kept, entry.hash % incSlots = slot) :
    Rehashed (fun entry => entry.hash % incSlots) slot slots
      (rehashChain incSlots slot kept rest slots) := by
  induction rest generalizing kept slots with
  | nil =>
    rw [rehashChain]
    refine ⟨Moves.refl, ?_⟩
    rw [chain, append_nil]
    exact right
  | cons currEntry rest ih =>
    rw [rehashChain]
    by_cases leaves : slot ≠ currEntry.hash % incSlots
    · rw [if_pos leaves]
      have fits : currEntry.hash % incSlots < slots.length :=
        Nat.lt_of_lt_of_eq (Nat.mod_lt _ positive) sized.symm
      have moved : Moves (fun entry => entry.hash % incSlots) slot slots
          ((slots.set (currEntry.hash % incSlots)
            (currEntry :: chainAt slots (currEntry.hash % incSlots))).set slot (kept ++ rest)) :=
        moves_entry leaves (sized ▸ inside) fits (chain ▸ perm_middle)
          (List.Perm.refl _) rfl
      have after := ih kept _ (moved.length.trans sized)
        (chainAt_set_self (by rw [length_set, sized]; exact inside) _) right
      exact ⟨moved.trans after.toMoves, after.settled⟩
    · rw [if_neg leaves]
      refine ih (kept ++ [currEntry]) slots sized ?_ ?_
      · rw [chain, append_assoc]
        rfl
      · intro entry member
        rcases mem_append.mp member with old | new
        · exact right entry old
        · rw [mem_singleton.mp new]
          exact (not_ne_iff.mp leaves).symm

theorem rehashSlot_rehashed {incSlots slot : Nat} {slots : List (List Entry)}
    (sized : slots.length = incSlots) (inside : slot < incSlots) :
    Rehashed (fun entry => entry.hash % incSlots) slot slots (rehashSlot incSlots slots slot) :=
  rehashChain_rehashed (Nat.lt_of_le_of_lt (Nat.zero_le slot) inside) (chainAt slots slot) []
    slots sized inside rfl fun _ member => nomatch member

/-- `zbx_hashset_reserve` keeps the entries, and gives every one its new slot. -/
theorem reserve_spec (sound : Sound callbacks hs) (consistent : Consistent callbacks)
    (numSlotsReq : Int) :
    Sound callbacks (zbxHashsetReserve hs numSlotsReq) ∧
      (zbxHashsetReserve hs numSlotsReq).entries.Perm hs.entries ∧
      (zbxHashsetReserve hs numSlotsReq).numData = hs.numData ∧
      (zbxHashsetReserve hs numSlotsReq).slots.length ≠ 0 := by
  unfold zbxHashsetReserve
  by_cases noSlots : hs.slots.length = 0
  · rw [if_pos noSlots]
    have none := entries_eq_nil noSlots
    refine ⟨sound_initSlots _, ?_, ?_, initSlots_length ?_⟩
    · rw [initSlots_entries, none]
    · rw [initSlots_numData, sound.counted, none]
      rfl
    · have least : (defaultSlots : Int) ≤ max (defaultSlots : Int)
          (numSlotsReq * (2 - 4 / 5) + 1) := le_max_left _ _
      rw [defaultSlots] at least ⊢
      omega
  rw [if_neg noSlots]
  by_cases crowded : (hs.slots.length : Int) * 4 / 5 ≤ numSlotsReq
  · rw [if_pos crowded]
    have grows : hs.slots.length ≤ nextPrime (hs.slots.length * 3 / 2) :=
      Nat.le_trans (by omega) (le_nextPrime _)
    generalize nextPrime (hs.slots.length * 3 / 2) = incSlots at grows
    obtain ⟨length, permuted, slotted⟩ := slotted_grow grows fun _ slot before sized =>
      rehashSlot_rehashed sized (Nat.lt_of_lt_of_le before grows)
    refine ⟨⟨?_, ?_, ?_, ?_⟩, permuted, rfl, ?_⟩
    · rw [length]
      exact slotted
    · exact sound.counted.trans permuted.length_eq.symm
    · intro entry member
      exact sound.hashed entry (permuted.mem_iff.mp member)
    · exact (permuted.pairwise_iff (fun apart => Apart.symm consistent apart)).mpr sound.apart
    · rw [length]
      omega
  · rw [if_neg crowded]
    exact ⟨sound, List.Perm.refl _, rfl, noSlots⟩

/-! ## Insertion -/

/-- The entry that an insertion allocates. -/
def newEntry (callbacks : Callbacks) (data : Record) (offset : Nat) (memory : Record)
    (address : Nat) : Entry :=
  ⟨address, callbacks.hashFunc data, memory.take offset ++ data.drop offset⟩

/-- A record that is there already is returned, and nothing changes. -/
theorem insertExt_of_found {data memory : Record} {offset address : Nat} {entry : Entry}
    (found : zbxHashsetSearch callbacks hs data = some entry) :
    zbxHashsetInsertExt callbacks hs data offset memory address = (hs, entry) := by
  rw [zbxHashsetSearch] at found
  by_cases noSlots : hs.slots.length = 0
  · rw [if_pos noSlots] at found
    cases found
  rw [if_neg noSlots] at found
  unfold zbxHashsetInsertExt
  simp only [if_neg noSlots, found]

theorem sound_push (sound : Sound callbacks hs) (consistent : Consistent callbacks)
    (slots : hs.slots.length ≠ 0) {entry : Entry}
    (hashed : entry.hash = callbacks.hashFunc entry.data)
    (apart : ∀ other ∈ hs.entries, Apart callbacks entry other) :
    let slot := entry.hash % hs.slots.length
    let after : Hashset :=
      { slots := hs.slots.set slot (entry :: chainAt hs.slots slot), numData := hs.numData + 1 }
    Sound callbacks after ∧ after.entries.Perm (entry :: hs.entries) := by
  intro slot after
  have inside : slot < hs.slots.length := Nat.mod_lt _ (Nat.pos_of_ne_zero slots)
  have permuted : after.entries.Perm (entry :: hs.entries) :=
    flatten_set_of_added inside (List.Perm.refl _)
  have length : after.slots.length = hs.slots.length := length_set
  refine ⟨⟨?_, ?_, ?_, ?_⟩, permuted⟩
  · rw [length]
    apply slotted_set sound.slotted
    intro other member
    rcases mem_cons.mp member with rfl | old
    · rfl
    · exact slotted_iff.mp sound.slotted slot inside other old
  · rw [permuted.length_eq, length_cons]
    exact congrArg Nat.succ sound.counted
  · intro other member
    rcases mem_cons.mp (permuted.mem_iff.mp member) with rfl | old
    · exact hashed
    · exact sound.hashed other old
  · rw [permuted.pairwise_iff fun apart => Apart.symm consistent apart]
    exact pairwise_cons.mpr ⟨apart, sound.apart⟩

theorem insertExt_of_new (sound : Sound callbacks hs) (consistent : Consistent callbacks)
    {data memory : Record} {offset address : Nat}
    (absent : zbxHashsetSearch callbacks hs data = none)
    (fresh : ∀ entry ∈ hs.entries, entry.address ≠ address)
    (copied : callbacks.compareFunc (memory.take offset ++ data.drop offset) data = 0) :
    let inserted := zbxHashsetInsertExt callbacks hs data offset memory address
    inserted.2 = newEntry callbacks data offset memory address ∧ Sound callbacks inserted.1 ∧
      inserted.1.entries.Perm (newEntry callbacks data offset memory address :: hs.entries) := by
  -- the set in which the chain is searched: the same, or one that just got its slots
  obtain ⟨started, isStarted, startedSound, startedEntries, startedSlots, startedNone⟩ :
      ∃ started, started = (if hs.slots.length = 0 then zbxHashsetInitSlots defaultSlots else hs) ∧
        Sound callbacks started ∧ started.entries = hs.entries ∧ started.slots.length ≠ 0 ∧
        zbxHashsetSearch callbacks started data = none := by
    by_cases noSlots : hs.slots.length = 0
    · have empty := initSlots_entries defaultSlots
      refine ⟨_, (if_pos noSlots).symm, sound_initSlots _, ?_, initSlots_length (by decide), ?_⟩
      · rw [empty, entries_eq_nil noSlots]
      · rw [search_eq_none_iff (sound_initSlots _) consistent, empty]
        intro entry member
        cases member
    · exact ⟨_, (if_neg noSlots).symm, sound, rfl, noSlots, absent⟩
  obtain ⟨reservedSound, reservedEntries, -, reservedSlots⟩ :=
    reserve_spec startedSound consistent (started.numData + 1)
  rw [zbxHashsetSearch, if_neg startedSlots] at startedNone
  unfold zbxHashsetInsertExt
  simp only [← isStarted, startedNone]
  refine ⟨rfl, ?_⟩
  have hashed : (newEntry callbacks data offset memory address).hash =
      callbacks.hashFunc (newEntry callbacks data offset memory address).data :=
    (consistent.hash _ _ copied).symm
  obtain ⟨pushed, permuted⟩ := sound_push reservedSound consistent reservedSlots hashed (by
    intro other member
    rw [reservedEntries.mem_iff, startedEntries] at member
    refine ⟨?_, (fresh other member).symm⟩
    intro same
    refine (search_eq_none_iff sound consistent).mp absent other member ?_
    exact consistent.trans _ _ _ (consistent.symm _ _ same) copied)
  rw [startedEntries] at reservedEntries
  exact ⟨pushed, permuted.trans (reservedEntries.cons _)⟩

/-! ## Removal -/

theorem unlink_eq_none_iff {test : Entry → Bool} {chain : List Entry} :
    unlink test chain = none ↔ ∀ entry ∈ chain, test entry = false := by
  induction chain with
  | nil => simp [unlink]
  | cons first rest ih =>
    rw [unlink, forall_mem_cons]
    cases passes : test first with
    | true => simp
    | false => simp [ih]

theorem unlink_eq_some {test : Entry → Bool} {chain after : List Entry}
    (unlinked : unlink test chain = some after) :
    ∃ entry ∈ chain, test entry = true ∧ chain.Perm (entry :: after) := by
  induction chain generalizing after with
  | nil => cases unlinked
  | cons first rest ih =>
    rw [unlink] at unlinked
    cases passes : test first with
    | true =>
      rw [passes, if_pos rfl, some.injEq] at unlinked
      subst unlinked
      exact ⟨first, mem_cons_self, passes, List.Perm.refl _⟩
    | false =>
      rw [passes, if_neg Bool.false_ne_true, map_eq_some_iff] at unlinked
      obtain ⟨shorter, unlinked, rfl⟩ := unlinked
      obtain ⟨entry, member, isTarget, permuted⟩ := ih unlinked
      refine ⟨entry, mem_cons_of_mem first member, isTarget, ?_⟩
      exact (permuted.cons first).trans (List.Perm.swap entry first shorter)

theorem removeFrom_spec (sound : Sound callbacks hs) (consistent : Consistent callbacks)
    (slot : Nat) (test : Entry → Bool) :
    (removeFrom hs slot test = hs ∧ ∀ entry ∈ chainAt hs.slots slot, test entry = false) ∨
      ∃ entry ∈ chainAt hs.slots slot, test entry = true ∧
        Sound callbacks (removeFrom hs slot test) ∧
        hs.entries.Perm (entry :: (removeFrom hs slot test).entries) := by
  unfold removeFrom
  cases unlinked : unlink test (chainAt hs.slots slot) with
  | none => exact Or.inl ⟨rfl, unlink_eq_none_iff.mp unlinked⟩
  | some chain =>
    obtain ⟨entry, member, passes, permuted⟩ := unlink_eq_some unlinked
    refine Or.inr ⟨entry, member, passes, ?_⟩
    have inside := (mem_flatten_of_mem_chainAt member).1
    have removed := flatten_of_removed inside permuted
    dsimp only
    have length : (hs.slots.set slot chain).length = hs.slots.length := length_set
    refine ⟨⟨?_, ?_, ?_, ?_⟩, removed⟩
    · rw [length]
      apply slotted_set sound.slotted
      intro other isOther
      exact slotted_iff.mp sound.slotted slot inside other
        (permuted.mem_iff.mpr (mem_cons_of_mem entry isOther))
    · have counted := sound.counted.trans removed.length_eq
      rw [length_cons] at counted
      exact Nat.sub_eq_of_eq_add counted
    · intro other isOther
      exact sound.hashed other (removed.mem_iff.mpr (mem_cons_of_mem entry isOther))
    · have apart := (removed.pairwise_iff fun apart => Apart.symm consistent apart).mp
        sound.apart
      exact (pairwise_cons.mp apart).2

theorem remove_spec (sound : Sound callbacks hs) (consistent : Consistent callbacks)
    (data : Record) :
    (zbxHashsetRemove callbacks hs data = hs ∧ zbxHashsetSearch callbacks hs data = none) ∨
      ∃ entry, zbxHashsetSearch callbacks hs data = some entry ∧
        Sound callbacks (zbxHashsetRemove callbacks hs data) ∧
        hs.entries.Perm (entry :: (zbxHashsetRemove callbacks hs data).entries) := by
  by_cases noSlots : hs.slots.length = 0
  · rw [zbxHashsetRemove, zbxHashsetSearch, if_pos noSlots, if_pos noSlots]
    exact Or.inl ⟨rfl, rfl⟩
  rw [zbxHashsetRemove, if_neg noSlots]
  rcases removeFrom_spec sound consistent (callbacks.hashFunc data % hs.slots.length)
    (isEqual callbacks data) with ⟨unchanged, absent⟩ | ⟨entry, member, passes, removed⟩
  · refine Or.inl ⟨unchanged, ?_⟩
    rw [zbxHashsetSearch, if_neg noSlots, find?_eq_none]
    intro entry member passes
    rw [absent entry member] at passes
    cases passes
  · have isEntry := mem_entries member
    refine Or.inr ⟨entry, ?_, removed⟩
    rw [search_eq_some_iff sound consistent]
    exact ⟨isEntry, (isEqual_iff sound consistent isEntry).mp passes⟩

theorem removeDirect_spec (sound : Sound callbacks hs) (consistent : Consistent callbacks)
    {dataEntry : Entry} (held : dataEntry ∈ hs.entries) :
    Sound callbacks (zbxHashsetRemoveDirect hs dataEntry) ∧
      hs.entries.Perm (dataEntry :: (zbxHashsetRemoveDirect hs dataEntry).entries) := by
  have slots : hs.slots.length ≠ 0 := by
    intro noSlots
    rw [entries_eq_nil noSlots] at held
    cases held
  rw [zbxHashsetRemoveDirect, if_neg slots]
  rcases removeFrom_spec sound consistent (dataEntry.hash % hs.slots.length)
    (fun entry => entry.address = dataEntry.address) with
    ⟨-, absent⟩ | ⟨entry, member, passes, removed⟩
  · have isOwn := absent dataEntry ((sound.mem_chain_iff slots).mpr held)
    simp at isOwn
  · have same := sound.unique consistent (mem_entries member) held
      (Or.inr (of_decide_eq_true passes))
    exact same ▸ removed

theorem clear_spec (hs : Hashset) :
    Sound callbacks (zbxHashsetClear hs) ∧ (zbxHashsetClear hs).entries = [] := by
  have empty : (zbxHashsetClear hs).entries = [] := by
    rw [Hashset.entries, zbxHashsetClear, map_const', flatten_replicate_nil]
  exact ⟨sound_empty empty rfl, empty⟩

end Zabbix.Algo.Hashset
