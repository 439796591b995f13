import Zabbix.Library.Transition
import Zabbix.Algo.HashsetRuns

/-!
# Hash sets whose allocations fail

The functions of `hashset.c` with the answers of `mem_malloc_func` and `mem_realloc_func`.  The
number of slots is set before the array of slots is allocated.
-/

namespace Zabbix.Algo.HashsetAllocation

open List Option

open Hashset (Callbacks Entry Record defaultSlots isEqual newEntry rehashSlot
  rehashSlot_rehashed unlink unlink_eq_some)
open Numeric Library.SlotTable Library.Transition

/-- `zbx_hashset_t`, whose `slots` may be `NULL`. -/
structure Hashset where
  numSlots : Nat
  slots : Option (List (List Entry))
  numData : Nat
deriving DecidableEq

/-- What is allocated in a call: an array of slots, a larger one, and a block for an entry. -/
structure Answers where
  slots : Bool
  growth : Bool
  entry : Option Nat

/-- The stored records. -/
def Hashset.entries (hs : Hashset) : List Entry :=
  (hs.slots.getD []).flatten

/-- `slots[slot]`, which is `none` where there is no such slot. -/
def Hashset.chain (hs : Hashset) (slot : Nat) : Option (List Entry) :=
  hs.slots.bind fun slots => slots[slot]?

/-- `zbx_hashset_init_slots`, with its result. -/
def zbxHashsetInitSlots (answers : Answers) (initSize : Nat) : Hashset × Bool :=
  if 0 < initSize then
    let numSlots := nextPrime initSize
    let slots := if answers.slots then some (replicate numSlots []) else none
    ({ numSlots, slots, numData := 0 }, answers.slots)
  else
    ({ numSlots := 0, slots := none, numData := 0 }, true)

def zbxHashsetCreateExt (answers : Answers) (initSize : Nat) : Hashset :=
  (zbxHashsetInitSlots answers initSize).1

/-- `zbx_hashset_reserve`, with its result. -/
def zbxHashsetReserve (answers : Answers) (hs : Hashset) (numSlotsReq : Int) :
    Option (Hashset × Bool) :=
  if hs.numSlots = 0 then
    some (zbxHashsetInitSlots answers
      (max (defaultSlots : Int) (numSlotsReq * (2 - 4 / 5) + 1)).toNat)
  else if (hs.numSlots : Int) * 4 / 5 ≤ numSlotsReq then
    if answers.growth then
      hs.slots.map fun slots =>
        let incSlots := nextPrime (hs.numSlots * 3 / 2)
        let slots := slots ++ replicate (incSlots - hs.numSlots) []
        let slots := (range hs.numSlots).foldl (rehashSlot incSlots) slots
        ({ hs with numSlots := incSlots, slots := some slots }, true)
    else some (hs, false)
  else some (hs, true)

variable (callbacks : Callbacks)

/-- An entry that was allocated becomes the head of its slot. -/
def linkEntry (hs : Hashset) (entry : Entry) : Option Hashset :=
  let slot := entry.hash % hs.numSlots
  (hs.chain slot).map fun chain =>
    { hs with
      slots := hs.slots.map fun slots => slots.set slot (entry :: chain)
      numData := hs.numData + 1 }

/-- The part of `zbx_hashset_insert_ext` for a record that is not there. -/
def insertNew (answers : Answers) (hs : Hashset) (data : Record) (offset : Nat) (memory : Record) :
    Option (Hashset × Option Entry) :=
  (zbxHashsetReserve answers hs (hs.numData + 1)).bind fun (hs, isReserved) =>
    if isReserved then
      match answers.entry with
      | none => some (hs, none)
      | some address =>
        let entry := newEntry callbacks data offset memory address
        (linkEntry hs entry).map fun hs => (hs, some entry)
    else some (hs, none)

/-- `zbx_hashset_insert_ext` for a set that has slots. -/
def insertInto (answers : Answers) (hs : Hashset) (data : Record) (offset : Nat)
    (memory : Record) : Option (Hashset × Option Entry) :=
  (hs.chain (callbacks.hashFunc data % hs.numSlots)).bind fun chain =>
    match chain.find? (isEqual callbacks data) with
    | some entry => some (hs, some entry)
    | none => insertNew callbacks answers hs data offset memory

/-- `zbx_hashset_insert_ext`, with the entry of the record, if it is not `NULL`. -/
def zbxHashsetInsertExt (answers : Answers) (hs : Hashset) (data : Record) (offset : Nat)
    (memory : Record) : Option (Hashset × Option Entry) :=
  if hs.numSlots = 0 then
    let (hs, isStarted) := zbxHashsetInitSlots answers defaultSlots
    if isStarted then insertInto callbacks answers hs data offset memory else some (hs, none)
  else insertInto callbacks answers hs data offset memory

def zbxHashsetSearch (hs : Hashset) (data : Record) : Option (Option Entry) :=
  if hs.numSlots = 0 then some none
  else
    (hs.chain (callbacks.hashFunc data % hs.numSlots)).map fun chain =>
      chain.find? (isEqual callbacks data)

def zbxHashsetRemove (hs : Hashset) (data : Record) : Option Hashset :=
  if hs.numSlots = 0 then some hs
  else
    let slot := callbacks.hashFunc data % hs.numSlots
    (hs.chain slot).map fun chain =>
      match unlink (isEqual callbacks data) chain with
      | none => hs
      | some chain =>
        { hs with
          slots := hs.slots.map fun slots => slots.set slot chain
          numData := hs.numData - 1 }

def iterate (hs : Hashset) : Option (List Entry) :=
  ((range hs.numSlots).mapM hs.chain).map flatten

inductive Call where
  | insertExt (answers : Answers) (data : Record) (offset : Nat) (memory : Record)
  | search (data : Record)
  | remove (data : Record)
  | iterate

/-- A call and the entry that it returns; it is `none` where a slot is missing. -/
def step (hs : Hashset) : Call → Option (Hashset × Option Entry)
  | .insertExt answers data offset memory =>
    zbxHashsetInsertExt callbacks answers hs data offset memory
  | .search data => (zbxHashsetSearch callbacks hs data).map fun result => (hs, result)
  | .remove data => (zbxHashsetRemove callbacks hs data).map fun hs => (hs, none)
  | .iterate => (iterate hs).map fun _ => (hs, none)

/-! ## Sets that are whole -/

/-- A set with slots has an array of that many. -/
def IsWhole (hs : Hashset) : Prop :=
  0 < hs.numSlots → ∃ slots, hs.slots = some slots ∧ slots.length = hs.numSlots

/-- The slots are there, and the entries are counted. -/
structure Stored (hs : Hashset) : Prop where
  sized : (hs.slots.getD []).length = hs.numSlots
  counted : hs.numData = hs.entries.length

/-- The array of slots of a set that has none is allocated where a call needs it. -/
def IsGranted (hs : Hashset) : Call → Prop
  | .insertExt answers _ _ _ => hs.numSlots = 0 → answers.slots = true
  | _ => True

/-- An insertion that fails leaves the stored records, and one that does not has its entry there. -/
def IsAtomic (hs : Hashset) (call : Call) (next : Hashset) (result : Option Entry) : Prop :=
  match call with
  | .insertExt _ _ _ _ =>
    match result with
    | none => next.entries.Perm hs.entries ∧ next.numData = hs.numData
    | some entry => entry ∈ next.entries
  | _ => True

/-- Through a sequence of calls the set is whole, no call reads a slot that is missing, and
insertions that fail change nothing. -/
def Survives : Hashset → List Call → Prop
  | hs, [] => IsWhole hs
  | hs, call :: calls => IsWhole hs ∧ ∃ next result, step callbacks hs call = some (next, result) ∧
      IsAtomic hs call next result ∧ Survives next calls

variable {callbacks} {hs : Hashset} {answers : Answers}

theorem Stored.isWhole (stored : Stored hs) : IsWhole hs := by
  intro hasSlots
  cases isSlots : hs.slots with
  | none =>
    have sized := stored.sized
    rw [isSlots] at sized
    exact absurd sized (Nat.ne_of_lt hasSlots)
  | some slots =>
    have sized := stored.sized
    rw [isSlots] at sized
    exact ⟨slots, rfl, sized⟩

/-- A set that consists of its slots. -/
def ofSlots (slots : List (List Entry)) : Hashset where
  numSlots := slots.length
  slots := some slots
  numData := slots.flatten.length

theorem numSlots_ofSlots (slots : List (List Entry)) : (ofSlots slots).numSlots = slots.length :=
  rfl

theorem stored_ofSlots (slots : List (List Entry)) : Stored (ofSlots slots) := ⟨rfl, rfl⟩

theorem Stored.exists_slots (stored : Stored hs) (hasSlots : hs.numSlots ≠ 0) :
    ∃ slots ≠ [], hs = ofSlots slots := by
  obtain ⟨slots, isSlots, sized⟩ := stored.isWhole (Nat.pos_of_ne_zero hasSlots)
  have counted := stored.counted
  obtain ⟨numSlots, _, numData⟩ := hs
  obtain rfl : _ = some slots := isSlots
  obtain rfl : slots.length = numSlots := sized
  obtain rfl : numData = slots.flatten.length := counted
  exact ⟨slots, fun isNil => hasSlots (congrArg List.length isNil), rfl⟩

theorem Stored.entries_eq_nil (stored : Stored hs) (noSlots : hs.numSlots = 0) :
    hs.entries = [] := by
  have sized := stored.sized
  rw [noSlots, length_eq_zero_iff] at sized
  rw [Hashset.entries, sized]
  rfl

/-! ## The functions on a set that is whole -/

variable {slots : List (List Entry)} {slot initSize : Nat}

theorem initSlots_granted (isGranted : answers.slots = true) (positive : 0 < initSize) :
    zbxHashsetInitSlots answers initSize =
      (ofSlots (replicate (nextPrime initSize) []), true) := by
  rw [zbxHashsetInitSlots, if_pos positive, isGranted, ofSlots, length_replicate,
    Hashset.flatten_replicate_nil]
  rfl

theorem initSlots_refused (isRefused : answers.slots = false) (positive : 0 < initSize) :
    (zbxHashsetInitSlots answers initSize).2 = false ∧
      ¬ IsWhole (zbxHashsetInitSlots answers initSize).1 := by
  rw [zbxHashsetInitSlots, if_pos positive, isRefused]
  refine ⟨rfl, fun isWhole => ?_⟩
  obtain ⟨slots, isSlots, -⟩ := isWhole (Nat.zero_lt_of_lt (one_lt_nextPrime initSize))
  cases isSlots

theorem replicate_ne_nil (initSize : Nat) :
    replicate (nextPrime initSize) ([] : List Entry) ≠ [] := by
  rw [ne_eq, replicate_eq_nil_iff]
  exact Nat.ne_zero_of_lt (one_lt_nextPrime initSize)

theorem chain_ofSlots (inside : slot < slots.length) :
    (ofSlots slots).chain slot = some (chainAt slots slot) :=
  getElem?_of_lt inside

theorem length_ne_zero (notNil : slots ≠ []) : slots.length ≠ 0 :=
  fun isZero => notNil (length_eq_zero_iff.mp isZero)

theorem mod_lt_length (notNil : slots ≠ []) (hash : Nat) : hash % slots.length < slots.length :=
  Nat.mod_lt _ (length_pos_of_ne_nil notNil)

theorem reserve_ofSlots (notNil : slots ≠ []) (numSlotsReq : Int) :
    ∃ slots' isReserved, zbxHashsetReserve answers (ofSlots slots) numSlotsReq =
        some (ofSlots slots', isReserved) ∧ slots' ≠ [] ∧ slots'.flatten.Perm slots.flatten := by
  rw [zbxHashsetReserve, numSlots_ofSlots, if_neg (length_ne_zero notNil)]
  split_ifs with isCrowded isGranted
  · have grows : slots.length ≤ nextPrime (slots.length * 3 / 2) :=
      Nat.le_trans (by omega) (le_nextPrime _)
    generalize nextPrime (slots.length * 3 / 2) = incSlots at grows
    obtain ⟨length, permuted, -⟩ := slotted_grow grows fun _ slot before sized =>
      rehashSlot_rehashed sized (Nat.lt_of_lt_of_le before grows)
    refine ⟨_, true, ?_, ?_, permuted⟩
    · rw [ofSlots, ofSlots, length, permuted.length_eq]
      rfl
    · intro isNil
      rw [isNil] at length
      rw [← length] at grows
      exact length_ne_zero notNil (Nat.le_zero.mp grows)
  · exact ⟨slots, false, rfl, notNil, List.Perm.refl _⟩
  · exact ⟨slots, true, rfl, notNil, List.Perm.refl _⟩

theorem linkEntry_ofSlots (notNil : slots ≠ []) (entry : Entry) :
    ∃ slots', linkEntry (ofSlots slots) entry = some (ofSlots slots') ∧ slots' ≠ [] ∧
      slots'.flatten.Perm (entry :: slots.flatten) := by
  have inside := mod_lt_length notNil entry.hash
  have added := flatten_set_of_added inside (List.Perm.refl (entry :: chainAt slots _))
  refine ⟨_, ?_, ?_, added⟩
  · rw [linkEntry, numSlots_ofSlots, chain_ofSlots inside, ofSlots, ofSlots, added.length_eq,
      length_set]
    rfl
  · intro isNil
    exact notNil (length_eq_zero_iff.mp (length_set.symm.trans (congrArg List.length isNil)))

/-- The stored records after an insertion with a result. -/
def Keeps (before after : List Entry) : Option Entry → Prop
  | none => after.Perm before
  | some entry => entry ∈ after

theorem insertNew_ofSlots (notNil : slots ≠ []) (data : Record) (offset : Nat) (memory : Record) :
    ∃ slots' result, insertNew callbacks answers (ofSlots slots) data offset memory =
        some (ofSlots slots', result) ∧ slots' ≠ [] ∧
      Keeps slots.flatten slots'.flatten result := by
  obtain ⟨reserved, isReserved, isResult, notNil', permuted⟩ :=
    @reserve_ofSlots answers slots notNil ((ofSlots slots).numData + 1)
  rw [insertNew, isResult, bind_some]
  simp only
  split_ifs
  · cases answers.entry with
    | none => exact ⟨reserved, none, rfl, notNil', permuted⟩
    | some address =>
      obtain ⟨linked, isLinked, notNil'', added⟩ :=
        linkEntry_ofSlots notNil' (newEntry callbacks data offset memory address)
      simp only [isLinked, map_some]
      exact ⟨linked, _, rfl, notNil'', added.mem_iff.mpr mem_cons_self⟩
  · exact ⟨reserved, none, rfl, notNil', permuted⟩

theorem insertInto_ofSlots (notNil : slots ≠ []) (data : Record) (offset : Nat)
    (memory : Record) :
    ∃ slots' result, insertInto callbacks answers (ofSlots slots) data offset memory =
        some (ofSlots slots', result) ∧ slots' ≠ [] ∧
      Keeps slots.flatten slots'.flatten result := by
  rw [insertInto, numSlots_ofSlots, chain_ofSlots (mod_lt_length notNil _), bind_some]
  cases isFound : (chainAt slots _).find? (isEqual callbacks data) with
  | none => exact insertNew_ofSlots notNil data offset memory
  | some entry =>
    have member := mem_of_find?_eq_some isFound
    exact ⟨slots, some entry, rfl, notNil, (mem_flatten_of_mem_chainAt member).2⟩

theorem search_ofSlots (notNil : slots ≠ []) (data : Record) :
    ∃ result, zbxHashsetSearch callbacks (ofSlots slots) data = some result := by
  rw [zbxHashsetSearch, numSlots_ofSlots, if_neg (length_ne_zero notNil),
    chain_ofSlots (mod_lt_length notNil _)]
  exact ⟨_, rfl⟩

theorem remove_ofSlots (notNil : slots ≠ []) (data : Record) :
    ∃ slots', zbxHashsetRemove callbacks (ofSlots slots) data = some (ofSlots slots') := by
  have inside := mod_lt_length notNil (callbacks.hashFunc data)
  rw [zbxHashsetRemove, numSlots_ofSlots, if_neg (length_ne_zero notNil)]
  simp only [chain_ofSlots inside, map_some]
  cases isUnlinked : unlink (isEqual callbacks data) (chainAt slots _) with
  | none => exact ⟨slots, rfl⟩
  | some chain =>
    obtain ⟨entry, -, -, permuted⟩ := unlink_eq_some isUnlinked
    have removed := flatten_of_removed inside permuted
    refine ⟨slots.set (callbacks.hashFunc data % slots.length) chain, ?_⟩
    rw [ofSlots, ofSlots, length_set, removed.length_eq]
    rfl

theorem mapM_chain (front back : List (List Entry)) :
    (range' front.length back.length).mapM (ofSlots (front ++ back)).chain = some back := by
  induction back generalizing front with
  | nil => rfl
  | cons chain back ih =>
    have later := ih (front ++ [chain])
    rw [length_append, append_assoc] at later
    have isHere : (ofSlots (front ++ chain :: back)).chain front.length = some chain := by
      rw [chain_ofSlots (by simp), chainAt_middle]
    rw [length_cons, range'_succ, mapM_cons, isHere]
    exact congrArg (fun rest => rest.bind fun rest => some (chain :: rest)) later

theorem iterate_ofSlots (slots : List (List Entry)) :
    iterate (ofSlots slots) = some slots.flatten := by
  rw [iterate, numSlots_ofSlots, range_eq_range']
  exact congrArg (Option.map flatten) (mapM_chain [] slots)

/-! ## Allocations that succeed -/

/-- The set with its slots, of which there may be none. -/
def Hashset.toHashset (hs : Hashset) : Hashset.Hashset where
  slots := hs.slots.getD []
  numData := hs.numData

theorem toHashset_ofSlots (slots : List (List Entry)) :
    (ofSlots slots).toHashset = { slots, numData := slots.flatten.length } :=
  rfl

theorem reserve_granted (isGranted : answers.growth = true) (notNil : slots ≠ [])
    (numSlotsReq : Int) :
    ∃ slots' ≠ [], zbxHashsetReserve answers (ofSlots slots) numSlotsReq =
        some (ofSlots slots', true) ∧
      Hashset.zbxHashsetReserve (ofSlots slots).toHashset numSlotsReq =
        (ofSlots slots').toHashset := by
  obtain ⟨slots', isReserved, isResult, notNil', -⟩ :=
    @reserve_ofSlots answers slots notNil numSlotsReq
  refine ⟨slots', notNil', ?_⟩
  have isSame : (zbxHashsetReserve answers (ofSlots slots) numSlotsReq).map
      (fun result => (result.1.toHashset, result.2)) =
        some (Hashset.zbxHashsetReserve (ofSlots slots).toHashset numSlotsReq, true) := by
    have noZero : (ofSlots slots).toHashset.slots.length ≠ 0 := length_ne_zero notNil
    rw [zbxHashsetReserve, Hashset.zbxHashsetReserve, numSlots_ofSlots,
      if_neg (length_ne_zero notNil), if_neg noZero, if_pos isGranted]
    change _ = some ((if (slots.length : Int) * 4 / 5 ≤ numSlotsReq then _ else _), true)
    split_ifs
    · rfl
    · rfl
  rw [isResult] at isSame
  obtain ⟨isSame, rfl⟩ := Prod.mk.inj (some.inj isSame)
  exact ⟨isResult, isSame.symm⟩

theorem insertInto_granted (isGranted : answers.growth = true) {address : Nat}
    (isEntry : answers.entry = some address) (notNil : slots ≠ []) (data : Record) (offset : Nat)
    (memory : Record) :
    (insertInto callbacks answers (ofSlots slots) data offset memory).map
        (fun result => (result.1.toHashset, result.2)) =
      some ((Hashset.zbxHashsetInsertExt callbacks (ofSlots slots).toHashset data offset memory
        address).map id some) := by
  rw [insertInto, numSlots_ofSlots, chain_ofSlots (mod_lt_length notNil _), bind_some]
  unfold Hashset.zbxHashsetInsertExt
  rw [toHashset_ofSlots]
  simp only [if_neg (length_ne_zero notNil)]
  cases isFound : (chainAt slots (callbacks.hashFunc data % slots.length)).find?
      (isEqual callbacks data) with
  | some entry => rfl
  | none =>
    obtain ⟨slots', notNil', isReserved, isSame⟩ :=
      reserve_granted isGranted notNil ((ofSlots slots).numData + 1)
    have isLinked : linkEntry (ofSlots slots') (newEntry callbacks data offset memory address) =
        some { ofSlots slots' with
          slots := some (slots'.set (callbacks.hashFunc data % slots'.length)
            (newEntry callbacks data offset memory address ::
              chainAt slots' (callbacks.hashFunc data % slots'.length)))
          numData := (ofSlots slots').numData + 1 } := by
      rw [linkEntry, numSlots_ofSlots, newEntry, chain_ofSlots (mod_lt_length notNil' _)]
      rfl
    simp only [insertNew, isReserved, bind_some, if_pos, isEntry, isLinked, map_some]
    rw [toHashset_ofSlots] at isSame
    have isSame : Hashset.zbxHashsetReserve { slots, numData := slots.flatten.length }
        (slots.flatten.length + 1) = { slots := slots', numData := slots'.flatten.length } := isSame
    simp only [isSame]
    rfl

/-- With all allocations an insertion is that of the sets whose allocations never fail. -/
theorem insertExt_granted (stored : Stored hs) (hasSlots : answers.slots = true)
    (isGranted : answers.growth = true) {address : Nat} (isEntry : answers.entry = some address)
    (data : Record) (offset : Nat) (memory : Record) :
    (zbxHashsetInsertExt callbacks answers hs data offset memory).map
        (fun result => (result.1.toHashset, result.2)) =
      some ((Hashset.zbxHashsetInsertExt callbacks hs.toHashset data offset memory
        address).map id some) := by
  by_cases noSlots : hs.numSlots = 0
  · have positive : 0 < defaultSlots := by decide
    have started : Hashset.zbxHashsetInitSlots defaultSlots =
        (ofSlots (replicate (nextPrime defaultSlots) [])).toHashset := by
      rw [Hashset.zbxHashsetInitSlots, if_pos positive, toHashset_ofSlots,
        Hashset.flatten_replicate_nil]
      rfl
    have same : Hashset.zbxHashsetInsertExt callbacks hs.toHashset data offset memory address =
        Hashset.zbxHashsetInsertExt callbacks (Hashset.zbxHashsetInitSlots defaultSlots) data
          offset memory address := by
      have noZero : hs.toHashset.slots.length = 0 := stored.sized.trans noSlots
      unfold Hashset.zbxHashsetInsertExt
      simp only [if_pos noZero, if_neg (Hashset.initSlots_length positive)]
    rw [zbxHashsetInsertExt, if_pos noSlots, initSlots_granted hasSlots positive, same, started]
    exact insertInto_granted isGranted isEntry (replicate_ne_nil defaultSlots) data offset memory
  · obtain ⟨slots, notNil, rfl⟩ := stored.exists_slots noSlots
    rw [zbxHashsetInsertExt, if_neg noSlots]
    exact insertInto_granted isGranted isEntry notNil data offset memory

/-! ## Runs -/

variable {data memory : Record} {offset : Nat}

theorem isAtomic_of_keeps (stored : Stored hs) {result : Option Entry}
    (keeps : Keeps hs.entries slots.flatten result) :
    IsAtomic hs (.insertExt answers data offset memory) (ofSlots slots) result := by
  cases result with
  | none => exact ⟨keeps, keeps.length_eq.trans stored.counted.symm⟩
  | some entry => exact keeps

theorem insertExt_unslotted (stored : Stored hs) (noSlots : hs.numSlots = 0) :
    ∃ next result, zbxHashsetInsertExt callbacks answers hs data offset memory =
        some (next, result) ∧ IsAtomic hs (.insertExt answers data offset memory) next result ∧
      (answers.slots = true → Stored next) ∧ (IsWhole next → answers.slots = true) := by
  have entries := stored.entries_eq_nil noSlots
  have positive : 0 < defaultSlots := by decide
  rw [zbxHashsetInsertExt, if_pos noSlots]
  cases isGranted : answers.slots with
  | true =>
    obtain ⟨slots, result, isResult, -, keeps⟩ := @insertInto_ofSlots callbacks answers _
      (replicate_ne_nil defaultSlots) data offset memory
    rw [Hashset.flatten_replicate_nil, ← entries] at keeps
    rw [initSlots_granted isGranted positive]
    exact ⟨ofSlots slots, result, isResult, isAtomic_of_keeps stored keeps,
      fun _ => stored_ofSlots slots, fun _ => rfl⟩
  | false =>
    obtain ⟨isRefused, notWhole⟩ := initSlots_refused isGranted positive
    refine ⟨(zbxHashsetInitSlots answers defaultSlots).1, none, ?_, ?_, nofun,
      fun isWhole => absurd isWhole notWhole⟩
    · simp only [isRefused, Bool.false_eq_true, if_false]
    · rw [IsAtomic, stored.counted, entries, zbxHashsetInitSlots, if_pos positive, isGranted]
      exact ⟨List.Perm.refl _, rfl⟩

/-- On a set that is whole a call reads no missing slot, and it leaves a set that is whole if and
only if the array of slots is allocated where it is needed. -/
theorem step_spec (stored : Stored hs) (call : Call) :
    ∃ next result, step callbacks hs call = some (next, result) ∧ IsAtomic hs call next result ∧
      (IsGranted hs call → Stored next) ∧ (IsWhole next → IsGranted hs call) := by
  by_cases noSlots : hs.numSlots = 0
  · cases call with
    | insertExt answers data offset memory =>
      obtain ⟨next, result, isResult, isAtomic, isStored, isGranted⟩ :=
        @insertExt_unslotted callbacks hs answers data memory offset stored noSlots
      exact ⟨next, result, isResult, isAtomic, fun granted => isStored (granted noSlots),
        fun isWhole _ => isGranted isWhole⟩
    | search data =>
      refine ⟨hs, none, ?_, trivial, fun _ => stored, fun _ => trivial⟩
      rw [step, zbxHashsetSearch, if_pos noSlots]
      rfl
    | remove data =>
      refine ⟨hs, none, ?_, trivial, fun _ => stored, fun _ => trivial⟩
      rw [step, zbxHashsetRemove, if_pos noSlots]
      rfl
    | iterate =>
      refine ⟨hs, none, ?_, trivial, fun _ => stored, fun _ => trivial⟩
      rw [step, iterate, noSlots]
      rfl
  · obtain ⟨slots, notNil, rfl⟩ := stored.exists_slots noSlots
    cases call with
    | insertExt answers data offset memory =>
      obtain ⟨slots', result, isResult, -, keeps⟩ :=
        @insertInto_ofSlots callbacks answers slots notNil data offset memory
      refine ⟨ofSlots slots', result, ?_, isAtomic_of_keeps stored keeps,
        fun _ => stored_ofSlots slots', fun _ isZero => absurd isZero noSlots⟩
      rw [step, zbxHashsetInsertExt, if_neg noSlots, isResult]
    | search data =>
      obtain ⟨result, isResult⟩ := @search_ofSlots callbacks slots notNil data
      refine ⟨ofSlots slots, result, ?_, trivial, fun _ => stored, fun _ => trivial⟩
      rw [step, isResult]
      rfl
    | remove data =>
      obtain ⟨slots', isRemoved⟩ := @remove_ofSlots callbacks slots notNil data
      refine ⟨ofSlots slots', none, ?_, trivial, fun _ => stored_ofSlots slots',
        fun _ => trivial⟩
      rw [step, isRemoved]
      rfl
    | iterate =>
      refine ⟨ofSlots slots, none, ?_, trivial, fun _ => stored, fun _ => trivial⟩
      rw [step, iterate_ofSlots]
      rfl

def after (callbacks : Callbacks) (hs : Hashset) (call : Call) : Option Hashset :=
  (step callbacks hs call).map Prod.fst

theorem Survives.isWhole {calls : List Call} (survives : Survives callbacks hs calls) :
    IsWhole hs := by
  cases calls with
  | nil => exact survives
  | cons _ _ => exact survives.1

theorem survives_iff (stored : Stored hs) (calls : List Call) :
    Survives callbacks hs calls ↔ Guarded (after callbacks) IsGranted hs calls := by
  induction calls generalizing hs with
  | nil => exact iff_of_true stored.isWhole trivial
  | cons call calls ih =>
    obtain ⟨next, result, isNext, isAtomic, isStored, isGranted⟩ :=
      @step_spec callbacks hs stored call
    have isAfter : after callbacks hs call = some next := by rw [after, isNext]; rfl
    constructor
    · rintro ⟨-, next', result', isNext', -, survives⟩
      obtain ⟨rfl, rfl⟩ := Prod.mk.inj (some.inj (isNext.symm.trans isNext'))
      have granted := isGranted survives.isWhole
      exact guarded_cons granted isAfter ((ih (isStored granted)).mp survives)
    · rintro ⟨granted, later⟩
      exact ⟨stored.isWhole, next, result, isNext, isAtomic,
        (ih (isStored granted)).mpr (later next isAfter)⟩

/-- A set survives a sequence of calls if and only if its array of slots is allocated, both when it
is created with slots and when the first is inserted into a set without. -/
theorem survives_create_iff (callbacks : Callbacks) (answers : Answers) (initSize : Nat)
    (calls : List Call) :
    Survives callbacks (zbxHashsetCreateExt answers initSize) calls ↔
      (0 < initSize → answers.slots = true) ∧
        Guarded (after callbacks) IsGranted (zbxHashsetCreateExt answers initSize) calls := by
  by_cases isGranted : 0 < initSize → answers.slots = true
  · have stored : Stored (zbxHashsetCreateExt answers initSize) := by
      rw [zbxHashsetCreateExt]
      by_cases positive : 0 < initSize
      · rw [initSlots_granted (isGranted positive) positive]
        exact stored_ofSlots _
      · rw [zbxHashsetInitSlots, if_neg positive]
        exact ⟨rfl, rfl⟩
    rw [survives_iff stored, and_iff_right isGranted]
  · rw [Classical.not_imp, Bool.not_eq_true] at isGranted
    refine iff_of_false (fun survives => ?_) fun both => ?_
    · exact (initSlots_refused isGranted.2 isGranted.1).2 survives.isWhole
    · exact absurd (both.1 isGranted.1) (by rw [isGranted.2]; exact Bool.false_ne_true)

theorem search_missing (hasSlots : hs.numSlots ≠ 0) (isMissing : hs.slots = none)
    (data : Record) : step callbacks hs (.search data) = none := by
  rw [step, zbxHashsetSearch, if_neg hasSlots, Hashset.chain, isMissing]
  rfl

/-- A first insertion whose slots are refused, after which a search reads a slot of no array. -/
theorem not_survives_refused :
    ¬ Survives HashsetRuns.byteCallbacks (zbxHashsetCreateExt ⟨true, true, none⟩ 0)
        [.insertExt ⟨false, true, none⟩ [1] 0 [], .search [1]] ∧
      ((after HashsetRuns.byteCallbacks (zbxHashsetCreateExt ⟨true, true, none⟩ 0)
        (.insertExt ⟨false, true, none⟩ [1] 0 [])).bind fun hs =>
          step HashsetRuns.byteCallbacks hs (.search [1])) = none := by
  have isNext : step HashsetRuns.byteCallbacks (zbxHashsetCreateExt ⟨true, true, none⟩ 0)
      (.insertExt ⟨false, true, none⟩ [1] 0 []) =
        some ({ numSlots := nextPrime defaultSlots, slots := none, numData := 0 }, none) := rfl
  have isMissing := @search_missing HashsetRuns.byteCallbacks
    { numSlots := nextPrime defaultSlots, slots := none, numData := 0 }
    (Nat.ne_zero_of_lt (one_lt_nextPrime defaultSlots)) rfl [1]
  constructor
  · rintro ⟨-, next, result, isNext', -, -, next', result', isFound, -⟩
    obtain ⟨rfl, -⟩ := Prod.mk.inj (some.inj (isNext.symm.trans isNext'))
    rw [isMissing] at isFound
    cases isFound
  · rw [after, isNext]
    exact isMissing

end Zabbix.Algo.HashsetAllocation
