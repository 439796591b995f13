import Zabbix.Algo.Numeric
import Zabbix.Library.SlotTable

/-!
# Hash maps

`zbx_hashmap_t` of `hashmap.c`, a map from 64-bit keys to integers.  A slot is
an array of entries.  Removing an entry moves the last one of its slot into its
place, and so does growth when it moves an entry into another slot.

`Represents` compares a hash map with the map it stands for; `set_spec`,
`remove_spec` and `clear_spec` are the only lemmas a user of hash maps needs.
-/

namespace Zabbix.Algo.Hashmap

open Numeric Library.SlotTable List

/-- `ZBX_HASHMAP_ENTRY_T`. -/
structure Entry where
  key : Nat
  value : Int
deriving DecidableEq, Repr

/-- `zbx_hashmap_t`. -/
structure Hashmap where
  slots : List (List Entry)
  numData : Nat
deriving DecidableEq, Repr

/-- All entries, slot by slot. -/
def Hashmap.entries (hm : Hashmap) : List Entry :=
  hm.slots.flatten

/-- `ZBX_HASHMAP_DEFAULT_SLOTS`. -/
def defaultSlots : Nat := 10

def fail : Int := -1

def zbxHashmapInitSlots (initSize : Nat) : Hashmap :=
  if 0 < initSize then
    { slots := replicate (nextPrime initSize) [], numData := 0 }
  else
    { slots := [], numData := 0 }

def zbxHashmapCreate (initSize : Nat) : Hashmap :=
  zbxHashmapInitSlots initSize

variable (hashFunc : Nat → Nat)

def zbxHashmapGet (hm : Hashmap) (key : Nat) : Int :=
  if hm.slots.length = 0 then fail
  else
    match (chainAt hm.slots (hashFunc key % hm.slots.length)).find? (·.key = key) with
    | some entry => entry.value
    | none => fail

/-- Write the value of a key into its entry; `none` when the slot has no entry for it. -/
def overwrite (key : Nat) (value : Int) : List Entry → Option (List Entry)
  | [] => none
  | entry :: rest =>
    if entry.key = key then some ({ entry with value := value } :: rest)
    else (overwrite key value rest).map (entry :: ·)

/-- The last entry takes the place of the one at `i`. -/
def fillHole (entries : List Entry) (i : Nat) : List Entry :=
  match entries.getLast? with
  | some last => (entries.set i last).dropLast
  | none => entries

/--
The loop over the entries of one slot when a map grows.  Every turn handles one
entry, and the first argument is the number of entries still to handle.
-/
def rehashEntries (incSlots s : Nat) : Nat → Nat → List (List Entry) → List (List Entry)
  | 0, _, slots => slots
  | fuel + 1, i, slots =>
    match (chainAt slots s)[i]? with
    | none => slots
    | some entry =>
      let newSlot := hashFunc entry.key % incSlots
      if s ≠ newSlot then
        rehashEntries incSlots s fuel i
          ((slots.set newSlot (chainAt slots newSlot ++ [entry])).set s
            (fillHole (chainAt slots s) i))
      else
        rehashEntries incSlots s fuel (i + 1) slots

/-- One turn of the loop over the old slots. -/
def rehashSlot (incSlots : Nat) (slots : List (List Entry)) (s : Nat) : List (List Entry) :=
  rehashEntries hashFunc incSlots s (chainAt slots s).length 0 slots

/-- The end of `zbx_hashmap_set` after a new entry: more slots when there are many entries. -/
def growCrowded (hm : Hashmap) : Hashmap :=
  if hm.slots.length * 5 / 1 ≤ hm.numData then
    let incSlots := nextPrime (hm.slots.length * 3 / 2)
    let slots := hm.slots ++ replicate (incSlots - hm.slots.length) []
    { hm with slots := (range hm.slots.length).foldl (rehashSlot hashFunc incSlots) slots }
  else
    hm

def zbxHashmapSet (hm : Hashmap) (key : Nat) (value : Int) : Hashmap :=
  let hm := if hm.slots.length = 0 then zbxHashmapInitSlots defaultSlots else hm
  let slot := hashFunc key % hm.slots.length
  match overwrite key value (chainAt hm.slots slot) with
  | some entries => { hm with slots := hm.slots.set slot entries }
  | none =>
    growCrowded hashFunc
      { slots := hm.slots.set slot (chainAt hm.slots slot ++ [⟨key, value⟩]),
        numData := hm.numData + 1 }

def zbxHashmapRemove (hm : Hashmap) (key : Nat) : Hashmap :=
  if hm.slots.length = 0 then hm
  else
    let slot := hashFunc key % hm.slots.length
    match (chainAt hm.slots slot).findIdx? (·.key = key) with
    | some i =>
      { slots := hm.slots.set slot (fillHole (chainAt hm.slots slot) i),
        numData := hm.numData - 1 }
    | none => hm

def zbxHashmapClear (hm : Hashmap) : Hashmap :=
  { slots := hm.slots.map fun _ => [], numData := 0 }

/-! ## The map a hash map stands for -/

/-- A hash map whose entries are counted and in the slots of their hashes. -/
structure Placed (hm : Hashmap) : Prop where
  slotted : Slotted (fun entry => hashFunc entry.key % hm.slots.length) hm.slots
  counted : hm.numData = hm.entries.length

structure Holds (entries : List Entry) (map : Nat → Option Int) : Prop where
  nodup : (entries.map Entry.key).Nodup
  holds : ∀ key value, ⟨key, value⟩ ∈ entries ↔ map key = some value

structure Represents (hm : Hashmap) (map : Nat → Option Int) : Prop
    extends Placed hashFunc hm, Holds hm.entries map

variable {hashFunc} {hm : Hashmap} {map : Nat → Option Int}

theorem entries_eq_nil (noSlots : hm.slots.length = 0) : hm.entries = [] := by
  rw [Hashmap.entries, length_eq_zero_iff.mp noSlots]
  rfl

theorem Placed.mem_chain_iff (placed : Placed hashFunc hm) (slots : hm.slots.length ≠ 0)
    {entry : Entry} :
    entry ∈ chainAt hm.slots (hashFunc entry.key % hm.slots.length) ↔ entry ∈ hm.entries :=
  mem_chainAt_iff placed.slotted (Nat.mod_lt _ (Nat.pos_of_ne_zero slots))

theorem mem_entries {slot : Nat} {entry : Entry} (member : entry ∈ chainAt hm.slots slot) :
    entry ∈ hm.entries :=
  (mem_flatten_of_mem_chainAt member).2

theorem get_spec (represents : Represents hashFunc hm map) (key : Nat) :
    zbxHashmapGet hashFunc hm key = (map key).getD fail := by
  rw [zbxHashmapGet]
  by_cases noSlots : hm.slots.length = 0
  · rw [if_pos noSlots]
    cases found : map key with
    | none => rfl
    | some value =>
      have member := (represents.holds key value).mpr found
      rw [entries_eq_nil noSlots] at member
      cases member
  rw [if_neg noSlots]
  cases found : (chainAt hm.slots (hashFunc key % hm.slots.length)).find? (·.key = key) with
  | some entry =>
    have isKey : entry.key = key := by
      have passes := find?_some found
      exact of_decide_eq_true passes
    have member : (⟨key, entry.value⟩ : Entry) ∈ hm.entries :=
      isKey ▸ mem_entries (mem_of_find?_eq_some found)
    rw [(represents.holds _ _).mp member]
    rfl
  | none =>
    cases isHeld : map key with
    | none => rfl
    | some value =>
      have member := (represents.toPlaced.mem_chain_iff noSlots).mpr
        ((represents.holds key value).mpr isHeld)
      have differs := find?_eq_none.mp found _ member
      simp at differs

/-! ## The operations -/

theorem represents_empty (empty : hm.entries = []) (counted : hm.numData = 0) :
    Represents hashFunc hm fun _ => none where
  slotted := by
    rw [slotted_iff]
    intro slot inside entry member
    have isEntry : entry ∈ hm.entries := mem_flatten_iff.mpr ⟨slot, inside, member⟩
    rw [empty] at isEntry
    cases isEntry
  counted := by rw [empty, counted]; rfl
  nodup := by rw [empty]; exact nodup_nil
  holds := by
    intro key value
    rw [empty]
    simp

theorem initSlots_entries (initSize : Nat) : (zbxHashmapInitSlots initSize).entries = [] := by
  rw [zbxHashmapInitSlots]
  split_ifs
  · exact List.flatten_replicate_nil
  · rfl

theorem represents_initSlots (initSize : Nat) :
    Represents hashFunc (zbxHashmapInitSlots initSize) fun _ => none := by
  refine represents_empty (initSlots_entries initSize) ?_
  rw [zbxHashmapInitSlots]
  split_ifs
  · rfl
  · rfl

theorem initSlots_length {initSize : Nat} (positive : 0 < initSize) :
    (zbxHashmapInitSlots initSize).slots.length ≠ 0 := by
  rw [zbxHashmapInitSlots, if_pos positive, length_replicate]
  have bound := one_lt_nextPrime initSize
  omega

theorem clear_spec (hm : Hashmap) : Represents hashFunc (zbxHashmapClear hm) fun _ => none := by
  refine represents_empty ?_ rfl
  rw [Hashmap.entries, zbxHashmapClear, map_const', List.flatten_replicate_nil]

theorem fillHole_perm {entries : List Entry} {i : Nat} {entry : Entry}
    (found : entries[i]? = some entry) : entries.Perm (entry :: fillHole entries i) := by
  have inside := (List.getElem?_eq_some_iff.mp found).1
  rw [fillHole]
  cases lastFound : entries.getLast? with
  | none =>
    rw [getLast?_eq_none_iff.mp lastFound] at inside
    cases inside
  | some last =>
    obtain ⟨front, rfl⟩ := getLast?_eq_some_iff.mp lastFound
    rw [length_append, length_singleton] at inside
    dsimp only
    by_cases before : i < front.length
    · rw [getElem?_append_left before] at found
      rw [set_append_left _ _ before, dropLast_concat]
      exact perm_set_last found last
    · have atEnd : i = front.length := by omega
      subst atEnd
      rw [getElem?_concat_length, Option.some.injEq] at found
      subst found
      rw [set_append_right _ _ (Nat.le_refl _), Nat.sub_self, set_cons_zero, dropLast_concat]
      exact perm_append_singleton _ _

theorem fillHole_before {entries : List Entry} {i j : Nat} (before : j < i)
    (inside : i < entries.length) : (fillHole entries i)[j]? = entries[j]? := by
  unfold fillHole
  split
  · rw [getElem?_dropLast, length_set, if_pos (by omega),
      getElem?_set_ne (Nat.ne_of_gt before)]
  · rfl

theorem forall_of_positions {chain : List Entry} {count : Nat} {property : Entry → Prop}
    (ends : chain.length ≤ count)
    (positions : ∀ j < count, ∀ entry, chain[j]? = some entry → property entry) :
    ∀ entry ∈ chain, property entry := by
  intro entry member
  obtain ⟨j, found⟩ := mem_iff_getElem?.mp member
  have bound := (List.getElem?_eq_some_iff.mp found).1
  exact positions j (by omega) entry found

theorem rehashEntries_rehashed {incSlots s : Nat} (fuel i : Nat) (slots : List (List Entry))
    (sized : slots.length = incSlots) (inside : s < incSlots)
    (enough : (chainAt slots s).length ≤ i + fuel)
    (right : ∀ j < i, ∀ entry, (chainAt slots s)[j]? = some entry →
      hashFunc entry.key % incSlots = s) :
    Rehashed (fun entry => hashFunc entry.key % incSlots) s slots
      (rehashEntries hashFunc incSlots s fuel i slots) := by
  induction fuel generalizing i slots with
  | zero => exact ⟨Moves.refl, forall_of_positions enough right⟩
  | succ fuel ih =>
    rw [rehashEntries]
    cases found : (chainAt slots s)[i]? with
    | none => exact ⟨Moves.refl, forall_of_positions (List.getElem?_eq_none_iff.mp found) right⟩
    | some entry =>
      have bound := (List.getElem?_eq_some_iff.mp found).1
      dsimp only
      by_cases leaves : s ≠ hashFunc entry.key % incSlots
      · rw [if_pos leaves]
        have fits : hashFunc entry.key % incSlots < slots.length :=
          Nat.lt_of_lt_of_eq (Nat.mod_lt _ (by omega)) sized.symm
        have filled := fillHole_perm found
        have moved : Moves (fun entry => hashFunc entry.key % incSlots) s slots
            ((slots.set (hashFunc entry.key % incSlots)
              (chainAt slots (hashFunc entry.key % incSlots) ++ [entry])).set s
                (fillHole (chainAt slots s) i)) :=
          moves_entry leaves (sized ▸ inside) fits filled
            (perm_append_singleton _ _) rfl
        have stillInside : s < (slots.set (hashFunc entry.key % incSlots)
            (chainAt slots (hashFunc entry.key % incSlots) ++ [entry])).length := by
          rw [length_set, sized]
          exact inside
        have own := chainAt_set_self stillInside (fillHole (chainAt slots s) i)
        have shorter := filled.length_eq
        rw [length_cons] at shorter
        have after := ih i _ (moved.length.trans sized) (by rw [own]; omega) (by
          intro j before other isOther
          rw [own, fillHole_before before bound] at isOther
          exact right j before other isOther)
        exact ⟨moved.trans after.toMoves, after.settled⟩
      · rw [if_neg leaves]
        refine ih (i + 1) slots sized (by omega) ?_
        intro j before other isOther
        by_cases isLast : j = i
        · rw [isLast, found, Option.some.injEq] at isOther
          rw [← isOther]
          exact (not_ne_iff.mp leaves).symm
        · exact right j (by omega) other isOther

theorem rehashSlot_rehashed {incSlots s : Nat} {slots : List (List Entry)}
    (sized : slots.length = incSlots) (inside : s < incSlots) :
    Rehashed (fun entry => hashFunc entry.key % incSlots) s slots
      (rehashSlot hashFunc incSlots slots s) :=
  rehashEntries_rehashed _ 0 slots sized inside (Nat.le_add_left _ _) fun j before =>
    absurd before (Nat.not_lt_zero j)

theorem growCrowded_spec (placed : Placed hashFunc hm) :
    Placed hashFunc (growCrowded hashFunc hm) ∧
      (growCrowded hashFunc hm).entries.Perm hm.entries := by
  unfold growCrowded
  split_ifs with crowded
  · have grows : hm.slots.length ≤ nextPrime (hm.slots.length * 3 / 2) :=
      Nat.le_trans (by omega) (le_nextPrime _)
    generalize nextPrime (hm.slots.length * 3 / 2) = incSlots at grows
    obtain ⟨length, permuted, slotted⟩ := slotted_grow grows fun _ slot before sized =>
      @rehashSlot_rehashed hashFunc _ _ _ sized (Nat.lt_of_lt_of_le before grows)
    refine ⟨⟨?_, ?_⟩, permuted⟩
    · rw [length]
      exact slotted
    · exact placed.counted.trans permuted.length_eq.symm
  · exact ⟨placed, List.Perm.refl _⟩

/-! ## Maps with one key changed -/

theorem Holds.perm {entries after : List Entry} (holds : Holds entries map)
    (permuted : after.Perm entries) : Holds after map where
  nodup := (permuted.map Entry.key).nodup_iff.mpr holds.nodup
  holds := by
    intro key value
    rw [permuted.mem_iff]
    exact holds.holds key value

theorem Holds.key_eq_none_iff {entries : List Entry} (holds : Holds entries map) {key : Nat} :
    map key = none ↔ ∀ entry ∈ entries, entry.key ≠ key := by
  rw [Option.eq_none_iff_forall_ne_some]
  constructor
  · rintro absent entry member rfl
    exact absent entry.value ((holds.holds _ _).mp member)
  · intro differ value isHeld
    exact differ _ ((holds.holds key value).mpr isHeld) rfl

theorem Holds.cons {entries : List Entry} (holds : Holds entries map) {key : Nat}
    (absent : map key = none) (value : Int) :
    Holds (⟨key, value⟩ :: entries) (Function.update map key (some value)) where
  nodup := by
    rw [map_cons, nodup_cons]
    refine ⟨?_, holds.nodup⟩
    intro member
    obtain ⟨entry, isEntry, isKey⟩ := List.mem_map.mp member
    exact holds.key_eq_none_iff.mp absent entry isEntry isKey
  holds := by
    intro other held
    rw [mem_cons, Function.update_apply, Entry.mk.injEq, holds.holds]
    split_ifs with same
    · subst same
      simp [absent, eq_comm]
    · simp [same]

theorem Holds.of_cons {entries : List Entry} {entry : Entry}
    (holds : Holds (entry :: entries) map) :
    Holds entries (Function.update map entry.key none) where
  nodup := (nodup_cons.mp holds.nodup).2
  holds := by
    intro key value
    rw [Function.update_apply]
    split_ifs with same
    · subst same
      constructor
      · intro member
        exact absurd (List.mem_map_of_mem member) (nodup_cons.mp holds.nodup).1
      · intro absurdity
        cases absurdity
    · rw [← holds.holds, mem_cons]
      constructor
      · exact Or.inr
      · rintro (rfl | member)
        · exact absurd rfl same
        · exact member

theorem overwrite_eq_none_iff {key : Nat} {value : Int} {chain : List Entry} :
    overwrite key value chain = none ↔ ∀ entry ∈ chain, entry.key ≠ key := by
  induction chain with
  | nil => simp [overwrite]
  | cons first rest ih =>
    rw [overwrite, forall_mem_cons]
    split_ifs with isKey
    · simp [isKey]
    · simp [isKey, ih]

theorem overwrite_eq_some {key : Nat} {value : Int} {chain after : List Entry}
    (written : overwrite key value chain = some after) :
    ∃ old rest, old.key = key ∧ chain.Perm (old :: rest) ∧ after.Perm (⟨key, value⟩ :: rest) := by
  induction chain generalizing after with
  | nil => cases written
  | cons first rest ih =>
    rw [overwrite] at written
    split_ifs at written with isKey
    · rw [Option.some.injEq] at written
      subst written isKey
      exact ⟨first, rest, rfl, List.Perm.refl _, List.Perm.refl _⟩
    · rw [Option.map_eq_some_iff] at written
      obtain ⟨shorter, written, rfl⟩ := written
      obtain ⟨old, others, isOld, before, now⟩ := ih written
      exact ⟨old, first :: others, isOld,
        (before.cons first).trans (List.Perm.swap old first others),
        (now.cons first).trans (List.Perm.swap _ first others)⟩

theorem set_spec (represents : Represents hashFunc hm map) (key : Nat) (value : Int) :
    Represents hashFunc (zbxHashmapSet hashFunc hm key value)
      (Function.update map key (some value)) := by
  obtain ⟨started, isStarted, startedRepresents, startedSlots⟩ :
      ∃ started, started = (if hm.slots.length = 0 then zbxHashmapInitSlots defaultSlots else hm) ∧
        Represents hashFunc started map ∧ started.slots.length ≠ 0 := by
    by_cases noSlots : hm.slots.length = 0
    · refine ⟨_, (if_pos noSlots).symm, ?_, initSlots_length (by decide)⟩
      have empty : map = fun _ => none := by
        funext other
        rw [represents.key_eq_none_iff, entries_eq_nil noSlots]
        intro entry member
        cases member
      rw [empty]
      exact represents_initSlots _
    · exact ⟨_, (if_neg noSlots).symm, represents, noSlots⟩
  unfold zbxHashmapSet
  rw [← isStarted]
  have inside : hashFunc key % started.slots.length < started.slots.length :=
    Nat.mod_lt _ (Nat.pos_of_ne_zero startedSlots)
  dsimp only
  cases written : overwrite key value
      (chainAt started.slots (hashFunc key % started.slots.length)) with
  | some entries =>
    obtain ⟨old, rest, rfl, before, now⟩ := overwrite_eq_some written
    have removed := flatten_of_removed inside before
    have added : (started.slots.set (hashFunc old.key % started.slots.length) entries).flatten.Perm
        (⟨old.key, value⟩ ::
          (started.slots.set (hashFunc old.key % started.slots.length) rest).flatten) := by
      have twice := @flatten_set_of_added _
        (started.slots.set (hashFunc old.key % started.slots.length) rest)
        (hashFunc old.key % started.slots.length) entries ⟨old.key, value⟩
        (by rw [length_set]; exact inside) (by rw [chainAt_set_self inside]; exact now)
      rw [set_set] at twice
      exact twice
    have without := (startedRepresents.toHolds.perm removed.symm).of_cons
    have rewritten := without.cons (Function.update_self _ _ _) value
    rw [Function.update_idem] at rewritten
    refine ⟨⟨?_, ?_⟩, rewritten.perm added⟩
    · dsimp only
      rw [length_set]
      apply slotted_set startedRepresents.slotted
      intro entry member
      rcases mem_cons.mp (now.mem_iff.mp member) with rfl | other
      · rfl
      · exact slotted_iff.mp startedRepresents.slotted _ inside entry
          (before.mem_iff.mpr (mem_cons_of_mem old other))
    · exact startedRepresents.counted.trans
        (removed.length_eq.trans added.length_eq.symm)
  | none =>
    have added := flatten_set_of_added inside (perm_append_singleton
      (⟨key, value⟩ : Entry) (chainAt started.slots (hashFunc key % started.slots.length)))
    have absent : map key = none := by
      rw [startedRepresents.key_eq_none_iff]
      rintro entry member rfl
      exact overwrite_eq_none_iff.mp written entry
        ((startedRepresents.toPlaced.mem_chain_iff startedSlots).mpr member) rfl
    obtain ⟨placed, permuted⟩ := @growCrowded_spec hashFunc
      { slots := started.slots.set (hashFunc key % started.slots.length)
          (chainAt started.slots (hashFunc key % started.slots.length) ++ [⟨key, value⟩]),
        numData := started.numData + 1 } ⟨by
          rw [length_set]
          apply slotted_set startedRepresents.slotted
          intro entry member
          rcases mem_append.mp member with old | new
          · exact slotted_iff.mp startedRepresents.slotted _ inside entry old
          · rw [mem_singleton.mp new], by
          have counted := congrArg Nat.succ startedRepresents.counted
          exact counted.trans added.length_eq.symm⟩
    exact ⟨placed, (startedRepresents.toHolds.cons absent value).perm (permuted.trans added)⟩

theorem remove_spec (represents : Represents hashFunc hm map) (key : Nat) :
    Represents hashFunc (zbxHashmapRemove hashFunc hm key) (Function.update map key none) := by
  have unchanged (absent : map key = none) :
      Represents hashFunc hm (Function.update map key none) := by
    rw [← absent, Function.update_eq_self]
    exact represents
  unfold zbxHashmapRemove
  by_cases noSlots : hm.slots.length = 0
  · rw [if_pos noSlots]
    apply unchanged
    rw [represents.key_eq_none_iff, entries_eq_nil noSlots]
    intro entry member
    cases member
  rw [if_neg noSlots]
  have inside : hashFunc key % hm.slots.length < hm.slots.length :=
    Nat.mod_lt _ (Nat.pos_of_ne_zero noSlots)
  dsimp only
  cases found : (chainAt hm.slots (hashFunc key % hm.slots.length)).findIdx? (·.key = key) with
  | none =>
    apply unchanged
    rw [represents.key_eq_none_iff]
    rintro entry member rfl
    have differs := findIdx?_eq_none_iff.mp found entry
      ((represents.toPlaced.mem_chain_iff noSlots).mpr member)
    simp at differs
  | some i =>
    obtain ⟨entry, isEntry, isKey⟩ :
        ∃ entry, (chainAt hm.slots (hashFunc key % hm.slots.length))[i]? = some entry ∧
          entry.key = key := by
      obtain ⟨bound, isKey, -⟩ := findIdx?_eq_some_iff_getElem.mp found
      exact ⟨_, getElem?_eq_getElem bound, of_decide_eq_true isKey⟩
    subst isKey
    have filled := fillHole_perm isEntry
    have removed := flatten_of_removed inside filled
    refine ⟨⟨?_, ?_⟩, (represents.toHolds.perm removed.symm).of_cons⟩
    · dsimp only
      rw [length_set]
      apply slotted_set represents.slotted
      intro other member
      exact slotted_iff.mp represents.slotted _ inside other
        (filled.mem_iff.mpr (mem_cons_of_mem entry member))
    · have counted := represents.counted.trans removed.length_eq
      rw [length_cons] at counted
      exact Nat.sub_eq_of_eq_add counted

/-! ## All runs -/

inductive Call where
  | set (key : Nat) (value : Int)
  | remove (key : Nat)
  | clear

variable (hashFunc) in
def perform (hm : Hashmap) : Call → Hashmap
  | .set key value => zbxHashmapSet hashFunc hm key value
  | .remove key => zbxHashmapRemove hashFunc hm key
  | .clear => zbxHashmapClear hm

/-- What a call does to the map that a hash map stands for. -/
def performMap (map : Nat → Option Int) : Call → Nat → Option Int
  | .set key value => Function.update map key (some value)
  | .remove key => Function.update map key none
  | .clear => fun _ => none

theorem represents_run (represents : Represents hashFunc hm map) (calls : List Call) :
    Represents hashFunc (calls.foldl (perform hashFunc) hm) (calls.foldl performMap map) := by
  induction calls generalizing hm map with
  | nil => exact represents
  | cons call calls ih =>
    apply ih
    cases call with
    | set key value => exact set_spec represents key value
    | remove key => exact remove_spec represents key
    | clear => exact clear_spec hm

/-- For every hash function and any initial size a hash map is a finite map: after any sequence of
calls `zbx_hashmap_get` returns the last value of a key, or `FAIL`; each key that has a value has
one entry, in the slot of its hash, and `num_data` counts them. -/
theorem hashmap_refines (hashFunc : Nat → Nat) (initSize : Nat) (calls : List Call) :
    ∃ (hm : Hashmap) (map : Nat → Option Int),
      hm = calls.foldl (perform hashFunc) (zbxHashmapCreate initSize) ∧
      map = calls.foldl performMap (fun _ => none) ∧
      (∀ key, zbxHashmapGet hashFunc hm key = (map key).getD fail) ∧
      (∀ key value, ⟨key, value⟩ ∈ hm.entries ↔ map key = some value) ∧
      (hm.entries.map Entry.key).Nodup ∧ hm.numData = hm.entries.length ∧
      ∀ slot < hm.slots.length, ∀ entry ∈ chainAt hm.slots slot,
        hashFunc entry.key % hm.slots.length = slot := by
  have represents := represents_run (@represents_initSlots hashFunc initSize) calls
  exact ⟨_, _, rfl, rfl, get_spec represents, represents.holds, represents.nodup,
    represents.counted, slotted_iff.mp represents.slotted⟩

end Zabbix.Algo.Hashmap
