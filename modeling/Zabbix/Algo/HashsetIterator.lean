import Mathlib.Data.List.Nodup
import Zabbix.Algo.HashsetRuns

/-!
# Iterators over hash sets

`zbx_hashset_iter_t` of `hashset.c`.  A removal steps the iterator back, to the entry before or to
the slot before.  A loop that removes entries on its way visits every entry once.
-/

namespace Zabbix.Algo.HashsetIterator

open Hashset HashsetRuns Library.SlotTable List

def iterStart : Int := -1

def iterFinish : Int := -2

/-- `zbx_hashset_iter_t`, with the address of the entry. -/
structure Iterator where
  slot : Int
  entry : Option Nat
deriving DecidableEq, Repr

/-- `zbx_hashset_iter_reset` leaves what was in `entry`. -/
def zbxHashsetIterReset (iter : Iterator) : Iterator :=
  { iter with slot := iterStart }

def nextInChain (address : Nat) : List Entry → Option Entry
  | [] => none
  | entry :: rest => if entry.address = address then rest.head? else nextInChain address rest

/-- `next` of the entry at an address. -/
def next (hs : Hashset) (address : Nat) : Option Entry :=
  hs.slots.findSome? (nextInChain address)

/-- The loop of `zbx_hashset_iter_next` over the slots after that of the iterator. -/
def nextSlot (iter : Iterator) : List (List Entry) → Iterator × Option Entry
  | [] => ({ iter with slot := iterFinish }, none)
  | (entry :: _) :: _ => ({ slot := iter.slot + 1, entry := some entry.address }, some entry)
  | [] :: slots => nextSlot { iter with slot := iter.slot + 1 } slots

def zbxHashsetIterNext (hs : Hashset) (iter : Iterator) : Iterator × Option Entry :=
  if iter.slot = iterFinish then (iter, none)
  else
    match if iter.slot = iterStart then none else iter.entry.bind (next hs) with
    | some entry => ({ iter with entry := some entry.address }, some entry)
    | none => nextSlot iter (hs.slots.drop (iter.slot + 1).toNat)

/-- What may go wrong in a removal. -/
inductive Failure where
  | badIterator
  | pastChain
deriving DecidableEq, Repr

/-- The walk of `zbx_hashset_iter_remove` to the entry before the one at an address. -/
def previous (address : Nat) : List Entry → Option Entry
  | prevEntry :: entry :: rest =>
    if entry.address = address then some prevEntry else previous address (entry :: rest)
  | _ => none

def freeEntry (hs : Hashset) (slot address : Nat) : Hashset where
  slots := hs.slots.set slot ((chainAt hs.slots slot).eraseP (·.address = address))
  numData := hs.numData - 1

def zbxHashsetIterRemove (hs : Hashset) (iter : Iterator) : Except Failure (Hashset × Iterator) :=
  if iter.slot = iterStart ∨ iter.slot = iterFinish then .error .badIterator
  else
    match iter.entry with
    | none => .error .badIterator
    | some address =>
      let chain := chainAt hs.slots iter.slot.toNat
      if chain.head?.map Entry.address = some address then
        .ok (freeEntry hs iter.slot.toNat address, { slot := iter.slot - 1, entry := none })
      else
        match previous address chain with
        | none => .error .pastChain
        | some prevEntry =>
          .ok (freeEntry hs iter.slot.toNat address,
            { iter with entry := some prevEntry.address })

/-- The loop over a set that removes the entries which pass a test, with the entries that it
visited.  It is `none` while the loop has not ended. -/
def removeLoop (test : Entry → Bool) :
    Nat → Hashset → Iterator → List Entry → Option (Except Failure (Hashset × List Entry))
  | 0, _, _, _ => none
  | fuel + 1, hs, iter, visited =>
    match zbxHashsetIterNext hs iter with
    | (_, none) => some (.ok (hs, visited))
    | (iter, some entry) =>
      if test entry then
        match zbxHashsetIterRemove hs iter with
        | .error failure => some (.error failure)
        | .ok (hs, iter) => removeLoop test fuel hs iter (visited ++ [entry])
      else removeLoop test fuel hs iter (visited ++ [entry])

/-! ## Chains -/

variable {hs : Hashset} {iter : Iterator} {behind ahead before after chain : List Entry}
  {front back : List (List Entry)} {entry prevEntry : Entry} {address : Nat}

/-- No entry is at the address. -/
def Absent (address : Nat) (entries : List Entry) : Prop :=
  ∀ entry ∈ entries, entry.address ≠ address

theorem nextInChain_of_absent (absent : Absent address chain) :
    nextInChain address chain = none := by
  induction chain with
  | nil => rfl
  | cons entry rest ih =>
    rw [nextInChain, if_neg (absent entry mem_cons_self)]
    exact ih fun other member => absent other (mem_cons_of_mem _ member)

theorem nextInChain_middle (absent : Absent entry.address before) :
    nextInChain entry.address (before ++ entry :: after) = after.head? := by
  induction before with
  | nil => exact if_pos rfl
  | cons first before ih =>
    rw [cons_append, nextInChain, if_neg (absent first mem_cons_self)]
    exact ih fun other member => absent other (mem_cons_of_mem _ member)

theorem findSome?_nextInChain_of_absent (absent : Absent address front.flatten) :
    front.findSome? (nextInChain address) = none := by
  rw [findSome?_eq_none_iff]
  intro chain member
  exact nextInChain_of_absent fun entry isEntry =>
    absent entry (mem_flatten.mpr ⟨chain, member, isEntry⟩)

theorem previous_middle (absent : Absent entry.address (before ++ [prevEntry])) :
    previous entry.address (before ++ prevEntry :: entry :: after) = some prevEntry := by
  induction before with
  | nil => exact if_pos rfl
  | cons first before ih =>
    have later := ih fun other member => absent other (mem_cons_of_mem _ member)
    cases before with
    | nil =>
      have notHere := absent prevEntry (by simp)
      exact (if_neg notHere).trans later
    | cons second before =>
      have notHere := absent second (by simp)
      exact (if_neg notHere).trans later

theorem head?_ne_of_absent (absent : Absent address (before ++ [prevEntry])) :
    (before ++ prevEntry :: after).head?.map Entry.address ≠ some address := by
  intro same
  cases before with
  | nil => exact absent prevEntry mem_cons_self (Option.some.inj same)
  | cons first before => exact absent first mem_cons_self (Option.some.inj same)

theorem eraseP_middle (absent : Absent entry.address before) :
    (before ++ entry :: after).eraseP (·.address = entry.address) = before ++ after := by
  rw [eraseP_append_right, eraseP_cons_of_pos (by simp)]
  simpa [Absent] using absent

/-! ## Where an iterator stands -/

/-- The blocks of the entries are distinct, and `num_data` counts them. -/
structure Consists (hs : Hashset) : Prop where
  distinct : (hs.entries.map Entry.address).Nodup
  counted : hs.numData = hs.entries.length

inductive On : Hashset → Iterator → List Entry → Entry → List Entry → Prop where
  | intro (front back : List (List Entry)) (before after : List Entry) (entry : Entry)
      (numData : Nat) :
      On { slots := front ++ (before ++ entry :: after) :: back, numData }
        { slot := front.length, entry := some entry.address }
        (front.flatten ++ before) entry (after ++ back.flatten)

/-- The iterator has entries behind and ahead of it: it is between two slots, or at the last of
those behind it. -/
inductive Stands : Hashset → Iterator → List Entry → List Entry → Prop where
  | between (front back : List (List Entry)) (numData : Nat) (iter : Iterator)
      (slot : iter.slot = front.length - 1) (noEntry : iter.slot = iterStart ∨ iter.entry = none) :
      Stands { slots := front ++ back, numData } iter front.flatten back.flatten
  | on (hs : Hashset) (iter : Iterator) (behind : List Entry) (entry : Entry)
      (ahead : List Entry) (isOn : On hs iter behind entry ahead) :
      Stands hs iter (behind ++ [entry]) ahead

theorem On.entries (isOn : On hs iter behind entry ahead) :
    hs.entries = behind ++ entry :: ahead := by
  cases isOn
  simp [Hashset.entries]

theorem Stands.entries (stands : Stands hs iter behind ahead) : hs.entries = behind ++ ahead := by
  cases stands with
  | between front back numData iter slot noEntry => exact flatten_append
  | on _ _ behind entry ahead isOn =>
    rw [isOn.entries, append_assoc]
    rfl

theorem On.absent (isOn : On hs iter behind entry ahead) (consists : Consists hs) :
    Absent entry.address behind ∧ Absent entry.address ahead := by
  have distinct := consists.distinct
  rw [isOn.entries, map_append, map_cons] at distinct
  have notMem := nodup_middle.mp distinct
  rw [nodup_cons, ← map_append, List.mem_map] at notMem
  exact ⟨fun other member same => notMem.1 ⟨other, mem_append_left _ member, same⟩,
    fun other member same => notMem.1 ⟨other, mem_append_right _ member, same⟩⟩

/-! ## The next entry -/

/-- The result of a step: the entry ahead, at which the iterator then is, or the end. -/
def Yields (hs : Hashset) (behind ahead : List Entry) (result : Iterator × Option Entry) : Prop :=
  match ahead with
  | [] => result.2 = none
  | entry :: ahead => result.2 = some entry ∧ On hs result.1 behind entry ahead

theorem nextSlot_spec (numData : Nat) (slot : iter.slot = front.length - 1) :
    Yields { slots := front ++ back, numData } front.flatten back.flatten (nextSlot iter back) := by
  induction back generalizing front iter with
  | nil => rfl
  | cons chain back ih =>
    have slotAfter : iter.slot + 1 = front.length := by omega
    cases chain with
    | nil =>
      have later := @ih { iter with slot := iter.slot + 1 } (front ++ [[]]) (by
        rw [length_append]
        simpa using slotAfter)
      rw [append_assoc, flatten_append, flatten_singleton,
        append_nil] at later
      exact later
    | cons entry after =>
      refine ⟨rfl, ?_⟩
      rw [nextSlot, slotAfter]
      have isOn := On.intro front back [] after entry numData
      rw [append_nil] at isOn
      exact isOn

/-- `next` of an entry is the entry after it in its chain. -/
theorem next_eq_head? {numData : Nat} (consists : Consists
      { slots := front ++ (before ++ entry :: after) :: back, numData }) :
    next { slots := front ++ (before ++ entry :: after) :: back, numData } entry.address =
      after.head? := by
  obtain ⟨absentBehind, absentAhead⟩ :=
    (On.intro front back before after entry numData).absent consists
  rw [next, findSome?_append, findSome?_nextInChain_of_absent fun other member =>
    absentBehind other (mem_append_left _ member), Option.none_or, findSome?_cons,
    nextInChain_middle fun other member => absentBehind other (mem_append_right _ member)]
  cases after with
  | nil => exact findSome?_nextInChain_of_absent absentAhead
  | cons other after => rfl

theorem iterNext_spec (consists : Consists hs) (stands : Stands hs iter behind ahead) :
    Yields hs behind ahead (zbxHashsetIterNext hs iter) := by
  cases stands with
  | between front back numData iter slot noEntry =>
    have notFinish : iter.slot ≠ iterFinish := by
      rw [slot, iterFinish]
      omega
    have isNone : (if iter.slot = iterStart then none
        else iter.entry.bind (next { slots := front ++ back, numData })) = none := by
      split_ifs with isStart
      · rfl
      · rw [noEntry.resolve_left isStart]
        rfl
    have isBack : (front ++ back).drop (iter.slot + 1).toNat = back := by
      rw [slot, Int.sub_add_cancel, Int.toNat_natCast, drop_left]
    rw [zbxHashsetIterNext, if_neg notFinish, isNone, isBack]
    exact nextSlot_spec numData slot
  | on _ _ behind entry ahead isOn =>
    cases isOn with
    | intro front back before after entry numData =>
      have notFinish : (front.length : Int) ≠ iterFinish := by
        rw [iterFinish]
        omega
      have notStart : (front.length : Int) ≠ iterStart := by
        rw [iterStart]
        omega
      rw [zbxHashsetIterNext, if_neg notFinish, if_neg notStart, Option.bind_some,
        next_eq_head? consists]
      cases after with
      | nil =>
        have slot : (front.length : Int) = (front ++ [before ++ [entry]]).length - 1 := by
          rw [length_append, length_singleton]
          omega
        have yields := @nextSlot_spec { slot := front.length, entry := some entry.address }
          (front ++ [before ++ [entry]]) back numData slot
        rw [append_assoc front, flatten_append, flatten_singleton,
          ← append_assoc front.flatten] at yields
        have isBack : (front ++ (before ++ [entry]) :: back).drop
            ((front.length : Int) + 1).toNat = back := by
          rw [← Int.natCast_succ, Int.toNat_natCast, Nat.succ_eq_add_one, ← drop_drop, drop_left]
          rfl
        rw [isBack]
        exact yields
      | cons other after =>
        refine ⟨rfl, ?_⟩
        have isOn := On.intro front back (before ++ [entry]) after other numData
        rw [append_assoc before, ← append_assoc front.flatten] at isOn
        exact isOn

/-! ## Removal -/

theorem freeEntry_middle {numData : Nat} (consists : Consists
      { slots := front ++ (before ++ entry :: after) :: back, numData }) :
    freeEntry { slots := front ++ (before ++ entry :: after) :: back, numData } front.length
        entry.address =
      { slots := front ++ (before ++ after) :: back, numData := numData - 1 } := by
  have absent := ((On.intro front back before after entry numData).absent consists).1
  rw [freeEntry, chainAt_middle, set_middle,
    eraseP_middle fun other member => absent other (mem_append_right _ member)]

theorem iterRemove_spec (consists : Consists hs) (isOn : On hs iter behind entry ahead) :
    ∃ iter', zbxHashsetIterRemove hs iter =
        .ok (freeEntry hs iter.slot.toNat entry.address, iter') ∧
      Stands (freeEntry hs iter.slot.toNat entry.address) iter' behind ahead := by
  cases isOn with
  | intro front back before after entry numData =>
    obtain ⟨absent, -⟩ := (On.intro front back before after entry numData).absent consists
    have notBad : ¬ ((front.length : Int) = iterStart ∨ (front.length : Int) = iterFinish) := by
      rw [iterStart, iterFinish]
      omega
    simp only [zbxHashsetIterRemove, if_neg notBad, Int.toNat_natCast, chainAt_middle,
      freeEntry_middle consists]
    obtain rfl | ⟨before, prevEntry, rfl⟩ := eq_nil_or_concat before
    · refine ⟨_, if_pos rfl, ?_⟩
      rw [append_nil, nil_append]
      exact Stands.between front (after :: back) (numData - 1) _ rfl (Or.inr rfl)
    · rw [concat_eq_append] at absent ⊢
      rw [append_assoc, append_assoc, singleton_append, singleton_append]
      have absent : Absent entry.address (before ++ [prevEntry]) :=
        fun other member => absent other (mem_append_right _ member)
      have isOn := On.intro front back before after prevEntry (numData - 1)
      refine ⟨{ slot := front.length, entry := some prevEntry.address }, ?_, ?_⟩
      · rw [if_neg (head?_ne_of_absent absent), previous_middle absent]
      · rw [← append_assoc]
        exact Stands.on _ _ _ _ _ isOn

theorem Consists.freeEntry (consists : Consists hs) {after : Hashset}
    (isFreed : ∃ entry, hs.entries = behind ++ entry :: ahead)
    (entries : after.entries = behind ++ ahead) (numData : after.numData = hs.numData - 1) :
    Consists after where
  distinct := by
    obtain ⟨entry, whole⟩ := isFreed
    have isSublist : (behind ++ ahead).Sublist (behind ++ entry :: ahead) :=
      (sublist_cons_self entry ahead).append_left behind
    have distinct := consists.distinct
    rw [whole] at distinct
    rw [entries]
    exact distinct.sublist (isSublist.map Entry.address)
  counted := by
    obtain ⟨entry, whole⟩ := isFreed
    rw [numData, consists.counted, whole, entries, length_append, length_append, length_cons]
    rfl

/-! ## The loop -/

variable {test : Entry → Bool}

/-- The set without the entries that pass a test. -/
def swept (test : Entry → Bool) (hs : Hashset) : Hashset where
  slots := hs.slots.map fun chain => chain.filter fun entry => !test entry
  numData := hs.numData - hs.entries.countP test

theorem swept_of_none (none : ∀ entry ∈ hs.entries, test entry = false) :
    swept test hs = hs := by
  have noCount : hs.entries.countP test = 0 := by
    rw [countP_eq_zero]
    intro entry member
    rw [none entry member]
    exact Bool.false_ne_true
  have sameSlots : (hs.slots.map fun chain => chain.filter fun entry => !test entry) = hs.slots := by
    refine (map_congr_left fun chain isChain => ?_).trans (List.map_id _)
    rw [id, filter_eq_self]
    intro entry member
    rw [none entry (mem_flatten.mpr ⟨chain, isChain, member⟩)]
    rfl
  rw [swept, noCount, sameSlots]
  rfl

theorem swept_freeEntry (consists : Consists hs) (isOn : On hs iter behind entry ahead)
    (passes : test entry = true) :
    swept test (freeEntry hs iter.slot.toNat entry.address) = swept test hs := by
  cases isOn with
  | intro front back before after entry numData =>
    rw [Int.toNat_natCast, freeEntry_middle consists, swept, swept, Hashset.mk.injEq]
    constructor
    · simp [passes]
    · simp only [Hashset.entries, flatten_append, flatten_cons, countP_append,
        countP_cons_of_pos passes]
      omega

theorem removeLoop_spec (consists : Consists hs) (stands : Stands hs iter behind ahead)
    (isSwept : ∀ entry ∈ behind, test entry = false) {fuel : Nat} (enough : ahead.length < fuel)
    (visited : List Entry) :
    removeLoop test fuel hs iter visited = some (.ok (swept test hs, visited ++ ahead)) := by
  obtain ⟨fuel, rfl⟩ := Nat.exists_eq_succ_of_ne_zero (Nat.ne_zero_of_lt enough)
  induction ahead generalizing hs iter behind fuel visited with
  | nil =>
    have yields := iterNext_spec consists stands
    have entries := stands.entries
    rw [append_nil] at entries ⊢
    rw [removeLoop, swept_of_none (entries ▸ isSwept)]
    generalize zbxHashsetIterNext hs iter = result at yields
    obtain ⟨iter', rfl⟩ : ∃ iter', result = (iter', none) := ⟨result.1, Prod.ext rfl yields⟩
    rfl
  | cons entry ahead ih =>
    obtain ⟨isEntry, isOn⟩ := iterNext_spec consists stands
    rw [removeLoop]
    generalize zbxHashsetIterNext hs iter = result at isEntry isOn
    obtain ⟨iter', _⟩ := result
    obtain rfl : _ = some entry := isEntry
    have enough : ahead.length < fuel := Nat.lt_of_succ_lt_succ enough
    obtain ⟨fuel, rfl⟩ := Nat.exists_eq_succ_of_ne_zero (Nat.ne_zero_of_lt enough)
    have whole : visited ++ entry :: ahead = visited ++ [entry] ++ ahead := by simp
    rw [whole]
    simp only
    split_ifs with passes
    · obtain ⟨iter'', isRemoved, stands'⟩ := iterRemove_spec consists isOn
      have consists' := consists.freeEntry ⟨entry, isOn.entries⟩ stands'.entries rfl
      rw [isRemoved, ← swept_freeEntry consists isOn passes]
      exact ih consists' stands' isSwept _ fuel enough
    · refine ih consists (Stands.on _ _ _ _ _ isOn) ?_ _ fuel enough
      intro other member
      obtain old | isHere := mem_append.mp member
      · exact isSwept other old
      · rw [mem_singleton.mp isHere]
        exact Bool.not_eq_true _ ▸ passes

theorem consists_of_sound {callbacks : Callbacks} (sound : Sound callbacks hs) : Consists hs where
  distinct := by
    rw [List.Nodup, pairwise_map]
    exact sound.apart.imp fun apart => apart.2
  counted := sound.counted

/-- The loop that removes the entries which pass a test ends, visits every entry once, removes
through no bad iterator, and leaves exactly the other entries. -/
theorem removeLoop_reset (hs : Hashset) (consists : Consists hs) (test : Entry → Bool)
    (iter : Iterator) :
    ∃ after, (∀ fuel, hs.entries.length < fuel →
        removeLoop test fuel hs (zbxHashsetIterReset iter) [] = some (.ok (after, hs.entries))) ∧
      hs.entries.Nodup ∧ after.entries = hs.entries.filter (fun entry => !test entry) ∧
      after.numData + hs.entries.countP test = hs.numData := by
  refine ⟨swept test hs, fun fuel enough => ?_, ?_, ?_, ?_⟩
  · have stands := Stands.between [] hs.slots hs.numData (zbxHashsetIterReset iter) rfl (Or.inl rfl)
    exact removeLoop_spec consists stands (fun _ member => nomatch member) enough []
  · exact List.Nodup.of_map _ consists.distinct
  · rw [swept, Hashset.entries, Hashset.entries, filter_flatten]
  · rw [swept, consists.counted]
    exact Nat.sub_add_cancel (countP_le_length)

def fiveEntries : Hashset where
  slots := [[⟨100, 2, [7, 7]⟩, ⟨200, 0, []⟩], [⟨300, 1, [8]⟩, ⟨400, 3, [1, 2, 3]⟩, ⟨500, 1, [9]⟩]]
  numData := 5

theorem sound_fiveEntries : Sound byteCallbacks fiveEntries where
  slotted := slotted_iff.mpr (by decide)
  counted := rfl
  hashed := by decide
  apart := by
    unfold Apart
    decide

/-- Both heads of slots and an entry within a chain are removed. -/
theorem removeLoop_fiveEntries :
    ∃ after, removeLoop (fun entry => entry.address ≠ 400) 6 fiveEntries
        (zbxHashsetIterReset ⟨0, none⟩) [] = some (.ok (after, fiveEntries.entries)) ∧
      after.entries = [⟨400, 3, [1, 2, 3]⟩] ∧ after.numData = 1 := by
  obtain ⟨after, ends, -, entries, counted⟩ :=
    removeLoop_reset fiveEntries (consists_of_sound sound_fiveEntries)
      (fun entry => entry.address ≠ 400) ⟨0, none⟩
  exact ⟨after, ends 6 (by decide), entries, Nat.add_right_cancel counted⟩

end Zabbix.Algo.HashsetIterator
