import Mathlib.Data.List.Perm.Basic

/-!
# Tables of slots

A hash table keeps its entries in slots, and every entry belongs into the slot
its place function names.  Growing such a table in place goes through the old
slots and moves every entry that belongs elsewhere.  `Moves` is what one slot's
turn may do to the others, `Rehashed` adds that the slot itself is settled, and
`slotted_foldl` says that the turns together settle the whole table.
-/

namespace Zabbix.Library.SlotTable

open List

variable {Entry : Type*} {place : Entry → Nat}

/-- Every entry stands in the slot where it belongs. -/
def Slotted (place : Entry → Nat) (slots : List (List Entry)) : Prop :=
  ∀ slot chain, slots[slot]? = some chain → ∀ entry ∈ chain, place entry = slot

/-- The entries of a slot; a slot outside the table has none. -/
def chainAt (slots : List (List Entry)) (slot : Nat) : List Entry :=
  slots.getD slot []

theorem getElem?_of_lt {slots : List (List Entry)} {slot : Nat} (inside : slot < slots.length) :
    slots[slot]? = some (chainAt slots slot) := by
  rw [chainAt, getD_eq_getElem?_getD, getElem?_eq_getElem inside]
  rfl

theorem chainAt_of_getElem? {slots : List (List Entry)} {slot : Nat} {chain : List Entry}
    (found : slots[slot]? = some chain) : chainAt slots slot = chain := by
  rw [chainAt, getD_eq_getElem?_getD, found]
  rfl

theorem chainAt_middle (front back : List (List Entry)) (chain : List Entry) :
    chainAt (front ++ chain :: back) front.length = chain :=
  chainAt_of_getElem? (by rw [getElem?_append_right (Nat.le_refl _), Nat.sub_self]; rfl)

theorem set_middle (front back : List (List Entry)) (chain replaced : List Entry) :
    (front ++ chain :: back).set front.length replaced = front ++ replaced :: back := by
  rw [set_append_right _ _ (Nat.le_refl _), Nat.sub_self]
  rfl

theorem chainAt_set_self {slots : List (List Entry)} {slot : Nat}
    (inside : slot < slots.length) (chain : List Entry) :
    chainAt (slots.set slot chain) slot = chain :=
  chainAt_of_getElem? (getElem?_set_self inside)

theorem chainAt_set_ne {slots : List (List Entry)} {slot other : Nat} (differ : slot ≠ other)
    (chain : List Entry) :
    chainAt (slots.set slot chain) other = chainAt slots other := by
  rw [chainAt, chainAt, getD_eq_getElem?_getD, getD_eq_getElem?_getD, getElem?_set_ne differ]

theorem mem_flatten_iff {slots : List (List Entry)} {entry : Entry} :
    entry ∈ slots.flatten ↔ ∃ slot < slots.length, entry ∈ chainAt slots slot := by
  rw [mem_flatten]
  constructor
  · rintro ⟨chain, member, inChain⟩
    obtain ⟨slot, found⟩ := mem_iff_getElem?.mp member
    exact ⟨slot, (List.getElem?_eq_some_iff.mp found).1, chainAt_of_getElem? found ▸ inChain⟩
  · rintro ⟨slot, inside, inChain⟩
    exact ⟨_, mem_iff_getElem?.mpr ⟨slot, getElem?_of_lt inside⟩, inChain⟩

theorem mem_flatten_of_mem_chainAt {slots : List (List Entry)} {slot : Nat} {entry : Entry}
    (member : entry ∈ chainAt slots slot) : slot < slots.length ∧ entry ∈ slots.flatten := by
  by_cases inside : slot < slots.length
  · exact ⟨inside, mem_flatten_iff.mpr ⟨slot, inside, member⟩⟩
  · rw [chainAt, getD_eq_getElem?_getD, getElem?_eq_none (Nat.not_lt.mp inside)]
      at member
    cases member

theorem slotted_iff {slots : List (List Entry)} :
    Slotted place slots ↔
      ∀ slot < slots.length, ∀ entry ∈ chainAt slots slot, place entry = slot := by
  constructor
  · intro slotted slot inside
    exact slotted slot _ (getElem?_of_lt inside)
  · intro each slot chain found
    have inside := (List.getElem?_eq_some_iff.mp found).1
    exact chainAt_of_getElem? found ▸ each slot inside

theorem mem_chainAt_iff {slots : List (List Entry)} (slotted : Slotted place slots)
    {entry : Entry} (inside : place entry < slots.length) :
    entry ∈ chainAt slots (place entry) ↔ entry ∈ slots.flatten := by
  rw [mem_flatten_iff]
  constructor
  · intro member
    exact ⟨_, inside, member⟩
  · rintro ⟨slot, bound, member⟩
    rw [slotted_iff.mp slotted slot bound entry member]
    exact member

theorem slotted_set {slots : List (List Entry)} (slotted : Slotted place slots) {slot : Nat}
    {chain : List Entry} (belong : ∀ entry ∈ chain, place entry = slot) :
    Slotted place (slots.set slot chain) := by
  intro other found isFound entry member
  rw [getElem?_set] at isFound
  split_ifs at isFound with same inside
  · rw [Option.some.injEq] at isFound
    subst isFound
    exact same ▸ belong entry member
  · exact slotted other found isFound entry member

theorem exists_rest (slots : List (List Entry)) {slot : Nat} (inside : slot < slots.length) :
    ∃ rest : List Entry, slots.flatten.Perm (chainAt slots slot ++ rest) ∧
      ∀ chain, (slots.set slot chain).flatten.Perm (chain ++ rest) := by
  have around (chain : List Entry) : (slots.set slot chain).flatten.Perm
      (chain ++ ((slots.take slot).flatten ++ (slots.drop (slot + 1)).flatten)) := by
    rw [set_eq_take_append_cons_drop, if_pos inside, flatten_append, flatten_cons,
      ← append_assoc, ← append_assoc]
    exact List.Perm.append_right _ perm_append_comm
  have same : slots.set slot (chainAt slots slot) = slots := by
    obtain ⟨bound, isChain⟩ := List.getElem?_eq_some_iff.mp (getElem?_of_lt inside)
    rw [← isChain]
    exact set_getElem_self bound
  have whole := around (chainAt slots slot)
  rw [same] at whole
  exact ⟨_, whole, around⟩

theorem flatten_set_of_added {slots : List (List Entry)} {slot : Nat} {chain : List Entry}
    {entry : Entry} (inside : slot < slots.length)
    (added : chain.Perm (entry :: chainAt slots slot)) :
    (slots.set slot chain).flatten.Perm (entry :: slots.flatten) := by
  obtain ⟨rest, whole, replaced⟩ := exists_rest slots inside
  calc (slots.set slot chain).flatten
    List.Perm _ (chain ++ rest) := replaced chain
    List.Perm _ (entry :: (chainAt slots slot ++ rest)) := added.append_right rest
    List.Perm _ (entry :: slots.flatten) := whole.symm.cons entry

theorem flatten_of_removed {slots : List (List Entry)} {slot : Nat} {chain : List Entry}
    {entry : Entry} (inside : slot < slots.length)
    (removed : (chainAt slots slot).Perm (entry :: chain)) :
    slots.flatten.Perm (entry :: (slots.set slot chain).flatten) := by
  obtain ⟨rest, whole, replaced⟩ := exists_rest slots inside
  calc slots.flatten
    List.Perm _ (chainAt slots slot ++ rest) := whole
    List.Perm _ (entry :: (chain ++ rest)) := removed.append_right rest
    List.Perm _ (entry :: (slots.set slot chain).flatten) := (replaced chain).symm.cons entry

/-! ## Growing in place -/

/-- What the turn of one slot may do: other slots only get entries that belong into them. -/
structure Moves (place : Entry → Nat) (slot : Nat) (before after : List (List Entry)) : Prop where
  length : after.length = before.length
  entries : after.flatten.Perm before.flatten
  others : ∀ other, other ≠ slot → ∀ entry ∈ chainAt after other,
    entry ∈ chainAt before other ∨ place entry = other

variable {slot : Nat} {before middle after : List (List Entry)}

theorem Moves.refl : Moves place slot before before :=
  ⟨rfl, List.Perm.refl _, fun _ _ _ member => Or.inl member⟩

theorem Moves.trans (first : Moves place slot before middle)
    (second : Moves place slot middle after) : Moves place slot before after where
  length := second.length.trans first.length
  entries := second.entries.trans first.entries
  others := by
    intro other differ entry member
    rcases second.others other differ entry member with earlier | belongs
    · exact first.others other differ entry earlier
    · exact Or.inr belongs

theorem moves_entry {target : Nat} {entry : Entry} {chain targetChain : List Entry}
    (differ : slot ≠ target) (inside : slot < before.length) (fits : target < before.length)
    (leaves : (chainAt before slot).Perm (entry :: chain))
    (arrives : targetChain.Perm (entry :: chainAt before target))
    (belongs : place entry = target) :
    Moves place slot before ((before.set target targetChain).set slot chain) where
  length := by rw [length_set, length_set]
  entries := by
    have kept : chainAt (before.set target targetChain) slot = chainAt before slot :=
      chainAt_set_ne differ.symm targetChain
    have stillInside : slot < (before.set target targetChain).length := by
      rw [length_set]
      exact inside
    -- the entry is counted twice after it arrives, and once again after it leaves
    have arrived := flatten_set_of_added fits arrives
    have left := flatten_of_removed stillInside (kept.symm ▸ leaves)
    exact (left.symm.trans arrived).cons_inv
  others := by
    intro other elsewhere moved member
    rw [chainAt_set_ne elsewhere.symm] at member
    by_cases isTarget : target = other
    · subst isTarget
      rw [chainAt_set_self fits, arrives.mem_iff, mem_cons] at member
      rcases member with rfl | old
      · exact Or.inr belongs
      · exact Or.inl old
    · rw [chainAt_set_ne isTarget] at member
      exact Or.inl member

/-- After its turn a slot holds only entries that belong into it. -/
structure Rehashed (place : Entry → Nat) (slot : Nat) (before after : List (List Entry)) : Prop
    extends Moves place slot before after where
  settled : ∀ entry ∈ chainAt after slot, place entry = slot

/-- The slots below `turn` are settled, and so are those behind the old table. -/
def SettledBelow (place : Entry → Nat) (old turn : Nat) (slots : List (List Entry)) : Prop :=
  ∀ slot, slot < turn ∨ old ≤ slot → ∀ entry ∈ chainAt slots slot, place entry = slot

theorem Rehashed.settledBelow {old : Nat} (turn : Rehashed place slot before after)
    (settled : SettledBelow place old slot before) : SettledBelow place old (slot + 1) after := by
  intro other done entry member
  by_cases own : other = slot
  · subst own
    exact turn.settled entry member
  · rcases turn.others other own entry member with earlier | belongs
    · exact settled other (by omega) entry earlier
    · exact belongs

theorem slotted_foldl {old size : Nat} {turn : List (List Entry) → Nat → List (List Entry)}
    (each : ∀ slots slot, slot < old → slots.length = size →
      Rehashed place slot slots (turn slots slot))
    {slots : List (List Entry)} (sized : slots.length = size)
    (fresh : ∀ slot, old ≤ slot → chainAt slots slot = []) :
    ((range old).foldl turn slots).length = size ∧
      ((range old).foldl turn slots).flatten.Perm slots.flatten ∧
      Slotted place ((range old).foldl turn slots) := by
  have below (done : Nat) (bound : done ≤ old) :
      ((range done).foldl turn slots).length = size ∧
        ((range done).foldl turn slots).flatten.Perm slots.flatten ∧
        SettledBelow place old done ((range done).foldl turn slots) := by
    induction done with
    | zero =>
      refine ⟨sized, List.Perm.refl _, ?_⟩
      intro slot reached entry member
      rw [range_zero, foldl_nil, fresh slot (by omega)] at member
      cases member
    | succ done ih =>
      obtain ⟨length, permuted, settled⟩ := ih (by omega)
      rw [range_succ, foldl_append, foldl_cons, foldl_nil]
      have next := each _ done (by omega) length
      exact ⟨next.length.trans length, next.entries.trans permuted, next.settledBelow settled⟩
  obtain ⟨length, permuted, settled⟩ := below old (Nat.le_refl old)
  refine ⟨length, permuted, slotted_iff.mpr ?_⟩
  intro slot _
  exact settled slot (Nat.lt_or_ge slot old)

theorem slotted_grow {size : Nat} {turn : List (List Entry) → Nat → List (List Entry)}
    {slots : List (List Entry)} (grows : slots.length ≤ size)
    (each : ∀ before slot, slot < slots.length → before.length = size →
      Rehashed place slot before (turn before slot)) :
    let grown := (range slots.length).foldl turn
      (slots ++ replicate (size - slots.length) [])
    grown.length = size ∧ grown.flatten.Perm slots.flatten ∧ Slotted place grown := by
  have sized : (slots ++ replicate (size - slots.length) []).length = size := by
    rw [length_append, length_replicate]
    omega
  have fresh (slot : Nat) (behind : slots.length ≤ slot) :
      chainAt (slots ++ replicate (size - slots.length) []) slot = [] := by
    rw [chainAt, getD_eq_getElem?_getD, getElem?_append_right behind]
    cases found : (replicate (size - slots.length)
        ([] : List Entry))[slot - slots.length]? with
    | none => rfl
    | some chain => exact eq_of_mem_replicate (mem_of_getElem? found)
  have same : (slots ++ replicate (size - slots.length) []).flatten = slots.flatten := by
    rw [flatten_append, List.flatten_replicate_nil, append_nil]
  have walked := slotted_foldl each sized fresh
  rw [same] at walked
  exact walked

/-! ## Slots that are arrays -/

/-- The elements without one of them, whose place the last one takes. -/
theorem perm_set_last {front : List Entry} {index : Nat} {elem : Entry}
    (found : front[index]? = some elem) (last : Entry) :
    (front ++ [last]).Perm (elem :: front.set index last) := by
  obtain ⟨inside, rfl⟩ := List.getElem?_eq_some_iff.mp found
  rw [set_eq_take_append_cons_drop, if_pos inside]
  have whole : front = front.take index ++ front[index] :: front.drop (index + 1) := by
    rw [getElem_cons_drop, take_append_drop]
  calc front ++ [last]
      = front.take index ++ front[index] :: (front.drop (index + 1) ++ [last]) := by
        rw [← cons_append, ← append_assoc, ← whole]
    List.Perm _ (front[index] :: (front.take index ++ (front.drop (index + 1) ++ [last]))) :=
        perm_middle
    List.Perm _ (front[index] :: (front.take index ++ last :: front.drop (index + 1))) := by
        refine List.Perm.cons _ (List.Perm.append_left _ ?_)
        exact perm_append_singleton _ _

end Zabbix.Library.SlotTable
