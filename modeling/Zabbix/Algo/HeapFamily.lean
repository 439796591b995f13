import Mathlib.Order.Lattice
import Zabbix.Algo.HeapOrder

/-!
# A family of heaps with every key in its own heap

Several direct heaps hold the keys between them.  `Filed queues place` says that
a key is in the heap that `place` gives for it, and in no other.  The heap
operations move a key, and `place` with it.
-/

namespace Zabbix.Algo.HeapFamily

open BinaryHeap DirectHeap

variable {Index Data : Type*}

/-- Every key is in the heap of its place only. -/
structure Filed (queues : Index → Heap Data) (place : Nat → Option Index) : Prop where
  indexed : ∀ index, Indexed (queues index)
  exact : ∀ index key, key ∈ keys (queues index) ↔ place key = some index

variable {queues : Index → Heap Data} {place place' : Nat → Option Index}

theorem filed_congr (filed : Filed queues place) (same : ∀ key, place' key = place key) :
    Filed queues place' where
  indexed := filed.indexed
  exact index key := by rw [filed.exact, same]

theorem filed_empty : Filed (fun _ : Index => { direct := true : Heap Data }) fun _ => none where
  indexed _ :=
    { direct := rfl
      exact := by simp [keys] }
  exact _ _ := by simp [keys]

theorem filed_once (filed : Filed queues place) {index : Index} {key : Nat}
    (isPlace : place key = some index) :
    (keys (queues index)).count key = 1 ∧
      ∀ other, other ≠ index → key ∉ keys (queues other) := by
  constructor
  · exact List.count_eq_one_of_mem (keys_nodup (filed.indexed index))
      ((filed.exact index key).mpr isPlace)
  · intro other different member
    rw [filed.exact, isPlace, Option.some.injEq] at member
    exact different member.symm

variable [DecidableEq Index]

theorem filed_replace (filed : Filed queues place) (index : Index) {after : Heap Data}
    (isIndexed : Indexed after)
    (own : ∀ key, key ∈ keys after ↔ place' key = some index)
    (others : ∀ other, other ≠ index → ∀ key, place' key = some other ↔ place key = some other) :
    Filed (Function.update queues index after) place' where
  indexed other := by
    by_cases same : other = index
    · rw [same, Function.update_self]
      exact isIndexed
    · rw [Function.update_of_ne same]
      exact filed.indexed other
  exact other key := by
    by_cases same : other = index
    · rw [same, Function.update_self]
      exact own key
    · rw [Function.update_of_ne same, others other same]
      exact filed.exact other key

section Operations

variable (compare : Elem Data → Elem Data → Int)

variable (filed : Filed queues place)

include filed

theorem filed_insert (index : Index) {elem : Elem Data}
    (absent : place elem.key = none) :
    ∃ after, zbxBinaryHeapInsert compare (queues index) elem = some after ∧
      Filed (Function.update queues index after)
        (Function.update place elem.key (some index)) := by
  have new : elem.key ∉ keys (queues index) := by
    rw [filed.exact, absent]
    exact nofun
  obtain ⟨after, inserted, isIndexed, permuted⟩ := insert_spec compare (filed.indexed index) new
  refine ⟨after, inserted, filed_replace filed index isIndexed ?_ ?_⟩
  · intro key
    rw [keys, (permuted.map Elem.key).mem_iff, List.map_cons, List.mem_cons, Function.update_apply]
    by_cases same : key = elem.key
    · simp [same]
    · rw [if_neg same, or_iff_right same]
      exact filed.exact index key
  · intro other different key
    rw [Function.update_apply]
    by_cases same : key = elem.key
    · simp [same, absent, Ne.symm different]
    · rw [if_neg same]

theorem filed_update {index : Index} {elem : Elem Data}
    (isPlace : place elem.key = some index) :
    ∃ after, zbxBinaryHeapUpdateDirect compare (queues index) elem = some after ∧
      Filed (Function.update queues index after) place := by
  obtain ⟨after, updated, isIndexed, permuted⟩ := updateDirect_keys compare
    (filed.indexed index) ((filed.exact index elem.key).mpr isPlace)
  refine ⟨after, updated, filed_replace filed index isIndexed ?_ fun _ _ _ => Iff.rfl⟩
  intro key
  rw [permuted.mem_iff]
  exact filed.exact index key

theorem filed_forget {index : Index} {elem : Elem Data}
    {after : Heap Data} (isIndexed : Indexed after)
    (permuted : (queues index).elems.Perm (elem :: after.elems)) :
    place elem.key = some index ∧
      Filed (Function.update queues index after) (Function.update place elem.key none) := by
  have keysPermuted : (keys (queues index)).Perm (elem.key :: keys after) :=
    permuted.map Elem.key
  have isPlace : place elem.key = some index :=
    (filed.exact index elem.key).mp (keysPermuted.mem_iff.mpr List.mem_cons_self)
  have gone : elem.key ∉ keys after :=
    (List.nodup_cons.mp (keysPermuted.nodup_iff.mp (keys_nodup (filed.indexed index)))).1
  refine ⟨isPlace, filed_replace filed index isIndexed ?_ ?_⟩
  · intro key
    rw [Function.update_apply]
    by_cases same : key = elem.key
    · simp [same, gone]
    · rw [if_neg same, ← filed.exact, keysPermuted.mem_iff, List.mem_cons, or_iff_right same]
  · intro other different key
    rw [Function.update_apply]
    by_cases same : key = elem.key
    · simp [same, isPlace, Ne.symm different]
    · rw [if_neg same]

theorem filed_remove {index : Index} {key : Nat}
    (isPlace : place key = some index) :
    ∃ after, zbxBinaryHeapRemoveDirect compare (queues index) key = some after ∧
      Filed (Function.update queues index after) (Function.update place key none) := by
  obtain ⟨after, elem, removed, isIndexed, rfl, permuted⟩ := removeDirect_spec compare
    (filed.indexed index) ((filed.exact index key).mpr isPlace)
  exact ⟨after, removed, (filed_forget filed isIndexed permuted).2⟩

theorem filed_removeMin {index : Index} {minimum : Elem Data}
    (found : zbxBinaryHeapFindMin (queues index) = some minimum) :
    place minimum.key = some index ∧
      ∃ after, zbxBinaryHeapRemoveMin compare (queues index) = some after ∧
        Filed (Function.update queues index after) (Function.update place minimum.key none) := by
  obtain ⟨after, removed, isIndexed, permuted⟩ := removeMin_spec compare
    (filed.indexed index) found
  obtain ⟨isPlace, isFiled⟩ := filed_forget filed isIndexed permuted
  exact ⟨isPlace, after, removed, isFiled⟩

end Operations

end Zabbix.Algo.HeapFamily

/-!
# Heaps under two compare functions

The keys that a heap compares may stand outside of it.  An operation compares only the elements of
the heap, so it is the same under every compare function that agrees on these.  When the order of
one element has changed, its update or removal puts the heap in order again, and without either
the heap is in order exactly when the element still is.
-/

namespace Zabbix.Algo.HeapAgreement

open BinaryHeap DirectHeap HeapOrder Library.HeapOrder

variable {Data : Type*}

/-- Two compare functions agree on some elements. -/
def AgreeOn (member : Elem Data → Prop) (compare other : Elem Data → Elem Data → Int) : Prop :=
  ∀ first, member first → ∀ second, member second → compare first second = other first second

variable {compare other : Elem Data → Elem Data → Int} {heap : Heap Data}
  {member smaller : Elem Data → Prop}

theorem AgreeOn.mono (agree : AgreeOn member compare other)
    (included : ∀ elem, smaller elem → member elem) : AgreeOn smaller compare other :=
  fun first isFirst second isSecond =>
    agree first (included first isFirst) second (included second isSecond)

theorem AgreeOn.symm (agree : AgreeOn member compare other) : AgreeOn member other compare :=
  fun first isFirst second isSecond => (agree first isFirst second isSecond).symm

/-! ## Compare functions of keys -/

/-- The compare function of a linear order of what the elements stand for. -/
def orderCompare {Rank : Type*} [LinearOrder Rank] (rank : Elem Data → Rank)
    (first second : Elem Data) : Int :=
  if rank first < rank second then -1 else if rank second < rank first then 1 else 0

theorem orderCompare_le_iff {Rank : Type*} [LinearOrder Rank] {rank : Elem Data → Rank}
    {first second : Elem Data} :
    orderCompare rank first second ≤ 0 ↔ rank first ≤ rank second := by
  rw [orderCompare]
  split_ifs with isLess isGreater
  · exact iff_of_true (by decide) isLess.le
  · exact iff_of_false (by decide) isGreater.not_ge
  · exact iff_of_true (Int.le_refl 0) (not_lt.mp isGreater)

theorem orderCompare_preorder {Rank : Type*} [LinearOrder Rank] (rank : Elem Data → Rank) :
    TotalPreorder (orderCompare rank) where
  total first second := by
    rw [orderCompare_le_iff, orderCompare_le_iff]
    exact le_total _ _
  trans first second third := by
    rw [orderCompare_le_iff, orderCompare_le_iff, orderCompare_le_iff]
    exact le_trans

theorem orderCompare_agree {Rank : Type*} [LinearOrder Rank] {rank other : Elem Data → Rank}
    {member : Elem Data → Prop} (same : ∀ elem, member elem → rank elem = other elem) :
    AgreeOn member (orderCompare rank) (orderCompare other) := by
  intro first isFirst second isSecond
  rw [orderCompare, orderCompare, same first isFirst, same second isSecond]

/-! ## The same operations -/

variable (agree : AgreeOn (· ∈ heap.elems) compare other)

include agree

theorem compareAt_agree (index1 index2 : Nat) :
    compareAt compare heap index1 index2 = compareAt other heap index1 index2 := by
  unfold compareAt
  cases found1 : heap.elems[index1]? with
  | none => rfl
  | some elem1 =>
    cases found2 : heap.elems[index2]? with
    | none => rfl
    | some elem2 =>
      exact agree elem1 (List.mem_of_getElem? found1) elem2 (List.mem_of_getElem? found2)

theorem AgreeOn.perm {after : Heap Data}
    (permuted : after.elems.Perm heap.elems) : AgreeOn (· ∈ after.elems) compare other :=
  agree.mono fun _ => permuted.mem_iff.mp

theorem bubbleUp_agree (fuel index : Nat) :
    bubbleUp compare fuel heap index = bubbleUp other fuel heap index := by
  induction fuel generalizing heap index with
  | zero => rfl
  | succ fuel ih =>
    rw [bubbleUp, bubbleUp, compareAt_agree agree, ih (agree.perm (swap_elems_perm heap _ _))]

theorem sinkTo_agree (index : Nat) :
    sinkTo compare heap index = sinkTo other heap index := by
  simp only [sinkTo, compareAt_agree agree]

theorem bubbleDown_agree (fuel index : Nat) :
    bubbleDown compare fuel heap index = bubbleDown other fuel heap index := by
  induction fuel generalizing heap index with
  | zero => rfl
  | succ fuel ih =>
    rw [bubbleDown_succ, bubbleDown_succ, sinkTo_agree agree]
    cases sinkTo other heap index with
    | none => rfl
    | some child =>
      dsimp only
      rw [ih (agree.perm (swap_elems_perm heap _ _))]

/-- Bubbling up, and down if that moved nothing, as updates and removals do. -/
theorem bubble_agree (up down index : Nat) :
    (bubbleUp compare up heap index = bubbleUp other up heap index) ∧
      bubbleDown compare down (bubbleUp compare up heap index).1 index =
        bubbleDown other down (bubbleUp other up heap index).1 index := by
  have isUp := bubbleUp_agree agree up index
  refine ⟨isUp, ?_⟩
  rw [← isUp, bubbleDown_agree (agree.perm (bubbleUp_elems_perm compare up heap index))]

omit agree

theorem insert_agree {elem : Elem Data} (agree : AgreeOn (· ∈ elem :: heap.elems) compare other) :
    zbxBinaryHeapInsert compare heap elem = zbxBinaryHeapInsert other heap elem := by
  have agreeAppended : AgreeOn (· ∈ heap.elems ++ [elem]) compare other :=
    agree.mono fun _ => (List.perm_append_singleton elem heap.elems).mem_iff.mp
  rw [zbxBinaryHeapInsert, zbxBinaryHeapInsert,
    @bubbleUp_agree _ _ _ { heap with elems := heap.elems ++ [elem] } agreeAppended]

theorem removeMin_agree (agree : AgreeOn (· ∈ heap.elems) compare other) :
    zbxBinaryHeapRemoveMin compare heap = zbxBinaryHeapRemoveMin other heap := by
  unfold zbxBinaryHeapRemoveMin
  cases shape : heap.elems with
  | nil => rfl
  | cons minimum rest =>
    dsimp only
    cases lastFound : rest.getLast? with
    | none => rfl
    | some last =>
      have agreeMoved : AgreeOn (· ∈ last :: rest.dropLast) compare other := by
        refine agree.mono fun elem isElem => ?_
        rw [shape]
        obtain rfl | isElem := List.mem_cons.mp isElem
        · exact List.mem_cons_of_mem _ (List.mem_of_getLast? lastFound)
        · exact List.mem_cons_of_mem _ (rest.dropLast_subset isElem)
      dsimp only
      rw [@bubbleDown_agree _ _ _ { heap.forget minimum.key with
        elems := last :: rest.dropLast } agreeMoved]

theorem updateDirect_agree {elem : Elem Data}
    (agree : AgreeOn (· ∈ elem :: heap.elems) compare other) :
    zbxBinaryHeapUpdateDirect compare heap elem = zbxBinaryHeapUpdateDirect other heap elem := by
  unfold zbxBinaryHeapUpdateDirect
  split_ifs
  · rfl
  · congr 1
    funext index
    have agreeSet : AgreeOn (· ∈ heap.elems.set index elem) compare other := by
      refine agree.mono fun first isFirst => ?_
      obtain isFirst | isElem := List.mem_or_eq_of_mem_set isFirst
      · exact List.mem_cons_of_mem _ isFirst
      · exact isElem ▸ List.mem_cons_self
    obtain ⟨isUp, isDown⟩ := @bubble_agree _ _ _ { heap with elems := heap.elems.set index elem }
      agreeSet (heap.elems.length + 1) heap.elems.length index
    dsimp only
    rw [isDown, isUp]

theorem removeDirect_agree (agree : AgreeOn (· ∈ heap.elems) compare other) (key : Nat) :
    zbxBinaryHeapRemoveDirect compare heap key = zbxBinaryHeapRemoveDirect other heap key := by
  unfold zbxBinaryHeapRemoveDirect
  cases heap.keyIndex key with
  | none => rfl
  | some index =>
    cases lastFound : heap.elems.getLast? with
    | none => rfl
    | some last =>
      have agreeMoved : AgreeOn (· ∈ heap.elems.dropLast.set index last) compare other := by
        refine agree.mono fun elem isElem => ?_
        obtain isElem | isLast := List.mem_or_eq_of_mem_set isElem
        · exact heap.elems.dropLast_subset isElem
        · exact isLast ▸ List.mem_of_getLast? lastFound
      obtain ⟨isUp, isDown⟩ := @bubble_agree _ _ _ { heap.removeIndex key with
        elems := heap.elems.dropLast.set index last } agreeMoved heap.elems.length
          heap.elems.length index
      dsimp only
      rw [isDown, isUp]

theorem heapOrdered_agree (agree : AgreeOn (· ∈ heap.elems) compare other)
    (ordered : HeapOrdered compare heap) : HeapOrdered other heap := by
  intro position positive lower isLower upper isUpper
  rw [leq, ← agree lower (List.mem_of_getElem? isLower) upper (List.mem_of_getElem? isUpper)]
  exact ordered position positive lower isLower upper isUpper

/-! ## One element in another order -/

def AgreeOff (key : Nat) (heap : Heap Data) (compare other : Elem Data → Elem Data → Int) : Prop :=
  AgreeOn (fun elem => elem ∈ heap.elems ∧ elem.key ≠ key) compare other

theorem key_ne_of_position_ne (indexed : Indexed heap) {key index position : Nat} {elem : Elem Data}
    (found : heap.keyIndex key = some index) (isElem : heap.elems[position]? = some elem)
    (isOther : position ≠ index) : elem.key ≠ key := by
  rintro rfl
  refine isOther (position_unique indexed ?_ ((indexed.exact _ _).mp found))
  rw [getElem?_keys, isElem]
  rfl

theorem orderedBut_agree (preorder : TotalPreorder compare) (ordered : HeapOrdered compare heap)
    (indexed : Indexed heap) {key : Nat} (agree : AgreeOff key heap compare other) :
    OrderedBut other heap key := by
  intro index found changed kept
  have around := around_of_kept preorder ordered kept
  have convert {index1 index2 : Nat} (isOther1 : index1 ≠ index) (isOther2 : index2 ≠ index)
      (inOrder : InOrder (leq compare) (view changed) index1 index2) :
      InOrder (leq other) (view changed) index1 index2 := by
    intro lower isLower upper isUpper
    have wasLower := kept index1 isOther1 lower isLower
    have wasUpper := kept index2 isOther2 upper isUpper
    rw [leq, ← agree lower
      ⟨List.mem_of_getElem? wasLower, key_ne_of_position_ne indexed found wasLower isOther1⟩ upper
      ⟨List.mem_of_getElem? wasUpper, key_ne_of_position_ne indexed found wasUpper isOther2⟩]
    exact inOrder lower isLower upper isUpper
  constructor
  · intro position positive isOther notChild
    exact convert notChild isOther (around.except position positive isOther notChild)
  · intro positive position positivePosition isChild
    have above := parent_lt positive
    have below := parent_lt positivePosition
    exact convert (by omega) (by omega) (around.grand positive position positivePosition isChild)

/-- Without an update the heap is in order exactly when the changed element still is. -/
theorem heapOrdered_iff_of_but {key index : Nat} (ordered : OrderedBut compare heap key)
    (found : heap.keyIndex key = some index) :
    HeapOrdered compare heap ↔ AboveChildren (leq compare) (view heap) index ∧
      BelowParent (leq compare) (view heap) index := by
  constructor
  · intro isOrdered
    refine ⟨fun position positive isChild => ?_, fun positive => isOrdered index positive⟩
    exact isChild ▸ isOrdered position positive
  · rintro ⟨above, below⟩
    exact (ordered index found heap fun _ _ _ isElem => isElem).ordered above below

end Zabbix.Algo.HeapAgreement
