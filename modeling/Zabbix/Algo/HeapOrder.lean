import Zabbix.Algo.DirectHeap
import Zabbix.Library.HeapOrder

/-!
# The order of `zbxalgo` heaps

Every operation keeps the heap order when the compare function is a total
preorder.  After a change at one position the heap is in order around it;
bubbling up or down moves the changed element until it is in order too.
-/

namespace Zabbix.Algo.HeapOrder

open BinaryHeap DirectHeap Library.HeapOrder Option
open List hiding swap

variable {Data : Type*}

structure TotalPreorder (compare : Elem Data → Elem Data → Int) : Prop where
  total : ∀ first second, compare first second ≤ 0 ∨ compare second first ≤ 0
  trans : ∀ first second third, compare first second ≤ 0 → compare second third ≤ 0 →
    compare first third ≤ 0

variable {compare : Elem Data → Elem Data → Int} {heap : Heap Data}

theorem TotalPreorder.refl (preorder : TotalPreorder compare) (elem : Elem Data) :
    compare elem elem ≤ 0 :=
  or_self_iff.mp (preorder.total elem elem)

theorem TotalPreorder.of_pos (preorder : TotalPreorder compare) {first second : Elem Data}
    (later : 0 < compare first second) : compare second first ≤ 0 :=
  (preorder.total first second).resolve_left (Int.not_le.mpr later)

def view (heap : Heap Data) (position : Nat) : Option (Elem Data) :=
  heap.elems[position]?

/-- The order of the compare function. -/
def leq (compare : Elem Data → Elem Data → Int) (first second : Elem Data) : Prop :=
  compare first second ≤ 0

/-- The heap order of `heap->elems`. -/
def HeapOrdered (compare : Elem Data → Elem Data → Int) (heap : Heap Data) : Prop :=
  Ordered (leq compare) (view heap)

theorem view_closed (heap : Heap Data) (position : Nat) (positive : 0 < position)
    (held : (view heap position).isSome) : (view heap (parent position)).isSome := by
  rw [view, isSome_iff_exists] at held ⊢
  obtain ⟨elem, found⟩ := held
  have inside := (List.getElem?_eq_some_iff.mp found).1
  exact ⟨_, getElem?_eq_getElem (Nat.lt_trans (parent_lt positive) inside)⟩

theorem view_eq_none {position : Nat} (outside : heap.elems.length ≤ position) :
    view heap position = none :=
  getElem?_eq_none outside

theorem compareAt_le_iff {index1 index2 : Nat} :
    compareAt compare heap index1 index2 ≤ 0 ↔
      InOrder (leq compare) (view heap) index1 index2 := by
  unfold compareAt InOrder view leq
  cases heap.elems[index1]? with
  | none => simp
  | some elem1 =>
    cases heap.elems[index2]? with
    | none => simp
    | some elem2 => simp

theorem inOrder_of_outside {index1 index2 : Nat} (outside : heap.elems.length ≤ index2) :
    InOrder (leq compare) (view heap) index1 index2 := by
  intro lower _ upper isUpper
  rw [view_eq_none outside] at isUpper
  cases isUpper

theorem swap_elems {index1 index2 : Nat} {elem1 elem2 : Elem Data}
    (found1 : heap.elems[index1]? = some elem1) (found2 : heap.elems[index2]? = some elem2) :
    (swap heap index1 index2).elems = (heap.elems.set index1 elem2).set index2 elem1 := by
  unfold swap
  simp only [found1, found2]
  split_ifs
  · rfl
  · rfl

theorem view_swap {index1 index2 : Nat} {elem1 elem2 : Elem Data}
    (found1 : heap.elems[index1]? = some elem1) (found2 : heap.elems[index2]? = some elem2) :
    view (swap heap index1 index2) = exchanged (view heap) index1 index2 := by
  funext position
  rw [view, swap_elems found1 found2]
  exact getElem?_set_set found1 found2 position

/-! ## Bubbling -/

variable (preorder : TotalPreorder compare)

include preorder

theorem bubbleUp_ordered {fuel index : Nat}
    (enough : index < fuel) (around : Around (leq compare) (view heap) index)
    (above : AboveChildren (leq compare) (view heap) index) :
    HeapOrdered compare (bubbleUp compare fuel heap index).1 := by
  induction fuel generalizing heap index with
  | zero => omega
  | succ fuel ih =>
    unfold bubbleUp
    split_ifs with isRoot inOrder
    · exact around.ordered above (fun positive => by omega)
    · exact around.ordered above (fun _ => compareAt_le_iff.mp inOrder)
    · obtain ⟨elem1, elem2, found1, found2⟩ := elems_of_compareAt
        (Ne.symm (Int.ne_of_lt (Int.not_le.mp inOrder)))
      have less : leq compare elem2 elem1 := by
        have later := Int.not_le.mp inOrder
        rw [compareAt, found1, found2] at later
        exact preorder.of_pos later
      have positive : 0 < index := Nat.pos_of_ne_zero isRoot
      have risen := around.rise preorder.trans positive found2 found1 less
      rw [parent, ← view_swap found1 found2] at risen
      exact ih (by omega) risen.1 risen.2

theorem sinkTo_cases (heap : Heap Data) (index : Nat) :
    heap.elems.length ≤ 2 * index + 1 ∧ sinkTo compare heap index = none ∨
      ∃ child, 0 < child ∧ parent child = index ∧ child < heap.elems.length ∧
        (∀ position, 0 < position → parent position = index →
          InOrder (leq compare) (view heap) child position) ∧
        sinkTo compare heap index =
          if 0 < compareAt compare heap index child then some child else none := by
  have children (position : Nat) (positive : 0 < position) (isChild : parent position = index) :
      position = 2 * index + 1 ∨ position = 2 * index + 2 := by
    unfold parent at isChild
    omega
  have reflexive (position : Nat) : InOrder (leq compare) (view heap) position position := by
    intro lower isLower upper isUpper
    rw [isLower] at isUpper
    exact some.inj isUpper ▸ preorder.refl lower
  unfold sinkTo
  dsimp only
  by_cases noChild : heap.elems.length ≤ 2 * index + 1
  · rw [if_pos noChild]
    exact Or.inl ⟨noChild, rfl⟩
  rw [if_neg noChild]
  refine Or.inr ?_
  by_cases leftFirst : heap.elems.length ≤ 2 * index + 2 ∨
      compareAt compare heap (2 * index + 1) (2 * index + 2) ≤ 0
  · rw [if_pos leftFirst]
    refine ⟨2 * index + 1, by omega, by unfold parent; omega, by omega, ?_, rfl⟩
    intro position positive isChild
    rcases children position positive isChild with rfl | rfl
    · exact reflexive _
    · rcases leftFirst with outside | inOrder
      · exact inOrder_of_outside outside
      · exact compareAt_le_iff.mp inOrder
  · rw [if_neg leftFirst]
    rw [not_or, Nat.not_le] at leftFirst
    refine ⟨2 * index + 2, by omega, by unfold parent; omega, leftFirst.1, ?_, rfl⟩
    intro position positive isChild
    rcases children position positive isChild with rfl | rfl
    · obtain ⟨elem1, elem2, found1, found2⟩ := elems_of_compareAt
        (Ne.symm (Int.ne_of_lt (Int.not_le.mp leftFirst.2)))
      rw [compareAt, found1, found2] at leftFirst
      intro lower isLower upper isUpper
      rw [view, found2] at isLower
      rw [view, found1] at isUpper
      rw [← some.inj isLower, ← some.inj isUpper]
      exact preorder.of_pos (Int.not_le.mp leftFirst.2)
    · exact reflexive _

theorem sinkTo_none {index : Nat}
    (stays : sinkTo compare heap index = none) :
    AboveChildren (leq compare) (view heap) index := by
  intro position positive isChild
  rcases sinkTo_cases preorder heap index with ⟨noChild, -⟩ | ⟨child, -, -, inside, least, sinks⟩
  · refine inOrder_of_outside ?_
    unfold parent at isChild
    omega
  · rw [stays] at sinks
    split_ifs at sinks with later
    have inOrder := compareAt_le_iff.mp (Int.not_lt.mp later)
    intro lower isLower upper isUpper
    have middle : view heap child = some heap.elems[child] := getElem?_eq_getElem inside
    exact preorder.trans _ _ _ (inOrder lower isLower _ middle)
      (least position positive isChild _ middle upper isUpper)

theorem sinkTo_some {index child : Nat}
    (sinks : sinkTo compare heap index = some child) :
    0 < child ∧ parent child = index ∧ child < heap.elems.length ∧
      (∀ position, 0 < position → parent position = index →
        InOrder (leq compare) (view heap) child position) ∧
      0 < compareAt compare heap index child := by
  rcases sinkTo_cases preorder heap index with ⟨-, stays⟩ | ⟨other, positive, isChild, inside, least, is⟩
  · rw [stays] at sinks
    cases sinks
  · rw [is] at sinks
    split_ifs at sinks with later
    obtain rfl := some.inj sinks
    exact ⟨positive, isChild, inside, least, later⟩

theorem bubbleDown_ordered {fuel index : Nat}
    (enough : heap.elems.length ≤ fuel + index)
    (around : Around (leq compare) (view heap) index)
    (below : BelowParent (leq compare) (view heap) index) :
    HeapOrdered compare (bubbleDown compare fuel heap index).1 := by
  induction fuel generalizing heap index with
  | zero =>
    refine around.ordered ?_ below
    intro position positive isChild
    have lower := parent_lt positive
    exact inOrder_of_outside (by omega)
  | succ fuel ih =>
    rw [bubbleDown_succ]
    cases sinks : sinkTo compare heap index with
    | none => exact around.ordered (sinkTo_none preorder sinks) below
    | some child =>
      obtain ⟨positive, isChild, inside, least, later⟩ := sinkTo_some preorder sinks
      obtain ⟨elem1, elem2, found1, found2⟩ := elems_of_compareAt
        (Ne.symm (Int.ne_of_lt later))
      have less : leq compare elem2 elem1 := by
        rw [compareAt, found1, found2] at later
        exact preorder.of_pos later
      have sunk := around.sink positive isChild found1 found2 less least
      rw [← view_swap found1 found2] at sunk
      have sameLength : (swap heap index child).elems.length = heap.elems.length :=
        (swap_elems_perm heap index child).length_eq
      have lower := parent_lt positive
      dsimp only
      split_ifs with onlyChild
      · refine sunk.1.ordered ?_ sunk.2
        intro position positivePosition isGrandchild
        refine inOrder_of_outside ?_
        unfold parent at isGrandchild isChild
        omega
      · exact ih (by omega) sunk.1 sunk.2

omit preorder

/-- An element that does not rise is in order with the one above it. -/
theorem bubbleUp_below {fuel index : Nat} (turn : 0 < fuel)
    (stays : (bubbleUp compare fuel heap index).2 = index) :
    BelowParent (leq compare) (view heap) index := by
  intro positive
  cases fuel with
  | zero => omega
  | succ fuel =>
    unfold bubbleUp at stays
    split_ifs at stays with isRoot inOrder
    · omega
    · exact compareAt_le_iff.mp inOrder
    · have moved := bubbleUp_le compare fuel (swap heap ((index - 1) / 2) index)
        ((index - 1) / 2)
      omega

theorem bubbleUp_above (preorder : TotalPreorder compare) {fuel index : Nat}
    (around : Around (leq compare) (view heap) index)
    (rises : (bubbleUp compare fuel heap index).2 ≠ index) :
    AboveChildren (leq compare) (view heap) index := by
  cases fuel with
  | zero => exact absurd rfl rises
  | succ fuel =>
    unfold bubbleUp at rises
    split_ifs at rises with isRoot inOrder
    · exact absurd rfl rises
    · exact absurd rfl rises
    · obtain ⟨elem1, elem2, found1, found2⟩ := elems_of_compareAt
        (Ne.symm (Int.ne_of_lt (Int.not_le.mp inOrder)))
      rw [compareAt, found1, found2, Int.not_le] at inOrder
      intro position positive isChild lower isLower upper isUpper
      rw [view, found2] at isLower
      rw [← some.inj isLower]
      exact preorder.trans _ _ _ (preorder.of_pos inOrder)
        (around.grand (Nat.pos_of_ne_zero isRoot) position positive isChild elem1 found1
          upper isUpper)

/-! ## The operations -/

theorem around_of_kept (preorder : TotalPreorder compare) (ordered : HeapOrdered compare heap)
    {changed : Heap Data} {hole : Nat}
    (kept : ∀ position ≠ hole, ∀ elem, changed.elems[position]? = some elem →
      heap.elems[position]? = some elem) :
    Around (leq compare) (view changed) hole :=
  Ordered.around ordered preorder.trans (view_closed heap) kept

theorem findMin_least (preorder : TotalPreorder compare) (ordered : HeapOrdered compare heap)
    {minimum : Elem Data} (found : zbxBinaryHeapFindMin heap = some minimum) {elem : Elem Data}
    (member : elem ∈ heap.elems) : compare minimum elem ≤ 0 := by
  obtain ⟨position, isElem⟩ := mem_iff_getElem?.mp member
  exact ordered.root_le preorder.refl preorder.trans (view_closed heap) position minimum found
    elem isElem

theorem heapOrdered_congr {other : Heap Data} (same : other.elems = heap.elems)
    (ordered : HeapOrdered compare heap) : HeapOrdered compare other := by
  have views : view other = view heap := by
    funext position
    rw [view, view, same]
  rw [HeapOrdered, views]
  exact ordered

theorem insert_ordered (preorder : TotalPreorder compare) (ordered : HeapOrdered compare heap)
    {elem : Elem Data} {after : Heap Data}
    (inserted : zbxBinaryHeapInsert compare heap elem = some after) :
    HeapOrdered compare after := by
  unfold zbxBinaryHeapInsert at inserted
  split_ifs at inserted
  rw [← some.inj inserted]
  refine heapOrdered_congr (settle_elems _ _ _) (bubbleUp_ordered preorder (by omega) ?_ ?_)
  · refine around_of_kept preorder ordered ?_
    intro position notNew old found
    have inside := (List.getElem?_eq_some_iff.mp found).1
    rw [length_append, length_singleton] at inside
    rw [getElem?_append_left (by omega)] at found
    exact found
  · intro position positive isChild
    have lower := parent_lt positive
    refine inOrder_of_outside ?_
    rw [length_append, length_singleton]
    omega

theorem bubble_ordered (preorder : TotalPreorder compare) {up down index : Nat}
    (enoughUp : index < up) (enoughDown : heap.elems.length ≤ down + index)
    (around : Around (leq compare) (view heap) index) :
    HeapOrdered compare
      (if (bubbleUp compare up heap index).2 = index then
        (bubbleDown compare down (bubbleUp compare up heap index).1 index).1
      else (bubbleUp compare up heap index).1) := by
  split_ifs with stays
  · rw [bubbleUp_stay stays]
    exact bubbleDown_ordered preorder enoughDown around (bubbleUp_below (by omega) stays)
  · exact bubbleUp_ordered preorder enoughUp around (bubbleUp_above preorder around stays)

def OrderedBut (compare : Elem Data → Elem Data → Int) (heap : Heap Data) (key : Nat) : Prop :=
  ∀ index, heap.keyIndex key = some index → ∀ changed : Heap Data,
    (∀ position ≠ index, ∀ elem, changed.elems[position]? = some elem →
      heap.elems[position]? = some elem) →
    Around (leq compare) (view changed) index

variable (preorder : TotalPreorder compare)

include preorder

theorem orderedBut_of_ordered
    (ordered : HeapOrdered compare heap) (key : Nat) : OrderedBut compare heap key :=
  fun _ _ _ kept => around_of_kept preorder ordered kept

theorem updateDirect_settles (indexed : Indexed heap)
    {elem : Elem Data} (ordered : OrderedBut compare heap elem.key) {after : Heap Data}
    (updated : zbxBinaryHeapUpdateDirect compare heap elem = some after) :
    HeapOrdered compare after := by
  unfold zbxBinaryHeapUpdateDirect at updated
  rw [if_neg (by simp [indexed.direct]), map_eq_some_iff] at updated
  obtain ⟨index, found, rfl⟩ := updated
  have inside := (List.getElem?_eq_some_iff.mp ((indexed.exact _ _).mp found)).1
  have bound : (keys heap).length = heap.elems.length := length_map _
  refine bubble_ordered preorder (by omega) ?_ ?_
  · rw [length_set]
    omega
  · refine ordered index found _ ?_
    intro position notIndex old isOld
    rw [getElem?_set_ne notIndex.symm] at isOld
    exact isOld

theorem updateDirect_ordered
    (ordered : HeapOrdered compare heap) (indexed : Indexed heap) {elem : Elem Data}
    {after : Heap Data} (updated : zbxBinaryHeapUpdateDirect compare heap elem = some after) :
    HeapOrdered compare after :=
  updateDirect_settles preorder indexed (orderedBut_of_ordered preorder ordered elem.key) updated

theorem removeMin_ordered (ordered : HeapOrdered compare heap) {after : Heap Data}
    (removed : zbxBinaryHeapRemoveMin compare heap = some after) :
    HeapOrdered compare after := by
  unfold zbxBinaryHeapRemoveMin at removed
  cases shape : heap.elems with
  | nil => simp [shape] at removed
  | cons first rest =>
    cases lastFound : rest.getLast? with
    | none =>
      simp only [shape, lastFound, some.injEq] at removed
      rw [← removed]
      intro position positive
      exact inOrder_of_outside (Nat.zero_le _)
    | some last =>
      simp only [shape, lastFound, some.injEq] at removed
      rw [← removed]
      obtain ⟨front, rfl⟩ := getLast?_eq_some_iff.mp lastFound
      refine heapOrdered_congr (settle_elems _ _ _) (bubbleDown_ordered preorder ?_ ?_ ?_)
      · simp
      · refine around_of_kept preorder ordered ?_
        intro position notRoot elem isElem
        obtain ⟨previous, rfl⟩ := Nat.exists_eq_succ_of_ne_zero notRoot
        rw [dropLast_concat, getElem?_cons_succ] at isElem
        have inside := (List.getElem?_eq_some_iff.mp isElem).1
        rw [shape, getElem?_cons_succ, getElem?_append_left inside, isElem]
      · intro positive
        omega

theorem removeDirect_settles (indexed : Indexed heap)
    {key : Nat} (ordered : OrderedBut compare heap key) {after : Heap Data}
    (removed : zbxBinaryHeapRemoveDirect compare heap key = some after) :
    HeapOrdered compare after := by
  unfold zbxBinaryHeapRemoveDirect at removed
  rw [if_neg (by simp [indexed.direct])] at removed
  cases found : heap.keyIndex key with
  | none => simp [found] at removed
  | some index =>
    cases lastFound : heap.elems.getLast? with
    | none => simp [found, lastFound] at removed
    | some last =>
      obtain ⟨front, shape⟩ := getLast?_eq_some_iff.mp lastFound
      have inside := (List.getElem?_eq_some_iff.mp ((indexed.exact _ _).mp found)).1
      have bound : (keys heap).length = heap.elems.length := length_map _
      have length : heap.elems.length = front.length + 1 := by
        rw [shape, length_append, length_singleton]
      have fromFront (position : Nat) (elem : Elem Data)
          (isElem : front[position]? = some elem) : heap.elems[position]? = some elem := by
        have within := (List.getElem?_eq_some_iff.mp isElem).1
        rw [shape, getElem?_append_left within, isElem]
      simp only [found, lastFound] at removed
      have dropped : heap.elems.dropLast = front := by rw [shape, dropLast_concat]
      rw [dropped] at removed
      by_cases atEnd : index = heap.elems.length - 1
      · rw [if_pos atEnd, some.injEq] at removed
        rw [← removed]
        have around := ordered index found { heap.removeIndex key with elems := front }
          fun position _ => fromFront position
        refine around.ordered (fun position positive isChild => ?_) fun positive => ?_
        · have lower := parent_lt positive
          exact inOrder_of_outside (show front.length ≤ position by omega)
        · exact inOrder_of_outside (show front.length ≤ index by omega)
      · rw [if_neg atEnd] at removed
        have around : Around (leq compare) (view
            { heap.removeIndex key with elems := front.set index last }) index := by
          refine ordered index found _ ?_
          intro position notIndex elem isElem
          rw [getElem?_set_ne notIndex.symm] at isElem
          exact fromFront position elem isElem
        have settled := @bubble_ordered _ _ { heap.removeIndex key with
          elems := front.set index last } preorder heap.elems.length heap.elems.length index
          (by omega) (by rw [length_set]; omega) around
        split_ifs at removed settled with stays
        · rw [← some.inj removed]
          exact heapOrdered_congr (settle_elems _ _ _) settled
        · rw [← some.inj removed]
          exact settled

theorem removeDirect_ordered
    (ordered : HeapOrdered compare heap) (indexed : Indexed heap) {key : Nat}
    {after : Heap Data} (removed : zbxBinaryHeapRemoveDirect compare heap key = some after) :
    HeapOrdered compare after :=
  removeDirect_settles preorder indexed (orderedBut_of_ordered preorder ordered key) removed

end Zabbix.Algo.HeapOrder
