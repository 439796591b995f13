import Mathlib.Data.List.Perm.Basic

/-!
# The binary min-heap of `zbxalgo`

The element array is a list and the compare function is a parameter, as it is
a field of `zbx_binary_heap_t`.  The two bubbling loops take a fuel argument;
the callers pass the number of elements, and an index moves at most that often
on its way to the root or to a leaf.

This module proves that insertion and removal of the minimum only permute the
elements, whatever the compare function does.  Nothing here assumes that the
compare function is an order.
-/

namespace Zabbix.Algo.BinaryHeap

open List Option

/-- `zbx_binary_heap_elem_t`: a key and the data it stands for. -/
structure Elem (Data : Type*) where
  key : Nat
  data : Data
deriving DecidableEq, Repr

/--
`zbx_binary_heap_t`.  `keyIndex` is the hash map from keys to positions, which
is maintained only when `direct` (`ZBX_BINARY_HEAP_OPTION_DIRECT`) is set.
-/
structure Heap (Data : Type*) where
  elems : List (Elem Data) := []
  direct : Bool := false
  keyIndex : Nat → Option Nat := fun _ => none

variable {Data : Type*}

/-- `zbx_hashmap_set` on the key index of a heap. -/
def Heap.setIndex (heap : Heap Data) (key index : Nat) : Heap Data :=
  { heap with keyIndex := Function.update heap.keyIndex key (some index) }

/-- `zbx_hashmap_remove` on the key index of a heap. -/
def Heap.removeIndex (heap : Heap Data) (key : Nat) : Heap Data :=
  { heap with keyIndex := Function.update heap.keyIndex key none }

@[simp]
theorem Heap.setIndex_elems (heap : Heap Data) (key index : Nat) :
    (heap.setIndex key index).elems = heap.elems :=
  rfl

@[simp]
theorem Heap.removeIndex_elems (heap : Heap Data) (key : Nat) :
    (heap.removeIndex key).elems = heap.elems :=
  rfl

/-- `swap`: exchange two elements and record their new positions. -/
def swap (heap : Heap Data) (index1 index2 : Nat) : Heap Data :=
  match heap.elems[index1]?, heap.elems[index2]? with
  | some elem1, some elem2 =>
    let swapped : Heap Data :=
      { heap with elems := (heap.elems.set index1 elem2).set index2 elem1 }
    if heap.direct then
      (swapped.setIndex elem2.key index1).setIndex elem1.key index2
    else
      swapped
  | _, _ => heap

theorem swap_elems_perm (heap : Heap Data) (index1 index2 : Nat) :
    (swap heap index1 index2).elems.Perm heap.elems := by
  unfold swap
  split
  next elem1 elem2 found1 found2 =>
    obtain ⟨bound1, rfl⟩ := List.getElem?_eq_some_iff.mp found1
    obtain ⟨bound2, rfl⟩ := List.getElem?_eq_some_iff.mp found2
    have permuted := set_set_perm bound1 bound2
    split_ifs
    · simpa using permuted
    · exact permuted
  next => exact List.Perm.refl _

/-- `heap->compare_func` applied to two positions of the element array. -/
def compareAt
    (compare : Elem Data → Elem Data → Int)
    (heap : Heap Data) (index1 index2 : Nat) : Int :=
  match heap.elems[index1]?, heap.elems[index2]? with
  | some elem1, some elem2 => compare elem1 elem2
  | _, _ => 0

/-- `__binary_heap_bubble_up`: the heap and the final index. -/
def bubbleUp (compare : Elem Data → Elem Data → Int) :
    Nat → Heap Data → Nat → Heap Data × Nat
  | 0, heap, index => (heap, index)
  | fuel + 1, heap, index =>
    if index = 0 then
      (heap, index)
    else if compareAt compare heap ((index - 1) / 2) index ≤ 0 then
      (heap, index)
    else
      bubbleUp compare fuel (swap heap ((index - 1) / 2) index) ((index - 1) / 2)

/-- `__binary_heap_bubble_down`: the heap and the final index. -/
def bubbleDown (compare : Elem Data → Elem Data → Int) :
    Nat → Heap Data → Nat → Heap Data × Nat
  | 0, heap, index => (heap, index)
  | fuel + 1, heap, index =>
    let left := 2 * index + 1
    let right := 2 * index + 2
    if heap.elems.length ≤ left then
      (heap, index)
    else if heap.elems.length ≤ right then
      if 0 < compareAt compare heap index left then
        (swap heap index left, left)
      else
        (heap, index)
    else if compareAt compare heap left right ≤ 0 then
      if 0 < compareAt compare heap index left then
        bubbleDown compare fuel (swap heap index left) left
      else
        (heap, index)
    else if 0 < compareAt compare heap index right then
      bubbleDown compare fuel (swap heap index right) right
    else
      (heap, index)

theorem bubbleUp_elems_perm
    (compare : Elem Data → Elem Data → Int)
    (fuel : Nat) (heap : Heap Data) (index : Nat) :
    (bubbleUp compare fuel heap index).1.elems.Perm heap.elems := by
  induction fuel generalizing heap index with
  | zero => exact List.Perm.refl _
  | succ fuel ih =>
    unfold bubbleUp
    split_ifs
    · exact List.Perm.refl _
    · exact List.Perm.refl _
    · exact (ih _ _).trans (swap_elems_perm _ _ _)

theorem bubbleDown_elems_perm
    (compare : Elem Data → Elem Data → Int)
    (fuel : Nat) (heap : Heap Data) (index : Nat) :
    (bubbleDown compare fuel heap index).1.elems.Perm heap.elems := by
  induction fuel generalizing heap index with
  | zero => exact List.Perm.refl _
  | succ fuel ih =>
    simp only [bubbleDown]
    split_ifs
    · exact List.Perm.refl _
    · exact swap_elems_perm _ _ _
    · exact List.Perm.refl _
    · exact (ih _ _).trans (swap_elems_perm _ _ _)
    · exact List.Perm.refl _
    · exact (ih _ _).trans (swap_elems_perm _ _ _)
    · exact List.Perm.refl _

def zbxBinaryHeapEmpty (heap : Heap Data) : Bool :=
  heap.elems.isEmpty

/-- `zbx_binary_heap_find_min`; `none` is the exit on an empty heap. -/
def zbxBinaryHeapFindMin (heap : Heap Data) : Option (Elem Data) :=
  heap.elems[0]?

/--
The epilogue of both operations: with the direct option, an element which did
not move while bubbling still needs its position recorded.
-/
def settle (key start : Nat) (bubbled : Heap Data × Nat) : Heap Data :=
  if bubbled.1.direct ∧ bubbled.2 = start then
    bubbled.1.setIndex key bubbled.2
  else
    bubbled.1

/-- With the direct option, drop the position of a removed element. -/
def Heap.forget (heap : Heap Data) (key : Nat) : Heap Data :=
  if heap.direct then heap.removeIndex key else heap

/--
`zbx_binary_heap_insert`.  `none` is the exit on a duplicate key, which is
checked only with the direct option.
-/
def zbxBinaryHeapInsert
    (compare : Elem Data → Elem Data → Int)
    (heap : Heap Data) (elem : Elem Data) : Option (Heap Data) :=
  if heap.direct ∧ (heap.keyIndex elem.key).isSome then
    none
  else
    some
      (settle elem.key heap.elems.length
        (bubbleUp compare (heap.elems.length + 1)
          { heap with elems := heap.elems ++ [elem] } heap.elems.length))

/-- `zbx_binary_heap_remove_min`; `none` is the exit on an empty heap. -/
def zbxBinaryHeapRemoveMin
    (compare : Elem Data → Elem Data → Int)
    (heap : Heap Data) : Option (Heap Data) :=
  match heap.elems with
  | [] => none
  | minimum :: rest =>
    match rest.getLast? with
    | none => some { heap.forget minimum.key with elems := [] }
    | some last =>
      some
        (settle last.key 0
          (bubbleDown compare rest.length
            { heap.forget minimum.key with elems := last :: rest.dropLast } 0))

@[simp]
theorem settle_elems (key start : Nat) (bubbled : Heap Data × Nat) :
    (settle key start bubbled).elems = bubbled.1.elems := by
  unfold settle
  split
  · rfl
  · rfl

@[simp]
theorem settle_direct (key start : Nat) (bubbled : Heap Data × Nat) :
    (settle key start bubbled).direct = bubbled.1.direct := by
  unfold settle
  split
  · rfl
  · rfl

@[simp]
theorem Heap.forget_direct (heap : Heap Data) (key : Nat) :
    (heap.forget key).direct = heap.direct := by
  unfold Heap.forget
  split
  · rfl
  · rfl

@[simp]
theorem swap_direct (heap : Heap Data) (index1 index2 : Nat) :
    (swap heap index1 index2).direct = heap.direct := by
  unfold swap
  split
  · split_ifs
    · rfl
    · rfl
  · rfl

variable (compare : Elem Data → Elem Data → Int)

include compare

@[simp]
theorem bubbleUp_direct (fuel : Nat) (heap : Heap Data) (index : Nat) :
    (bubbleUp compare fuel heap index).1.direct = heap.direct := by
  induction fuel generalizing heap index with
  | zero => rfl
  | succ fuel ih =>
    unfold bubbleUp
    split_ifs
    · rfl
    · rfl
    · rw [ih, swap_direct]

@[simp]
theorem bubbleDown_direct (fuel : Nat) (heap : Heap Data) (index : Nat) :
    (bubbleDown compare fuel heap index).1.direct = heap.direct := by
  induction fuel generalizing heap index with
  | zero => rfl
  | succ fuel ih =>
    simp only [bubbleDown]
    split_ifs <;> simp [ih]

theorem insert_isSome {heap : Heap Data} (plain : heap.direct = false) (elem : Elem Data) :
    ∃ after, zbxBinaryHeapInsert compare heap elem = some after := by
  rw [zbxBinaryHeapInsert, if_neg (by simp [plain])]
  exact ⟨_, rfl⟩

omit compare

theorem insert_direct
    {compare : Elem Data → Elem Data → Int}
    {heap after : Heap Data} {elem : Elem Data}
    (inserted : zbxBinaryHeapInsert compare heap elem = some after) :
    after.direct = heap.direct := by
  rw [zbxBinaryHeapInsert] at inserted
  by_cases duplicate : heap.direct ∧ (heap.keyIndex elem.key).isSome
  · rw [if_pos duplicate] at inserted
    cases inserted
  · rw [if_neg duplicate, some.injEq] at inserted
    subst inserted
    rw [settle_direct, bubbleUp_direct]

theorem insert_elems_perm
    {compare : Elem Data → Elem Data → Int}
    {heap after : Heap Data} {elem : Elem Data}
    (inserted : zbxBinaryHeapInsert compare heap elem = some after) :
    after.elems.Perm (elem :: heap.elems) := by
  rw [zbxBinaryHeapInsert] at inserted
  by_cases duplicate : heap.direct ∧ (heap.keyIndex elem.key).isSome
  · rw [if_pos duplicate] at inserted
    cases inserted
  · rw [if_neg duplicate, some.injEq] at inserted
    subst inserted
    rw [settle_elems]
    exact (bubbleUp_elems_perm compare _ _ _).trans
      (perm_append_singleton elem heap.elems)

theorem removeMin_isSome
    (compare : Elem Data → Elem Data → Int)
    {heap : Heap Data} {minimum : Elem Data}
    (found : zbxBinaryHeapFindMin heap = some minimum) :
    ∃ after, zbxBinaryHeapRemoveMin compare heap = some after := by
  unfold zbxBinaryHeapRemoveMin
  cases shape : heap.elems with
  | nil => simp [zbxBinaryHeapFindMin, shape] at found
  | cons first rest =>
    cases lastFound : rest.getLast? with
    | none => exact ⟨_, by simp only [lastFound]; rfl⟩
    | some last => exact ⟨_, by simp only [lastFound]; rfl⟩

private theorem perm_last_cons_dropLast
    {Element : Type*} {rest : List Element} {last : Element}
    (lastFound : rest.getLast? = some last) :
    rest.Perm (last :: rest.dropLast) := by
  obtain ⟨front, rfl⟩ := getLast?_eq_some_iff.mp lastFound
  rw [dropLast_concat]
  exact perm_append_singleton last front

theorem removeMin_elems_perm
    {compare : Elem Data → Elem Data → Int}
    {heap after : Heap Data} {minimum : Elem Data}
    (found : zbxBinaryHeapFindMin heap = some minimum)
    (removed : zbxBinaryHeapRemoveMin compare heap = some after) :
    heap.elems.Perm (minimum :: after.elems) := by
  rw [zbxBinaryHeapFindMin] at found
  unfold zbxBinaryHeapRemoveMin at removed
  cases shape : heap.elems with
  | nil => simp [shape] at found
  | cons first rest =>
    simp only [shape, getElem?_cons_zero, some.injEq] at found
    subst found
    refine List.Perm.cons first ?_
    cases lastFound : rest.getLast? with
    | none =>
      simp only [shape, lastFound, some.injEq] at removed
      subst removed
      rw [getLast?_eq_none_iff.mp lastFound]
    | some last =>
      simp only [shape, lastFound, some.injEq] at removed
      subst removed
      rw [settle_elems]
      have lowered :=
        bubbleDown_elems_perm compare rest.length
          { heap.forget first.key with elems := last :: rest.dropLast } 0
      exact (perm_last_cons_dropLast lastFound).trans lowered.symm

theorem removeMin_direct
    {compare : Elem Data → Elem Data → Int}
    {heap after : Heap Data}
    (removed : zbxBinaryHeapRemoveMin compare heap = some after) :
    after.direct = heap.direct := by
  unfold zbxBinaryHeapRemoveMin at removed
  cases shape : heap.elems with
  | nil => simp [shape] at removed
  | cons first rest =>
    cases lastFound : rest.getLast? with
    | none =>
      simp only [shape, lastFound, some.injEq] at removed
      subst removed
      exact Heap.forget_direct heap first.key
    | some last =>
      simp only [shape, lastFound, some.injEq] at removed
      subst removed
      rw [settle_direct, bubbleDown_direct]
      exact Heap.forget_direct heap first.key

end Zabbix.Algo.BinaryHeap
