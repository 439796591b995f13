import Mathlib.Data.List.Nodup
import Mathlib.Logic.Equiv.Basic
import Zabbix.Algo.BinaryHeap
import Zabbix.Library.SlotTable

/-!
# Direct access to heap elements

The operations of `zbxalgo` heaps with `ZBX_BINARY_HEAP_OPTION_DIRECT`.  The
key index of such a heap records the position of every element; `Indexed` says
that it does so exactly.  Then a key occurs at most once, an update or removal
by key finds its element, and all four operations keep the index exact.
-/

namespace Zabbix.Algo.DirectHeap

open BinaryHeap
open Option hiding or_self
open List hiding swap
open Library.SlotTable (perm_set_last)

variable {Data : Type*}

/-- `zbx_binary_heap_update_direct`; `none` is one of its two exits. -/
def zbxBinaryHeapUpdateDirect
    (compare : Elem Data → Elem Data → Int)
    (heap : Heap Data) (elem : Elem Data) : Option (Heap Data) :=
  if heap.direct = false then
    none
  else
    (heap.keyIndex elem.key).map fun index =>
      let raised := bubbleUp compare (heap.elems.length + 1)
        { heap with elems := heap.elems.set index elem } index
      if raised.2 = index then
        (bubbleDown compare heap.elems.length raised.1 index).1
      else
        raised.1

/--
`zbx_binary_heap_remove_direct`; `none` is one of its two exits, or a position
outside the array.
-/
def zbxBinaryHeapRemoveDirect
    (compare : Elem Data → Elem Data → Int)
    (heap : Heap Data) (key : Nat) : Option (Heap Data) :=
  if heap.direct = false then
    none
  else
    match heap.keyIndex key, heap.elems.getLast? with
    | some index, some last =>
      let removed := { heap.removeIndex key with elems := heap.elems.dropLast }
      if index = heap.elems.length - 1 then
        some removed
      else
        let raised := bubbleUp compare heap.elems.length
          { removed with elems := heap.elems.dropLast.set index last } index
        if raised.2 = index then
          some (settle last.key index
            (bubbleDown compare heap.elems.length raised.1 index))
        else
          some raised.1
    | _, _ => none

/-! ## The key index -/

def keys (heap : Heap Data) : List Nat :=
  heap.elems.map Elem.key

/-- The key index records exactly the positions of the elements. -/
structure Indexed (heap : Heap Data) : Prop where
  direct : heap.direct = true
  exact : ∀ key position, heap.keyIndex key = some position ↔ (keys heap)[position]? = some key

variable {compare : Elem Data → Elem Data → Int} {heap : Heap Data}

theorem position_unique (indexed : Indexed heap) {key first second : Nat}
    (atFirst : (keys heap)[first]? = some key) (atSecond : (keys heap)[second]? = some key) :
    first = second := by
  rw [← indexed.exact] at atFirst atSecond
  exact some.inj (atFirst.symm.trans atSecond)

theorem keys_nodup (indexed : Indexed heap) : (keys heap).Nodup := by
  rw [nodup_iff_injective_getElem]
  intro first second same
  apply Fin.ext
  apply position_unique indexed (getElem?_eq_getElem first.isLt)
  rw [getElem?_eq_getElem second.isLt]
  exact congrArg some same.symm

theorem keyIndex_eq_none (indexed : Indexed heap) {key : Nat} :
    heap.keyIndex key = none ↔ key ∉ keys heap := by
  rw [mem_iff_getElem?, not_exists, eq_none_iff_forall_ne_some]
  exact forall_congr' fun position => not_congr (indexed.exact key position)

theorem keyIndex_isSome (indexed : Indexed heap) {key : Nat} (member : key ∈ keys heap) :
    ∃ position, heap.keyIndex key = some position := by
  obtain ⟨position, found⟩ := mem_iff_getElem?.mp member
  exact ⟨position, (indexed.exact key position).mpr found⟩

theorem getElem?_keys (heap : Heap Data) (position : Nat) :
    (keys heap)[position]? = heap.elems[position]?.map Elem.key :=
  getElem?_map

theorem getElem?_set_set {Element : Type*} {elements : List Element} {index1 index2 : Nat}
    {first second : Element} (found1 : elements[index1]? = some first)
    (found2 : elements[index2]? = some second) (position : Nat) :
    ((elements.set index1 second).set index2 first)[position]? =
      elements[Equiv.swap index1 index2 position]? := by
  obtain ⟨inside1, -⟩ := List.getElem?_eq_some_iff.mp found1
  obtain ⟨inside2, -⟩ := List.getElem?_eq_some_iff.mp found2
  rw [getElem?_set, length_set, if_pos inside2, getElem?_set, if_pos inside1]
  by_cases isSecond : index2 = position
  · rw [if_pos isSecond, ← isSecond, Equiv.swap_apply_right, found1]
  · rw [if_neg isSecond]
    by_cases isFirst : index1 = position
    · rw [if_pos isFirst, ← isFirst, Equiv.swap_apply_left, found2]
    · rw [if_neg isFirst, Equiv.swap_apply_of_ne_of_ne (Ne.symm isFirst) (Ne.symm isSecond)]

/-- The recorded positions are exchanged like the elements. -/
theorem keyIndex_swap (indexed : Indexed heap) {index1 index2 : Nat} {first second : Nat}
    (found1 : heap.keyIndex first = some index1) (found2 : heap.keyIndex second = some index2)
    (key : Nat) :
    Function.update (Function.update heap.keyIndex second (some index1)) first (some index2) key =
      (heap.keyIndex key).map (Equiv.swap index1 index2) := by
  rw [Function.update_apply, Function.update_apply]
  by_cases isFirst : key = first
  · rw [if_pos isFirst, isFirst, found1, map_some, Equiv.swap_apply_left]
  · rw [if_neg isFirst]
    by_cases isSecond : key = second
    · rw [if_pos isSecond, isSecond, found2, map_some, Equiv.swap_apply_right]
    · rw [if_neg isSecond]
      cases found : heap.keyIndex key with
      | none => rfl
      | some position =>
        rw [indexed.exact] at found found1 found2
        rw [map_some, Equiv.swap_apply_of_ne_of_ne]
        · rintro rfl
          exact isFirst (some.inj (found.symm.trans found1))
        · rintro rfl
          exact isSecond (some.inj (found.symm.trans found2))

theorem swap_indexed (indexed : Indexed heap) (index1 index2 : Nat) :
    Indexed (swap heap index1 index2) := by
  unfold swap
  split
  next elem1 elem2 found1 found2 =>
    have at1 : (keys heap)[index1]? = some elem1.key := by rw [getElem?_keys, found1]; rfl
    have at2 : (keys heap)[index2]? = some elem2.key := by rw [getElem?_keys, found2]; rfl
    rw [if_pos indexed.direct]
    constructor
    · exact indexed.direct
    · intro key position
      have recorded := keyIndex_swap indexed ((indexed.exact _ _).mpr at1)
        ((indexed.exact _ _).mpr at2) key
      have exchanged := getElem?_set_set at1 at2 position
      rw [keys, ← map_set, ← map_set] at exchanged
      change Function.update (Function.update heap.keyIndex elem2.key (some index1)) elem1.key
          (some index2) key = some position ↔
        (((heap.elems.set index1 elem2).set index2 elem1).map Elem.key)[position]? = some key
      rw [recorded, exchanged, ← keys, ← indexed.exact, map_eq_some_iff]
      constructor
      · rintro ⟨old, found, rfl⟩
        rw [found, Equiv.swap_apply_self]
      · intro found
        exact ⟨_, found, Equiv.swap_apply_self _ _ _⟩
  next => exact indexed

theorem bubbleUp_indexed (indexed : Indexed heap) (fuel index : Nat) :
    Indexed (bubbleUp compare fuel heap index).1 := by
  induction fuel generalizing heap index with
  | zero => exact indexed
  | succ fuel ih =>
    unfold bubbleUp
    split_ifs
    · exact indexed
    · exact indexed
    · exact ih (swap_indexed indexed _ _) _

theorem bubbleDown_indexed (indexed : Indexed heap) (fuel index : Nat) :
    Indexed (bubbleDown compare fuel heap index).1 := by
  induction fuel generalizing heap index with
  | zero => exact indexed
  | succ fuel ih =>
    simp only [bubbleDown]
    split_ifs
    · exact indexed
    · exact swap_indexed indexed _ _
    · exact indexed
    · exact ih (swap_indexed indexed _ _) _
    · exact indexed
    · exact ih (swap_indexed indexed _ _) _
    · exact indexed

/-! ## Elements whose position is not recorded yet -/

@[simp]
theorem compareAt_setIndex (compare : Elem Data → Elem Data → Int) (heap : Heap Data)
    (key position index1 index2 : Nat) :
    compareAt compare (heap.setIndex key position) index1 index2 =
      compareAt compare heap index1 index2 :=
  rfl

theorem elems_of_compareAt {index1 index2 : Nat}
    (different : compareAt compare heap index1 index2 ≠ 0) :
    ∃ elem1 elem2, heap.elems[index1]? = some elem1 ∧ heap.elems[index2]? = some elem2 := by
  unfold compareAt at different
  cases found1 : heap.elems[index1]? with
  | none => simp [found1] at different
  | some elem1 =>
    cases found2 : heap.elems[index2]? with
    | none => simp [found1, found2] at different
    | some elem2 => exact ⟨elem1, elem2, rfl, rfl⟩

theorem swap_setIndex (direct : heap.direct = true) {index1 index2 : Nat}
    {elem1 elem2 : Elem Data} (found1 : heap.elems[index1]? = some elem1)
    (found2 : heap.elems[index2]? = some elem2) {key : Nat}
    (own : key = elem1.key ∨ key = elem2.key) (position : Nat) :
    swap (heap.setIndex key position) index1 index2 = swap heap index1 index2 := by
  unfold swap
  simp only [found1, found2, Heap.setIndex, direct, if_true]
  congr 1
  ext other
  simp only [Function.update_apply]
  rcases own with rfl | rfl
  · split_ifs <;> rfl
  · split_ifs <;> rfl

theorem bubbleUp_le (compare : Elem Data → Elem Data → Int) (fuel : Nat) (heap : Heap Data)
    (index : Nat) :
    (bubbleUp compare fuel heap index).2 ≤ index := by
  induction fuel generalizing heap index with
  | zero => exact Nat.le_refl _
  | succ fuel ih =>
    unfold bubbleUp
    split_ifs
    · exact Nat.le_refl _
    · exact Nat.le_refl _
    · exact Nat.le_trans (ih _ _) (by omega)

theorem le_bubbleDown (compare : Elem Data → Elem Data → Int) (fuel : Nat) (heap : Heap Data)
    (index : Nat) :
    index ≤ (bubbleDown compare fuel heap index).2 := by
  induction fuel generalizing heap index with
  | zero => exact Nat.le_refl _
  | succ fuel ih =>
    simp only [bubbleDown]
    split_ifs
    · exact Nat.le_refl _
    · dsimp only
      omega
    · exact Nat.le_refl _
    · exact Nat.le_trans (by omega) (ih _ _)
    · exact Nat.le_refl _
    · exact Nat.le_trans (by omega) (ih _ _)
    · exact Nat.le_refl _

theorem settle_self (direct : heap.direct = true) (key index : Nat) :
    settle key index (heap, index) = heap.setIndex key index :=
  if_pos ⟨direct, rfl⟩

/-- The position of the raised element may be recorded before it is raised. -/
theorem settle_bubbleUp (direct : heap.direct = true) {index : Nat} {elem : Elem Data}
    (found : heap.elems[index]? = some elem) (fuel : Nat) :
    settle elem.key index (bubbleUp compare fuel heap index) =
      (bubbleUp compare fuel (heap.setIndex elem.key index) index).1 := by
  cases fuel with
  | zero => exact settle_self direct elem.key index
  | succ fuel =>
    by_cases isRoot : index = 0
    · rw [bubbleUp, bubbleUp, if_pos isRoot, if_pos isRoot]
      exact settle_self direct elem.key index
    rw [bubbleUp, bubbleUp, if_neg isRoot, if_neg isRoot, compareAt_setIndex]
    by_cases inOrder : compareAt compare heap ((index - 1) / 2) index ≤ 0
    · rw [if_pos inOrder, if_pos inOrder]
      exact settle_self direct elem.key index
    · obtain ⟨parent, _, foundParent, -⟩ := elems_of_compareAt
        (Ne.symm (Int.ne_of_lt (Int.not_le.mp inOrder)))
      rw [if_neg inOrder, if_neg inOrder, swap_setIndex direct foundParent found (Or.inr rfl),
        settle, if_neg]
      rintro ⟨-, same⟩
      have moved := bubbleUp_le compare fuel (swap heap ((index - 1) / 2) index)
        ((index - 1) / 2)
      omega

/-- An element that does not change its position leaves the heap as it is. -/
theorem bubbleUp_stay {fuel index : Nat}
    (stays : (bubbleUp compare fuel heap index).2 = index) :
    (bubbleUp compare fuel heap index).1 = heap := by
  cases fuel with
  | zero => rfl
  | succ fuel =>
    unfold bubbleUp at stays ⊢
    split_ifs at stays ⊢ with isRoot inOrder
    · rfl
    · rfl
    · have moved := bubbleUp_le compare fuel (swap heap ((index - 1) / 2) index)
        ((index - 1) / 2)
      omega

/-- The child with which `__binary_heap_bubble_down` exchanges an element. -/
def sinkTo (compare : Elem Data → Elem Data → Int) (heap : Heap Data) (index : Nat) :
    Option Nat :=
  let left := 2 * index + 1
  let right := 2 * index + 2
  if heap.elems.length ≤ left then none
  else
    let child :=
      if heap.elems.length ≤ right ∨ compareAt compare heap left right ≤ 0 then left else right
    if 0 < compareAt compare heap index child then some child else none

theorem bubbleDown_succ (compare : Elem Data → Elem Data → Int) (fuel : Nat)
    (heap : Heap Data) (index : Nat) :
    bubbleDown compare (fuel + 1) heap index =
      match sinkTo compare heap index with
      | none => (heap, index)
      | some child =>
        if heap.elems.length ≤ 2 * index + 2 then (swap heap index child, child)
        else bubbleDown compare fuel (swap heap index child) child := by
  rw [bubbleDown]
  unfold sinkTo
  by_cases noChild : heap.elems.length ≤ 2 * index + 1
  · simp only [if_pos noChild]
  by_cases oneChild : heap.elems.length ≤ 2 * index + 2
  · simp only [if_neg noChild, oneChild, true_or, if_true]
    by_cases later : 0 < compareAt compare heap index (2 * index + 1)
    · simp only [if_pos later]
    · simp only [if_neg later]
  by_cases first : compareAt compare heap (2 * index + 1) (2 * index + 2) ≤ 0
  · simp only [if_neg noChild, if_neg oneChild, first, or_true, if_true]
    by_cases later : 0 < compareAt compare heap index (2 * index + 1)
    · simp only [if_pos later]
    · simp only [if_neg later]
  · simp only [if_neg noChild, oneChild, first, or_self, if_false]
    by_cases later : 0 < compareAt compare heap index (2 * index + 2)
    · simp only [if_pos later]
    · simp only [if_neg later]

theorem sinkTo_spec {index child : Nat} (sinks : sinkTo compare heap index = some child) :
    index < child ∧ 0 < compareAt compare heap index child := by
  simp only [sinkTo] at sinks
  split_ifs at sinks with noChild first later later
  · obtain rfl := some.inj sinks
    exact ⟨by omega, later⟩
  · obtain rfl := some.inj sinks
    exact ⟨by omega, later⟩

/-- The position of the lowered element may be recorded before it is lowered. -/
theorem settle_bubbleDown (direct : heap.direct = true) {index : Nat} {elem : Elem Data}
    (found : heap.elems[index]? = some elem) (fuel : Nat) :
    settle elem.key index (bubbleDown compare fuel heap index) =
      (bubbleDown compare fuel (heap.setIndex elem.key index) index).1 := by
  cases fuel with
  | zero => exact settle_self direct elem.key index
  | succ fuel =>
    rw [bubbleDown_succ, bubbleDown_succ]
    have sameChild : sinkTo compare (heap.setIndex elem.key index) index =
        sinkTo compare heap index := rfl
    rw [sameChild, Heap.setIndex_elems]
    cases sinks : sinkTo compare heap index with
    | none => exact settle_self direct elem.key index
    | some child =>
      obtain ⟨below, later⟩ := sinkTo_spec sinks
      obtain ⟨_, other, -, foundChild⟩ := elems_of_compareAt (Ne.symm (Int.ne_of_lt later))
      dsimp only
      rw [swap_setIndex direct found foundChild (Or.inl rfl)]
      have further := le_bubbleDown compare fuel (swap heap index child) child
      rw [settle, if_neg]
      rintro ⟨-, same⟩
      split_ifs at same
      · dsimp only at same
        omega
      · omega

/-! ## The operations -/

section Operations

variable (compare)

theorem insert_spec (indexed : Indexed heap) {elem : Elem Data} (new : elem.key ∉ keys heap) :
    ∃ after, zbxBinaryHeapInsert compare heap elem = some after ∧ Indexed after ∧
      after.elems.Perm (elem :: heap.elems) := by
  have absent := (keyIndex_eq_none indexed).mpr new
  obtain ⟨after, inserted⟩ : ∃ after, zbxBinaryHeapInsert compare heap elem = some after := by
    rw [zbxBinaryHeapInsert, if_neg (by simp [absent])]
    exact ⟨_, rfl⟩
  refine ⟨after, inserted, ?_, insert_elems_perm inserted⟩
  have grown : (heap.elems ++ [elem])[heap.elems.length]? = some elem := by simp
  rw [zbxBinaryHeapInsert, if_neg (by simp [absent]), some.injEq,
    @settle_bubbleUp Data compare { heap with elems := heap.elems ++ [elem] } indexed.direct
      heap.elems.length elem grown] at inserted
  rw [← inserted]
  apply bubbleUp_indexed
  constructor
  · exact indexed.direct
  · intro key position
    change Function.update heap.keyIndex elem.key (some heap.elems.length) key = some position ↔
      ((heap.elems ++ [elem]).map Elem.key)[position]? = some key
    rw [map_append, map_singleton, Function.update_apply]
    have exact := indexed.exact key position
    have bound : (keys heap).length = heap.elems.length := length_map _
    by_cases isNew : key = elem.key
    · subst isNew
      rw [if_pos rfl, some.injEq]
      constructor
      · rintro rfl
        simp
      · intro found
        rw [getElem?_append] at found
        split_ifs at found with old
        · exact absurd (mem_of_getElem? found) new
        · have last := (List.getElem?_eq_some_iff.mp found).1
          simp only [length_map, length_singleton] at last old
          omega
    · rw [if_neg isNew, exact, getElem?_append]
      split_ifs with old
      · rfl
      · rw [← keys, getElem?_eq_none (by simpa [keys] using old)]
        constructor
        · intro none
          cases none
        · intro found
          have member := mem_of_getElem? found
          exact absurd (mem_singleton.mp member) isNew

theorem updateDirect_spec (indexed : Indexed heap) {elem : Elem Data}
    (member : elem.key ∈ keys heap) :
    ∃ after position, zbxBinaryHeapUpdateDirect compare heap elem = some after ∧
      Indexed after ∧ heap.keyIndex elem.key = some position ∧
      after.elems.Perm (heap.elems.set position elem) := by
  obtain ⟨position, found⟩ := keyIndex_isSome indexed member
  have isKey := (indexed.exact _ _).mp found
  have replaced : Indexed { heap with elems := heap.elems.set position elem } := by
    constructor
    · exact indexed.direct
    · intro key other
      have same : keys { heap with elems := heap.elems.set position elem } = keys heap := by
        obtain ⟨inside, isElem⟩ := List.getElem?_eq_some_iff.mp isKey
        rw [keys, map_set, ← isElem]
        exact set_getElem_self inside
      rw [same]
      exact indexed.exact key other
  rw [zbxBinaryHeapUpdateDirect, if_neg (by simp [indexed.direct]), found, map_some]
  refine ⟨_, position, rfl, ?_, rfl, ?_⟩
  · dsimp only
    split_ifs
    · exact bubbleDown_indexed (bubbleUp_indexed replaced _ _) _ _
    · exact bubbleUp_indexed replaced _ _
  · dsimp only
    split_ifs
    · exact (bubbleDown_elems_perm _ _ _ _).trans (bubbleUp_elems_perm _ _ _ _)
    · exact bubbleUp_elems_perm _ _ _ _

theorem updateDirect_keys (indexed : Indexed heap) {elem : Elem Data}
    (member : elem.key ∈ keys heap) :
    ∃ after, zbxBinaryHeapUpdateDirect compare heap elem = some after ∧ Indexed after ∧
      (keys after).Perm (keys heap) := by
  obtain ⟨after, position, updated, isIndexed, found, permuted⟩ :=
    updateDirect_spec compare indexed member
  refine ⟨after, updated, isIndexed, ?_⟩
  obtain ⟨inside, isKey⟩ := List.getElem?_eq_some_iff.mp ((indexed.exact _ _).mp found)
  have same : (heap.elems.set position elem).map Elem.key = keys heap := by
    rw [map_set, ← isKey]
    exact set_getElem_self inside
  rw [← same]
  exact permuted.map Elem.key

theorem exact_dropLast {keyIndex : Nat → Option Nat} {front : List Nat} {last : Nat}
    (exact : ∀ key position, keyIndex key = some position ↔
      (front ++ [last])[position]? = some key) (key position : Nat) :
    Function.update keyIndex last none key = some position ↔ front[position]? = some key := by
  have atLast : (front ++ [last])[front.length]? = some last := by simp
  rw [Function.update_apply]
  by_cases isLast : key = last
  · subst isLast
    rw [if_pos rfl]
    constructor
    · intro none
      cases none
    · intro found
      have inside := (List.getElem?_eq_some_iff.mp found).1
      have twice := (exact key position).mpr (by rw [getElem?_append_left inside, found])
      rw [(exact _ _).mpr atLast] at twice
      exact absurd (some.inj twice) (Nat.ne_of_gt inside)
  · rw [if_neg isLast, exact]
    constructor
    · intro found
      rw [getElem?_append] at found
      split_ifs at found with inside
      · exact found
      · have member := mem_of_getElem? found
        exact absurd (mem_singleton.mp member) isLast
    · intro found
      rw [getElem?_append_left (List.getElem?_eq_some_iff.mp found).1, found]

theorem exact_set_last {keyIndex : Nat → Option Nat} {front : List Nat} {last index gone : Nat}
    (exact : ∀ key position, keyIndex key = some position ↔
      (front ++ [last])[position]? = some key) (found : front[index]? = some gone)
    (key position : Nat) :
    Function.update (Function.update keyIndex gone none) last (some index) key =
        some position ↔ (front.set index last)[position]? = some key := by
  have inside := (List.getElem?_eq_some_iff.mp found).1
  have atLast : keyIndex last = some front.length := (exact _ _).mpr (by simp)
  have atIndex : keyIndex gone = some index :=
    (exact _ _).mpr (by rw [getElem?_append_left inside, found])
  have front_of (key position : Nat) (isAt : front[position]? = some key) :
      keyIndex key = some position :=
    (exact _ _).mpr
      (by rw [getElem?_append_left (List.getElem?_eq_some_iff.mp isAt).1, isAt])
  rw [Function.update_apply, Function.update_apply, getElem?_set, if_pos inside]
  by_cases isLast : key = last
  · subst isLast
    rw [if_pos rfl]
    constructor
    · rintro same
      rw [if_pos (some.inj same)]
    · intro isAt
      split_ifs at isAt with same
      · rw [same]
      · have twice := front_of key position isAt
        rw [atLast] at twice
        have bound := (List.getElem?_eq_some_iff.mp isAt).1
        exact absurd (some.inj twice) (Nat.ne_of_gt bound)
  · rw [if_neg isLast]
    by_cases isGone : key = gone
    · subst isGone
      rw [if_pos rfl]
      constructor
      · intro none
        cases none
      · intro isAt
        split_ifs at isAt with same
        · exact absurd (some.inj isAt).symm isLast
        · have twice := front_of key position isAt
          rw [atIndex] at twice
          exact absurd (some.inj twice) same
    · rw [if_neg isGone, exact]
      constructor
      · intro isAt
        rw [getElem?_append] at isAt
        split_ifs at isAt
        · rw [if_neg]
          · exact isAt
          · rintro rfl
            exact isGone (some.inj (isAt.symm.trans found))
        · have member := mem_of_getElem? isAt
          exact absurd (mem_singleton.mp member) isLast
      · intro isAt
        split_ifs at isAt
        · exact absurd (some.inj isAt).symm isLast
        · exact (exact _ _).mp (front_of key position isAt)

theorem removeMin_spec (indexed : Indexed heap) {minimum : Elem Data}
    (found : zbxBinaryHeapFindMin heap = some minimum) :
    ∃ after, zbxBinaryHeapRemoveMin compare heap = some after ∧ Indexed after ∧
      heap.elems.Perm (minimum :: after.elems) := by
  obtain ⟨after, removed⟩ := removeMin_isSome compare found
  refine ⟨after, removed, ?_, removeMin_elems_perm found removed⟩
  unfold zbxBinaryHeapRemoveMin at removed
  cases shape : heap.elems with
  | nil => simp [shape] at removed
  | cons first rest =>
    have exact := indexed.exact
    rw [keys, shape, map_cons] at exact
    cases lastFound : rest.getLast? with
    | none =>
      rw [getLast?_eq_none_iff] at lastFound
      subst lastFound
      simp only [shape, getLast?_nil, some.injEq] at removed
      rw [← removed, Heap.forget, if_pos indexed.direct]
      refine ⟨indexed.direct, exact_dropLast ?_⟩
      exact exact
    | some last =>
      simp only [shape, lastFound, some.injEq] at removed
      rw [Heap.forget, if_pos indexed.direct, @settle_bubbleDown Data compare
        { heap.removeIndex first.key with elems := last :: rest.dropLast } indexed.direct
          0 last rfl] at removed
      rw [← removed]
      apply bubbleDown_indexed
      obtain ⟨front, rfl⟩ := getLast?_eq_some_iff.mp lastFound
      refine ⟨indexed.direct, ?_⟩
      rw [map_append, map_singleton, ← cons_append] at exact
      have moved := exact_set_last exact (show (first.key :: front.map Elem.key)[0]? = _ from rfl)
      intro key position
      refine (moved key position).trans ?_
      rw [set_cons_zero, keys]
      change _ ↔ (List.map Elem.key (last :: (front ++ [last]).dropLast))[position]? = _
      rw [dropLast_concat, map_cons]

theorem removeDirect_spec (indexed : Indexed heap) {key : Nat} (member : key ∈ keys heap) :
    ∃ after elem, zbxBinaryHeapRemoveDirect compare heap key = some after ∧ Indexed after ∧
      elem.key = key ∧ heap.elems.Perm (elem :: after.elems) := by
  obtain ⟨index, found⟩ := keyIndex_isSome indexed member
  have isKey := (indexed.exact _ _).mp found
  rw [getElem?_keys, map_eq_some_iff] at isKey
  obtain ⟨elem, isElem, rfl⟩ := isKey
  have exact := indexed.exact
  obtain ⟨last, isLast⟩ : ∃ last, heap.elems.getLast? = some last := by
    rw [← isSome_iff_exists, getLast?_isSome]
    intro empty
    simp [empty] at isElem
  obtain ⟨front, shape⟩ := getLast?_eq_some_iff.mp isLast
  rw [keys, shape, map_append, map_singleton] at exact
  simp only [zbxBinaryHeapRemoveDirect, indexed.direct, Bool.true_eq_false, if_false, found, isLast]
  have inside := (List.getElem?_eq_some_iff.mp isElem).1
  rw [shape] at isElem inside
  rw [length_append, length_singleton] at inside
  rw [shape, dropLast_concat, length_append, length_singleton]
  by_cases atEnd : index = front.length + 1 - 1
  · rw [if_pos atEnd]
    have same : elem = last := by
      rw [atEnd, Nat.add_sub_cancel, getElem?_concat_length] at isElem
      exact (some.inj isElem).symm
    subst same
    refine ⟨_, elem, rfl, ⟨indexed.direct, exact_dropLast exact⟩, rfl, ?_⟩
    exact perm_append_singleton _ _
  · rw [if_neg atEnd]
    have before : index < front.length := by omega
    rw [getElem?_append_left before] at isElem
    have isKey : (front.map Elem.key)[index]? = some elem.key := by
      rw [getElem?_map, isElem]
      rfl
    have permuted := perm_set_last isElem last
    have isMoved : (front.set index last)[index]? = some last := by
      rw [getElem?_set_self before]
    -- the heap after the move, with the new position already recorded
    have moved : Indexed (Heap.setIndex
        { heap.removeIndex elem.key with elems := front.set index last } last.key index) := by
      refine ⟨indexed.direct, ?_⟩
      have recorded := exact_set_last exact isKey
      rw [← map_set] at recorded
      exact recorded
    have up := @settle_bubbleUp Data compare
      { heap.removeIndex elem.key with elems := front.set index last } indexed.direct index last
        isMoved (front.length + 1)
    have down := @settle_bubbleDown Data compare
      { heap.removeIndex elem.key with elems := front.set index last } indexed.direct index last
        isMoved (front.length + 1)
    split_ifs with stays
    · rw [bubbleUp_stay stays, down]
      have lowered := bubbleDown_elems_perm compare (front.length + 1) (Heap.setIndex
        { heap.removeIndex elem.key with elems := front.set index last } last.key index) index
      exact ⟨_, elem, rfl, bubbleDown_indexed moved _ _, rfl,
        permuted.trans (lowered.symm.cons elem)⟩
    · rw [settle, if_neg fun same => stays same.2] at up
      rw [up]
      have raised := bubbleUp_elems_perm compare (front.length + 1) (Heap.setIndex
        { heap.removeIndex elem.key with elems := front.set index last } last.key index) index
      exact ⟨_, elem, rfl, bubbleUp_indexed moved _ _, rfl, permuted.trans (raised.symm.cons elem)⟩

end Operations

end Zabbix.Algo.DirectHeap
