import Zabbix.Algo.Hashmap
import Zabbix.Algo.HeapOrder

/-!
# Heaps with their hash map

The operations of `binaryheap.c` with `key_index` as the hash map it is.  They
simulate the operations over a key index that is a function, and so the heap
order, the exactness of the key index and the contents carry over to every run
of calls.
-/

namespace Zabbix.Algo.KeyedHeap

open BinaryHeap (Elem Heap)
open DirectHeap (Indexed keys)
open HeapOrder Hashmap

variable {Data : Type*}

/-- `zbx_binary_heap_t`; `keyIndex` is used with the direct option only. -/
structure KeyedHeap (Data : Type*) where
  elems : List (Elem Data)
  direct : Bool
  keyIndex : Hashmap

def zbxBinaryHeapCreate (Data : Type*) (direct : Bool) : KeyedHeap Data where
  elems := []
  direct := direct
  keyIndex := if direct then zbxHashmapCreate 512 else ⟨[], 0⟩

variable (hashFunc : Nat → Nat) (compare : Elem Data → Elem Data → Int)

def swap (heap : KeyedHeap Data) (index1 index2 : Nat) : KeyedHeap Data :=
  match heap.elems[index1]?, heap.elems[index2]? with
  | some elem1, some elem2 =>
    let elems := (heap.elems.set index1 elem2).set index2 elem1
    if heap.direct then
      { heap with
        elems := elems
        keyIndex := zbxHashmapSet hashFunc
          (zbxHashmapSet hashFunc heap.keyIndex elem2.key index1) elem1.key index2 }
    else
      { heap with elems := elems }
  | _, _ => heap

/-- `heap->compare_func` applied to two positions of the element array. -/
def compareAt (heap : KeyedHeap Data) (index1 index2 : Nat) : Int :=
  match heap.elems[index1]?, heap.elems[index2]? with
  | some elem1, some elem2 => compare elem1 elem2
  | _, _ => 0

/-- `__binary_heap_bubble_up`: the heap and the final index. -/
def bubbleUp : Nat → KeyedHeap Data → Nat → KeyedHeap Data × Nat
  | 0, heap, index => (heap, index)
  | fuel + 1, heap, index =>
    if index = 0 then
      (heap, index)
    else if compareAt compare heap ((index - 1) / 2) index ≤ 0 then
      (heap, index)
    else
      bubbleUp fuel (swap hashFunc heap ((index - 1) / 2) index) ((index - 1) / 2)

/-- `__binary_heap_bubble_down`: the heap and the final index. -/
def bubbleDown : Nat → KeyedHeap Data → Nat → KeyedHeap Data × Nat
  | 0, heap, index => (heap, index)
  | fuel + 1, heap, index =>
    let left := 2 * index + 1
    let right := 2 * index + 2
    if heap.elems.length ≤ left then
      (heap, index)
    else if heap.elems.length ≤ right then
      if 0 < compareAt compare heap index left then
        (swap hashFunc heap index left, left)
      else
        (heap, index)
    else if compareAt compare heap left right ≤ 0 then
      if 0 < compareAt compare heap index left then
        bubbleDown fuel (swap hashFunc heap index left) left
      else
        (heap, index)
    else if 0 < compareAt compare heap index right then
      bubbleDown fuel (swap hashFunc heap index right) right
    else
      (heap, index)

/-- `zbx_binary_heap_find_min`; `none` is the exit on an empty heap. -/
def zbxBinaryHeapFindMin (heap : KeyedHeap Data) : Option (Elem Data) :=
  heap.elems[0]?

/-- With the direct option, record the position of a key if bubbling ended where it began. -/
def settle (key start : Nat) (bubbled : KeyedHeap Data × Nat) : KeyedHeap Data :=
  if bubbled.1.direct ∧ bubbled.2 = start then
    { bubbled.1 with
      keyIndex := zbxHashmapSet hashFunc bubbled.1.keyIndex key bubbled.2 }
  else
    bubbled.1

/-- With the direct option, drop the position of a removed element. -/
def KeyedHeap.forget (heap : KeyedHeap Data) (key : Nat) : KeyedHeap Data :=
  if heap.direct then
    { heap with keyIndex := zbxHashmapRemove hashFunc heap.keyIndex key }
  else
    heap

/-- `zbx_binary_heap_insert`; `none` is the exit on a duplicate key. -/
def zbxBinaryHeapInsert (heap : KeyedHeap Data) (elem : Elem Data) : Option (KeyedHeap Data) :=
  if heap.direct ∧ fail ≠ zbxHashmapGet hashFunc heap.keyIndex elem.key then
    none
  else
    some
      (settle hashFunc elem.key heap.elems.length
        (bubbleUp hashFunc compare (heap.elems.length + 1)
          { heap with elems := heap.elems ++ [elem] } heap.elems.length))

/-- `zbx_binary_heap_update_direct`; `none` is one of its two exits. -/
def zbxBinaryHeapUpdateDirect (heap : KeyedHeap Data) (elem : Elem Data) :
    Option (KeyedHeap Data) :=
  if heap.direct = false then
    none
  else
    let index := zbxHashmapGet hashFunc heap.keyIndex elem.key
    if fail ≠ index then
      let raised := bubbleUp hashFunc compare (heap.elems.length + 1)
        { heap with elems := heap.elems.set index.toNat elem } index.toNat
      if raised.2 = index.toNat then
        some (bubbleDown hashFunc compare heap.elems.length raised.1 index.toNat).1
      else
        some raised.1
    else
      none

/-- `zbx_binary_heap_remove_min`; `none` is the exit on an empty heap. -/
def zbxBinaryHeapRemoveMin (heap : KeyedHeap Data) : Option (KeyedHeap Data) :=
  match heap.elems with
  | [] => none
  | minimum :: rest =>
    match rest.getLast? with
    | none => some { heap.forget hashFunc minimum.key with elems := [] }
    | some last =>
      some
        (settle hashFunc last.key 0
          (bubbleDown hashFunc compare rest.length
            { heap.forget hashFunc minimum.key with elems := last :: rest.dropLast } 0))

/--
`zbx_binary_heap_remove_direct`; `none` is one of its two exits, or a position
outside the array.
-/
def zbxBinaryHeapRemoveDirect (heap : KeyedHeap Data) (key : Nat) : Option (KeyedHeap Data) :=
  if heap.direct = false then
    none
  else
    let index := zbxHashmapGet hashFunc heap.keyIndex key
    if fail ≠ index then
      match heap.elems.getLast? with
      | some last =>
        let removed : KeyedHeap Data :=
          { heap with
            elems := heap.elems.dropLast
            keyIndex := zbxHashmapRemove hashFunc heap.keyIndex key }
        if index.toNat = heap.elems.length - 1 then
          some removed
        else
          let raised := bubbleUp hashFunc compare heap.elems.length
            { removed with elems := heap.elems.dropLast.set index.toNat last } index.toNat
          if raised.2 = index.toNat then
            some (settle hashFunc last.key index.toNat
              (bubbleDown hashFunc compare heap.elems.length raised.1 index.toNat))
          else
            some raised.1
      | none => none
    else
      none

def zbxBinaryHeapClear (heap : KeyedHeap Data) : KeyedHeap Data :=
  { heap with
    elems := []
    keyIndex := if heap.direct then zbxHashmapClear heap.keyIndex else heap.keyIndex }

/-! ## Simulation -/

/-- The positions of a key index, as the integers that a hash map stores. -/
def stored (keyIndex : Nat → Option Nat) (key : Nat) : Option Int :=
  (keyIndex key).map Int.ofNat

/-- A heap with a hash map, and one whose key index is the map it stands for. -/
structure Refines (keyed : KeyedHeap Data) (heap : Heap Data) : Prop where
  elems : keyed.elems = heap.elems
  direct : keyed.direct = heap.direct
  index : keyed.direct = true → Represents hashFunc keyed.keyIndex (stored heap.keyIndex)

variable {hashFunc compare} {keyed : KeyedHeap Data} {heap : Heap Data}

theorem stored_update (keyIndex : Nat → Option Nat) (key : Nat) (position : Option Nat) :
    stored (Function.update keyIndex key position) =
      Function.update (stored keyIndex) key (position.map Int.ofNat) := by
  funext other
  rw [stored, Function.update_apply, Function.update_apply, stored]
  split_ifs
  · rfl
  · rfl

variable (refines : Refines hashFunc keyed heap)

include refines

theorem swap_refines (index1 index2 : Nat) :
    Refines hashFunc (swap hashFunc keyed index1 index2)
      (BinaryHeap.swap heap index1 index2) := by
  unfold swap BinaryHeap.swap
  rw [refines.elems, refines.direct]
  cases found1 : heap.elems[index1]? with
  | none => exact refines
  | some elem1 =>
    cases found2 : heap.elems[index2]? with
    | none => exact refines
    | some elem2 =>
      dsimp only
      split_ifs with direct
      · refine ⟨rfl, rfl, ?_⟩
        intro _
        have first := set_spec (refines.index (refines.direct.trans direct)) elem2.key index1
        have second := set_spec first elem1.key index2
        change Represents hashFunc _ (stored (Function.update (Function.update _ _ _) _ _))
        rw [stored_update, stored_update]
        exact second
      · refine ⟨rfl, rfl, ?_⟩
        intro isDirect
        exact absurd isDirect direct

theorem compareAt_eq (index1 index2 : Nat) :
    compareAt compare keyed index1 index2 =
      BinaryHeap.compareAt compare heap index1 index2 := by
  obtain ⟨same, -, -⟩ := refines
  cases keyed
  cases heap
  dsimp only at same
  subst same
  rfl

theorem bubbleUp_refines (fuel index : Nat) :
    Refines hashFunc (bubbleUp hashFunc compare fuel keyed index).1
        (BinaryHeap.bubbleUp compare fuel heap index).1 ∧
      (bubbleUp hashFunc compare fuel keyed index).2 =
        (BinaryHeap.bubbleUp compare fuel heap index).2 := by
  induction fuel generalizing keyed heap index with
  | zero => exact ⟨refines, rfl⟩
  | succ fuel ih =>
    unfold bubbleUp BinaryHeap.bubbleUp
    rw [compareAt_eq refines]
    split_ifs
    · exact ⟨refines, rfl⟩
    · exact ⟨refines, rfl⟩
    · exact ih (swap_refines refines _ _) _

theorem bubbleDown_refines (fuel index : Nat) :
    Refines hashFunc (bubbleDown hashFunc compare fuel keyed index).1
        (BinaryHeap.bubbleDown compare fuel heap index).1 ∧
      (bubbleDown hashFunc compare fuel keyed index).2 =
        (BinaryHeap.bubbleDown compare fuel heap index).2 := by
  induction fuel generalizing keyed heap index with
  | zero => exact ⟨refines, rfl⟩
  | succ fuel ih =>
    simp only [bubbleDown, BinaryHeap.bubbleDown, compareAt_eq refines, refines.elems]
    split_ifs
    · exact ⟨refines, rfl⟩
    · exact ⟨swap_refines refines _ _, rfl⟩
    · exact ⟨refines, rfl⟩
    · exact ih (swap_refines refines _ _) _
    · exact ⟨refines, rfl⟩
    · exact ih (swap_refines refines _ _) _
    · exact ⟨refines, rfl⟩

omit refines

theorem settle_refines {bubbled : KeyedHeap Data × Nat} {plain : Heap Data × Nat}
    (refines : Refines hashFunc bubbled.1 plain.1) (same : bubbled.2 = plain.2)
    (key start : Nat) :
    Refines hashFunc (settle hashFunc key start bubbled) (BinaryHeap.settle key start plain) := by
  unfold settle BinaryHeap.settle
  rw [refines.direct, same]
  split_ifs with ends
  · refine ⟨refines.elems, refines.direct, ?_⟩
    intro _
    change Represents hashFunc _ (stored (Function.update _ _ _))
    rw [stored_update]
    exact set_spec (refines.index (refines.direct.trans ends.1)) key plain.2
  · exact refines

theorem get_eq (refines : Refines hashFunc keyed heap) (direct : keyed.direct = true) (key : Nat) :
    zbxHashmapGet hashFunc keyed.keyIndex key =
      match heap.keyIndex key with
      | some position => (position : Int)
      | none => fail := by
  rw [get_spec (refines.index direct), stored]
  cases heap.keyIndex key with
  | none => rfl
  | some position => rfl

theorem fail_ne (position : Nat) : fail ≠ (position : Int) := by
  unfold fail
  omega

variable (refines : Refines hashFunc keyed heap)

include refines

theorem insert_refines (elem : Elem Data) :
    Option.Rel (Refines hashFunc) (zbxBinaryHeapInsert hashFunc compare keyed elem)
      (BinaryHeap.zbxBinaryHeapInsert compare heap elem) := by
  have duplicate : (keyed.direct = true ∧
      fail ≠ zbxHashmapGet hashFunc keyed.keyIndex elem.key) ↔
      (heap.direct = true ∧ (heap.keyIndex elem.key).isSome = true) := by
    rw [← refines.direct]
    refine and_congr_right ?_
    intro direct
    rw [get_eq refines direct]
    cases heap.keyIndex elem.key with
    | none => simp
    | some position => simp [fail_ne]
  unfold zbxBinaryHeapInsert BinaryHeap.zbxBinaryHeapInsert
  by_cases exits : heap.direct = true ∧ (heap.keyIndex elem.key).isSome = true
  · rw [if_pos exits, if_pos (duplicate.mpr exits)]
    exact Option.Rel.none
  · rw [if_neg exits, if_neg (fun both => exits (duplicate.mp both)), refines.elems]
    have appended : Refines hashFunc { keyed with elems := heap.elems ++ [elem] }
        { heap with elems := heap.elems ++ [elem] } :=
      ⟨rfl, refines.direct, refines.index⟩
    obtain ⟨raised, same⟩ := bubbleUp_refines appended (heap.elems.length + 1) heap.elems.length
    exact Option.Rel.some (settle_refines raised same _ _)

theorem updateDirect_refines (elem : Elem Data) :
    Option.Rel (Refines hashFunc) (zbxBinaryHeapUpdateDirect hashFunc compare keyed elem)
      (DirectHeap.zbxBinaryHeapUpdateDirect compare heap elem) := by
  unfold zbxBinaryHeapUpdateDirect DirectHeap.zbxBinaryHeapUpdateDirect
  by_cases plain : heap.direct = false
  · rw [if_pos plain, if_pos (refines.direct.trans plain)]
    exact Option.Rel.none
  have direct : keyed.direct = true := by
    rw [refines.direct]
    exact Bool.of_not_eq_false plain
  rw [if_neg plain, if_neg (by rw [refines.direct]; exact plain), get_eq refines direct]
  cases found : heap.keyIndex elem.key with
  | none => exact Option.Rel.none
  | some index =>
    dsimp only
    rw [if_pos (fail_ne index), Int.toNat_natCast, refines.elems, Option.map_some]
    have replaced : Refines hashFunc { keyed with elems := heap.elems.set index elem }
        { heap with elems := heap.elems.set index elem } :=
      ⟨rfl, refines.direct, refines.index⟩
    obtain ⟨raised, same⟩ := bubbleUp_refines replaced (heap.elems.length + 1) index
    rw [same]
    split_ifs
    · exact Option.Rel.some (bubbleDown_refines raised heap.elems.length index).1
    · exact Option.Rel.some raised

theorem forget_refines (key : Nat)
    (elems : List (Elem Data)) :
    Refines hashFunc { keyed.forget hashFunc key with elems := elems }
      { heap.forget key with elems := elems } := by
  unfold KeyedHeap.forget Heap.forget
  by_cases direct : heap.direct = true
  · rw [if_pos direct, if_pos (refines.direct.trans direct)]
    refine ⟨rfl, refines.direct, ?_⟩
    intro _
    change Represents hashFunc _ (stored (Function.update _ _ _))
    rw [stored_update]
    exact remove_spec (refines.index (refines.direct.trans direct)) key
  · rw [if_neg direct, if_neg (by rw [refines.direct]; exact direct)]
    exact ⟨rfl, refines.direct, refines.index⟩

theorem removeMin_refines :
    Option.Rel (Refines hashFunc) (zbxBinaryHeapRemoveMin hashFunc compare keyed)
      (BinaryHeap.zbxBinaryHeapRemoveMin compare heap) := by
  unfold zbxBinaryHeapRemoveMin BinaryHeap.zbxBinaryHeapRemoveMin
  rw [refines.elems]
  cases heap.elems with
  | nil => exact Option.Rel.none
  | cons minimum rest =>
    have forgotten (elems : List (Elem Data)) := forget_refines refines minimum.key elems
    dsimp only
    cases rest.getLast? with
    | none => exact Option.Rel.some (forgotten [])
    | some last =>
      obtain ⟨lowered, same⟩ := bubbleDown_refines (forgotten (last :: rest.dropLast))
        rest.length 0
      exact Option.Rel.some (settle_refines lowered same _ _)

theorem removeDirect_refines (key : Nat) :
    Option.Rel (Refines hashFunc) (zbxBinaryHeapRemoveDirect hashFunc compare keyed key)
      (DirectHeap.zbxBinaryHeapRemoveDirect compare heap key) := by
  unfold zbxBinaryHeapRemoveDirect DirectHeap.zbxBinaryHeapRemoveDirect
  by_cases plain : heap.direct = false
  · rw [if_pos plain, if_pos (refines.direct.trans plain)]
    exact Option.Rel.none
  have direct : keyed.direct = true := by
    rw [refines.direct]
    exact Bool.of_not_eq_false plain
  rw [if_neg plain, if_neg (by rw [refines.direct]; exact plain), get_eq refines direct,
    refines.elems]
  cases found : heap.keyIndex key with
  | none => exact Option.Rel.none
  | some index =>
    dsimp only
    rw [if_pos (fail_ne index), Int.toNat_natCast]
    cases heap.elems.getLast? with
    | none => exact Option.Rel.none
    | some last =>
      have removed (elems : List (Elem Data)) : Refines hashFunc
          { keyed with
            elems := elems
            keyIndex := zbxHashmapRemove hashFunc keyed.keyIndex key }
          { heap.removeIndex key with elems := elems } := by
        refine ⟨rfl, refines.direct, ?_⟩
        intro _
        change Represents hashFunc _ (stored (Function.update _ _ _))
        rw [stored_update]
        exact remove_spec (refines.index direct) key
      dsimp only
      by_cases atEnd : index = heap.elems.length - 1
      · rw [if_pos atEnd, if_pos atEnd]
        exact Option.Rel.some (removed _)
      · rw [if_neg atEnd, if_neg atEnd]
        obtain ⟨raised, same⟩ := bubbleUp_refines
          (removed (heap.elems.dropLast.set index last)) heap.elems.length index
        rw [same]
        split_ifs
        · obtain ⟨lowered, sameEnd⟩ := bubbleDown_refines raised heap.elems.length index
          exact Option.Rel.some (settle_refines lowered sameEnd _ _)
        · exact Option.Rel.some raised

end Zabbix.Algo.KeyedHeap
