import Zabbix.Algo.KeyedHeap

/-!
# Heaps over all runs

Any sequence of calls on a new heap, with or without the direct option.  A call
with the direct option has the conditions under which the code does not exit:
an inserted key is new, an updated or removed key is there.
-/

namespace Zabbix.Algo.HeapRuns

open Option

open BinaryHeap (Elem Heap)
open DirectHeap (Indexed keys)
open HeapOrder Hashmap KeyedHeap
open Library.HeapOrder (parent)

variable {Data : Type*}

/-- The calls that change a heap. -/
inductive Call (Data : Type*) where
  | insert (elem : Elem Data)
  | updateDirect (elem : Elem Data)
  | removeMin
  | removeDirect (key : Nat)
  | clear

section Calls

variable (hashFunc : Nat → Nat) (compare : Elem Data → Elem Data → Int)

/-- The heap after a call; `none` when the process exits. -/
def perform (heap : KeyedHeap Data) : Call Data → Option (KeyedHeap Data)
  | .insert elem => zbxBinaryHeapInsert hashFunc compare heap elem
  | .updateDirect elem => zbxBinaryHeapUpdateDirect hashFunc compare heap elem
  | .removeMin => zbxBinaryHeapRemoveMin hashFunc compare heap
  | .removeDirect key => zbxBinaryHeapRemoveDirect hashFunc compare heap key
  | .clear => some (zbxBinaryHeapClear heap)

def run (heap : KeyedHeap Data) (calls : List (Call Data)) : Option (KeyedHeap Data) :=
  calls.foldlM (perform hashFunc compare) heap

def HasKey (elems : List (Elem Data)) (key : Nat) : Prop :=
  ∃ elem ∈ elems, elem.key = key

/-- The conditions of a call. -/
def Allowed (heap : KeyedHeap Data) : Call Data → Prop
  | .insert elem => heap.direct = true → ¬ HasKey heap.elems elem.key
  | .updateDirect elem => heap.direct = true ∧ HasKey heap.elems elem.key
  | .removeMin => heap.elems ≠ []
  | .removeDirect key => heap.direct = true ∧ HasKey heap.elems key
  | .clear => True

/-- Every call of a sequence is allowed where it is made. -/
def AllowedRun (heap : KeyedHeap Data) : List (Call Data) → Prop
  | [] => True
  | call :: calls =>
    Allowed heap call ∧ ∀ after, perform hashFunc compare heap call = some after →
      AllowedRun after calls

end Calls

/-- What a call does to the elements, in any order of the array. -/
def Prescribed (before after : List (Elem Data)) : Call Data → Prop
  | .insert elem => after.Perm (elem :: before)
  | .updateDirect elem =>
    ∃ old others, old.key = elem.key ∧ before.Perm (old :: others) ∧
      after.Perm (elem :: others)
  | .removeMin => ∃ minimum, before[0]? = some minimum ∧ before.Perm (minimum :: after)
  | .removeDirect key => ∃ old, old.key = key ∧ before.Perm (old :: after)
  | .clear => after = []

variable {hashFunc : Nat → Nat} {compare : Elem Data → Elem Data → Int}
  {keyed : KeyedHeap Data} {heap : Heap Data}

/-- The invariant: a heap in order stands for the heap with its hash map. -/
structure Correct (hashFunc : Nat → Nat) (compare : Elem Data → Elem Data → Int)
    (keyed : KeyedHeap Data) (heap : Heap Data) : Prop where
  refines : Refines hashFunc keyed heap
  ordered : HeapOrdered compare heap
  indexed : heap.direct = true → Indexed heap

theorem mem_keys_iff {key : Nat} : key ∈ keys heap ↔ HasKey heap.elems key :=
  List.mem_map

theorem correct_of_rel (refines : Refines hashFunc keyed heap)
    {result : Option (KeyedHeap Data)} {plain : Option (Heap Data)} {after : Heap Data}
    {call : Call Data} (related : Option.Rel (Refines hashFunc) result plain)
    (succeeds : plain = some after) (ordered : HeapOrdered compare after)
    (indexed : after.direct = true → Indexed after) (direct : after.direct = heap.direct)
    (prescribed : Prescribed heap.elems after.elems call) :
    ∃ keyedAfter after, result = some keyedAfter ∧ Correct hashFunc compare keyedAfter after ∧
      keyedAfter.direct = keyed.direct ∧ Prescribed keyed.elems keyedAfter.elems call := by
  subst succeeds
  cases related with
  | some simulates =>
    refine ⟨_, after, rfl, ⟨simulates, ordered, indexed⟩, ?_, ?_⟩
    · rw [simulates.direct, direct, refines.direct]
    · rw [simulates.elems, refines.elems]
      exact prescribed

/-- Every allowed call succeeds, keeps the invariant and does what it is for. -/
theorem correct_perform (preorder : TotalPreorder compare)
    (correct : Correct hashFunc compare keyed heap) {call : Call Data}
    (allowed : Allowed keyed call) :
    ∃ keyedAfter after, perform hashFunc compare keyed call = some keyedAfter ∧
      Correct hashFunc compare keyedAfter after ∧ keyedAfter.direct = keyed.direct ∧
      Prescribed keyed.elems keyedAfter.elems call := by
  obtain ⟨refines, ordered, indexed⟩ := correct
  cases call with
  | insert elem =>
    rw [Allowed, refines.elems, refines.direct, ← mem_keys_iff] at allowed
    obtain ⟨after, inserted, isIndexed⟩ : ∃ after,
        BinaryHeap.zbxBinaryHeapInsert compare heap elem = some after ∧
          (after.direct = true → Indexed after) := by
      by_cases direct : heap.direct = true
      · obtain ⟨after, inserted, isIndexed, -⟩ :=
          DirectHeap.insert_spec compare (indexed direct) (allowed direct)
        exact ⟨after, inserted, fun _ => isIndexed⟩
      · obtain ⟨after, inserted⟩ :=
          BinaryHeap.insert_isSome compare (Bool.eq_false_of_not_eq_true direct) elem
        refine ⟨after, inserted, ?_⟩
        intro isDirect
        exact absurd ((BinaryHeap.insert_direct inserted).symm.trans isDirect) direct
    exact correct_of_rel refines (insert_refines refines elem) inserted
      (insert_ordered preorder ordered inserted) isIndexed (BinaryHeap.insert_direct inserted)
      (BinaryHeap.insert_elems_perm inserted)
  | updateDirect elem =>
    rw [Allowed, refines.elems, refines.direct, ← mem_keys_iff] at allowed
    obtain ⟨direct, member⟩ := allowed
    obtain ⟨after, position, updated, isIndexed, found, permuted⟩ :=
      DirectHeap.updateDirect_spec compare (indexed direct) member
    have isKey := ((indexed direct).exact _ _).mp found
    rw [DirectHeap.getElem?_keys, map_eq_some_iff] at isKey
    obtain ⟨old, isOld, sameKey⟩ := isKey
    obtain ⟨inside, isElem⟩ := List.getElem?_eq_some_iff.mp isOld
    refine correct_of_rel refines (updateDirect_refines refines elem) updated
      (updateDirect_ordered preorder ordered (indexed direct) updated) (fun _ => isIndexed)
      (isIndexed.direct.trans direct.symm)
      ⟨old, heap.elems.eraseIdx position, sameKey, ?_, permuted.trans ?_⟩
    · rw [← isElem]
      exact (List.getElem_cons_eraseIdx_perm inside).symm
    · exact List.set_perm_cons_eraseIdx inside elem
  | removeMin =>
    rw [Allowed, refines.elems] at allowed
    obtain ⟨minimum, rest, shape⟩ := List.exists_cons_of_ne_nil allowed
    have found : BinaryHeap.zbxBinaryHeapFindMin heap = some minimum := by
      rw [BinaryHeap.zbxBinaryHeapFindMin, shape]
      rfl
    obtain ⟨after, removed⟩ := BinaryHeap.removeMin_isSome compare found
    have direct := BinaryHeap.removeMin_direct removed
    refine correct_of_rel refines (removeMin_refines refines) removed
      (removeMin_ordered preorder ordered removed) ?_ direct
      ⟨minimum, found, BinaryHeap.removeMin_elems_perm found removed⟩
    intro isDirect
    obtain ⟨other, isOther, isIndexed, -⟩ :=
      DirectHeap.removeMin_spec compare (indexed (direct.symm.trans isDirect)) found
    exact some.inj (isOther.symm.trans removed) ▸ isIndexed
  | removeDirect key =>
    rw [Allowed, refines.elems, refines.direct, ← mem_keys_iff] at allowed
    obtain ⟨direct, member⟩ := allowed
    obtain ⟨after, elem, removed, isIndexed, isKey, permuted⟩ :=
      DirectHeap.removeDirect_spec compare (indexed direct) member
    exact correct_of_rel refines (removeDirect_refines refines key) removed
      (removeDirect_ordered preorder ordered (indexed direct) removed) (fun _ => isIndexed)
      (isIndexed.direct.trans direct.symm) ⟨elem, isKey, permuted⟩
  | clear =>
    refine ⟨_, { elems := [], direct := heap.direct }, rfl, ⟨⟨rfl, refines.direct, ?_⟩, ?_, ?_⟩,
      rfl, rfl⟩
    · intro direct
      change Represents hashFunc
        (if keyed.direct = true then zbxHashmapClear keyed.keyIndex else keyed.keyIndex) _
      have isDirect : keyed.direct = true := direct
      rw [if_pos isDirect]
      exact clear_spec keyed.keyIndex
    · intro position positive
      exact inOrder_of_outside (Nat.zero_le _)
    · intro direct
      refine ⟨direct, ?_⟩
      intro key position
      simp [keys]

/-! ## All runs -/

theorem correct_run (preorder : TotalPreorder compare)
    (correct : Correct hashFunc compare keyed heap) {calls : List (Call Data)}
    (allowed : AllowedRun hashFunc compare keyed calls) :
    ∃ keyedAfter after, run hashFunc compare keyed calls = some keyedAfter ∧
      Correct hashFunc compare keyedAfter after ∧ keyedAfter.direct = keyed.direct := by
  induction calls generalizing keyed heap with
  | nil => exact ⟨keyed, heap, rfl, correct, rfl⟩
  | cons call calls ih =>
    obtain ⟨next, plain, performed, nextCorrect, direct, -⟩ :=
      correct_perform preorder correct allowed.1
    obtain ⟨final, plainFinal, finished, finalCorrect, finalDirect⟩ :=
      ih nextCorrect (allowed.2 next performed)
    refine ⟨final, plainFinal, ?_, finalCorrect, finalDirect.trans direct⟩
    rw [run, List.foldlM_cons, performed]
    exact finished

theorem correct_create (direct : Bool) :
    Correct hashFunc compare (zbxBinaryHeapCreate Data direct) { direct := direct } where
  refines := by
    refine ⟨rfl, rfl, ?_⟩
    intro isDirect
    have option : direct = true := isDirect
    rw [zbxBinaryHeapCreate, if_pos option]
    exact represents_initSlots 512
  ordered := by
    intro position positive
    exact inOrder_of_outside (Nat.zero_le _)
  indexed := by
    intro isDirect
    refine ⟨isDirect, ?_⟩
    intro key position
    simp [keys]

theorem Correct.entries (correct : Correct hashFunc compare keyed heap)
    (direct : keyed.direct = true) (entry : Entry) :
    entry ∈ keyed.keyIndex.entries ↔
      ∃ (position : Nat) (elem : Elem Data), keyed.elems[position]? = some elem ∧
        entry = ⟨elem.key, position⟩ := by
  have indexed := correct.indexed (correct.refines.direct.symm.trans direct)
  rw [show entry = ⟨entry.key, entry.value⟩ from rfl,
    (correct.refines.index direct).holds, stored, map_eq_some_iff]
  constructor
  · rintro ⟨position, found, isValue⟩
    rw [indexed.exact, DirectHeap.getElem?_keys, map_eq_some_iff] at found
    obtain ⟨elem, isElem, isKey⟩ := found
    refine ⟨position, elem, correct.refines.elems ▸ isElem, ?_⟩
    rw [← isValue, isKey]
    rfl
  · rintro ⟨position, elem, isElem, same⟩
    rw [Entry.mk.injEq] at same
    refine ⟨position, ?_, same.2.symm⟩
    rw [indexed.exact, DirectHeap.getElem?_keys, same.1, ← correct.refines.elems, isElem]
    rfl

/--
After any sequence of allowed calls on a new heap: the heap order holds at
every index, with the direct option the key index has exactly the keys of the
elements, each with the position of its element, the root is a least element,
and the next call changes the elements as prescribed.
-/
theorem heap_correct (preorder : TotalPreorder compare) (direct : Bool)
    (calls : List (Call Data))
    (allowed : AllowedRun hashFunc compare (zbxBinaryHeapCreate Data direct) calls) :
    ∃ heap, run hashFunc compare (zbxBinaryHeapCreate Data direct) calls = some heap ∧
      (∀ position, 0 < position → ∀ above, heap.elems[(position - 1) / 2]? = some above →
        ∀ elem, heap.elems[position]? = some elem → compare above elem ≤ 0) ∧
      (direct = true → (∀ entry, entry ∈ heap.keyIndex.entries ↔
          ∃ (position : Nat) (elem : Elem Data), heap.elems[position]? = some elem ∧
            entry = ⟨elem.key, position⟩) ∧
        (heap.keyIndex.entries.map Entry.key).Nodup ∧
        ∀ key, zbxHashmapGet hashFunc heap.keyIndex key = fail ∧ ¬ HasKey heap.elems key ∨
          ∃ (position : Nat) (elem : Elem Data),
            zbxHashmapGet hashFunc heap.keyIndex key = position ∧ heap.elems[position]? = some elem ∧
            elem.key = key) ∧
      (∀ minimum, zbxBinaryHeapFindMin heap = some minimum →
        minimum ∈ heap.elems ∧ ∀ elem ∈ heap.elems, compare minimum elem ≤ 0) ∧
      (zbxBinaryHeapFindMin heap = none ↔ heap.elems = []) ∧
      (∀ call, Allowed heap call → ∃ after, perform hashFunc compare heap call = some after ∧
        Prescribed heap.elems after.elems call) := by
  obtain ⟨heap, plain, finished, correct, isDirect⟩ :=
    correct_run preorder (correct_create direct) allowed
  have refines := correct.refines
  refine ⟨heap, finished, ?_, ?_, ?_, ?_, ?_⟩
  · rw [refines.elems]
    exact correct.ordered
  · intro option
    have hasIndex : heap.direct = true := isDirect.trans option
    have indexed := correct.indexed (refines.direct.symm.trans hasIndex)
    refine ⟨correct.entries hasIndex, (refines.index hasIndex).nodup, ?_⟩
    intro key
    rw [get_eq refines hasIndex, refines.elems]
    cases found : plain.keyIndex key with
    | none =>
      refine Or.inl ⟨rfl, ?_⟩
      rw [← mem_keys_iff]
      exact (DirectHeap.keyIndex_eq_none indexed).mp found
    | some position =>
      rw [indexed.exact, DirectHeap.getElem?_keys, map_eq_some_iff] at found
      obtain ⟨elem, isElem, isKey⟩ := found
      exact Or.inr ⟨position, elem, rfl, isElem, isKey⟩
  · intro minimum found
    rw [zbxBinaryHeapFindMin] at found
    refine ⟨List.mem_of_getElem? found, ?_⟩
    rw [refines.elems] at found ⊢
    intro elem member
    exact findMin_least preorder correct.ordered found member
  · rw [zbxBinaryHeapFindMin, List.getElem?_eq_none_iff, Nat.le_zero, List.length_eq_zero_iff]
  · intro call allowedCall
    obtain ⟨after, -, performed, -, -, prescribed⟩ :=
      correct_perform preorder correct allowedCall
    exact ⟨after, performed, prescribed⟩

def byData (first second : Elem Nat) : Int :=
  first.data - second.data

theorem byData_preorder : TotalPreorder byData where
  total := by
    intro first second
    unfold byData
    omega
  trans := by
    intro first second third
    unfold byData
    omega

/-- Two insertions into a heap with the direct option. -/
theorem heap_correct_two :
    ∃ heap, run id byData (zbxBinaryHeapCreate Nat true) [.insert ⟨7, 5⟩, .insert ⟨8, 3⟩] =
        some heap ∧
      ∀ minimum, zbxBinaryHeapFindMin heap = some minimum →
        ∀ elem ∈ heap.elems, byData minimum elem ≤ 0 := by
  have noKey : Allowed (zbxBinaryHeapCreate Nat true) (.insert ⟨7, 5⟩) := by
    rintro - ⟨elem, member, -⟩
    cases member
  have allowed : AllowedRun id byData (zbxBinaryHeapCreate Nat true)
      [.insert ⟨7, 5⟩, .insert ⟨8, 3⟩] := by
    refine ⟨noKey, ?_⟩
    intro after performed
    refine ⟨?_, fun _ _ => trivial⟩
    obtain ⟨next, -, isNext, -, -, prescribed⟩ :=
      correct_perform byData_preorder (correct_create true) noKey
    obtain rfl := some.inj (isNext.symm.trans performed)
    rintro - ⟨elem, member, isKey⟩
    rw [List.Perm.mem_iff prescribed] at member
    rw [List.mem_singleton.mp member] at isKey
    cases isKey
  obtain ⟨heap, finished, -, -, least, -⟩ := heap_correct byData_preorder true _ allowed
  exact ⟨heap, finished, fun minimum found => (least minimum found).2⟩

/-! ## Taking the least elements -/

variable (hashFunc compare) in
/-- The loop with which users of a heap, such as `hc_pop_items`, take a number of elements. -/
def takeLeast : Nat → KeyedHeap Data → Option (List (Elem Data) × KeyedHeap Data)
  | 0, heap => some ([], heap)
  | count + 1, heap =>
    match zbxBinaryHeapFindMin heap with
    | none => some ([], heap)
    | some minimum =>
      (zbxBinaryHeapRemoveMin hashFunc compare heap).bind fun heap =>
        (takeLeast count heap).map fun result => (minimum :: result.1, result.2)

end Zabbix.Algo.HeapRuns
