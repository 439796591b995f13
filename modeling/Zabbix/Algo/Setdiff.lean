import Mathlib.Order.Lattice
import Mathlib.Order.Nat
import Zabbix.Library.Cells

/-!
# Differences of vectors

`zbx_vector_*_setdiff` of `vectorimpl.h`.  The values between two removed ones are moved down only
when the second of them is found, and those after the last removed one at the end.
-/

namespace Zabbix.Algo.Setdiff

open Library.Cells List Option

/-- `zbx_vector_*_t` -/
structure ZbxVector (α : Type*) where
  values : Cells α
  valuesNum : Nat
deriving DecidableEq

/-- The values of the left vector, and the variables, of which `block_start` has no value yet. -/
structure Scan (α : Type*) where
  values : Cells α
  blockStart : Option Nat := none
  deleted : Nat := 0
  leftIndex : Nat := 0
  rightIndex : Nat := 0

variable {α : Type*}

/-- `memmove` inside the values; there is no result if it leaves them. -/
def memmove (values : Cells α) (target : Int) (source : Nat) (count : Int) : Option (Cells α) :=
  if 0 ≤ target ∧ 0 ≤ count then move values target.toNat source count.toNat else none

/-- The end of a turn, after both indexes have passed equal values. -/
def remove (scan : Scan α) : Option (Scan α) :=
  let deleted := scan.deleted + 1
  let moved :=
    if 0 < scan.deleted then
      scan.blockStart.bind fun blockStart =>
        memmove scan.values (blockStart - deleted + 1) blockStart
          (scan.leftIndex - 1 - blockStart)
    else some scan.values
  moved.map fun values => { scan with values, deleted, blockStart := some scan.leftIndex }

def turn (compareFunc : α → α → Int) (right : ZbxVector α) (scan : Scan α) : Option (Scan α) :=
  (read scan.values scan.leftIndex).bind fun value =>
    (read right.values scan.rightIndex).bind fun other =>
      let c := compareFunc value other
      let leftIndex := if 0 ≥ c then scan.leftIndex + 1 else scan.leftIndex
      let rightIndex := if 0 ≤ c then scan.rightIndex + 1 else scan.rightIndex
      let scan := { scan with leftIndex, rightIndex }
      if c ≠ 0 then some scan else remove scan

/-- The loop, with a bound on its turns; there is no result if they do not suffice. -/
def setdiffLoop (compareFunc : α → α → Int) (valuesNum : Nat) (right : ZbxVector α)
    (scan : Scan α) : Nat → Option (Scan α)
  | 0 => none
  | turns + 1 =>
    if scan.leftIndex < valuesNum ∧ scan.rightIndex < right.valuesNum then
      (turn compareFunc right scan).bind fun scan =>
        setdiffLoop compareFunc valuesNum right scan turns
    else some scan

/-- The end of the function, where the values after the last removed one are moved. -/
def finish (valuesNum : Nat) (scan : Scan α) : Option (ZbxVector α) :=
  if 0 < scan.deleted then
    scan.blockStart.bind fun blockStart =>
      (memmove scan.values (blockStart - scan.deleted) blockStart
          (valuesNum - blockStart)).map fun values =>
        { values, valuesNum := valuesNum - scan.deleted }
  else some { values := scan.values, valuesNum }

def zbxVectorSetdiff (compareFunc : α → α → Int) (left right : ZbxVector α) :
    Option (ZbxVector α) :=
  (setdiffLoop compareFunc left.valuesNum right { values := left.values }
    (left.valuesNum + right.valuesNum + 1)).bind (finish left.valuesNum)

/-! ## What a vector holds -/

/-- The first cells of a vector have the values, as many as it counts. -/
def ZbxVector.Holds (vector : ZbxVector α) (contents : List α) : Prop :=
  vector.valuesNum = contents.length ∧ ∃ rest, vector.values = contents.map some ++ rest

/-- The compare function decides a total order. -/
structure Compares [LinearOrder α] (compareFunc : α → α → Int) : Prop where
  lt_iff : ∀ value other, compareFunc value other < 0 ↔ value < other
  eq_iff : ∀ value other, compareFunc value other = 0 ↔ value = other

/-! ## Blocks -/

variable {front block todo others : List α} {junk rest : Cells α} {scan : Scan α} {value : α}

theorem memmove_block (front block : List α) (junk after : Cells α) {target count : Int}
    {source : Nat} (isTarget : target = front.length)
    (isSource : source = front.length + junk.length) (isCount : count = block.length) :
    ∃ junk' : Cells α, junk'.length = junk.length ∧
      memmove (front.map some ++ (junk ++ (block.map some ++ after))) target source count =
        some ((front ++ block).map some ++ (junk' ++ after)) := by
  refine ⟨(junk ++ block.map some).drop block.length, by simp, ?_⟩
  have isMoved := @move_eq _ (front.map some ++ junk) after (block.map some) front.length (by
    simp only [length_append, length_map]
    omega)
  have isBefore : ((front.map some ++ junk) ++ (block.map some ++ after) : Cells α).take
      front.length = front.map some := by
    rw [append_assoc, ← @length_map _ _ front some, take_left]
  have isAfter : ((front.map some ++ junk) ++ (block.map some ++ after) : Cells α).drop
      (front.length + block.length) = (junk ++ block.map some).drop block.length ++ after := by
    rw [append_assoc, ← @length_map _ _ front some, drop_length_add_append,
      ← append_assoc, drop_append_of_le_length (by simp)]
  rw [length_map, isBefore, isAfter, length_append, length_map, append_assoc] at isMoved
  rw [memmove, if_pos (by omega), isTarget, isCount, isSource, map_append, append_assoc]
  exact isMoved

/--
The front has been moved to its place; the block after the last removed value is kept but not moved
yet, and the rest is to be compared.
-/
structure Within (scan : Scan α) (front : List α) (junk : Cells α) (block todo : List α)
    (rest : Cells α) : Prop where
  values_eq : scan.values = front.map some ++ (junk ++ ((block ++ todo).map some ++ rest))
  deleted_eq : scan.deleted = junk.length
  leftIndex_eq : scan.leftIndex = front.length + junk.length + block.length
  blockStart_eq : junk ≠ [] → scan.blockStart = some (front.length + junk.length)
  front_eq : junk = [] → front = []

theorem Within.read_eq (within : Within scan front junk block (value :: todo) rest) :
    read scan.values scan.leftIndex = some value := by
  have isRead := @read_append _ (front.map some ++ (junk ++ block.map some))
    (todo.map some ++ rest) value
  rw [within.values_eq, within.leftIndex_eq]
  simpa [Nat.add_assoc] using isRead

theorem Within.keep (within : Within scan front junk block (value :: todo) rest) :
    Within { scan with leftIndex := scan.leftIndex + 1 } front junk (block ++ [value]) todo
      rest where
  values_eq := by
    rw [append_assoc]
    exact within.values_eq
  deleted_eq := within.deleted_eq
  leftIndex_eq := by
    rw [length_append, within.leftIndex_eq]
    rfl
  blockStart_eq := within.blockStart_eq
  front_eq := within.front_eq

theorem Within.passRight (within : Within scan front junk block todo rest) (rightIndex : Nat) :
    Within { scan with rightIndex } front junk block todo rest :=
  ⟨within.values_eq, within.deleted_eq, within.leftIndex_eq, within.blockStart_eq,
    within.front_eq⟩

theorem Within.remove (within : Within scan front junk block (value :: todo) rest) :
    ∃ scan' junk', remove { scan with leftIndex := scan.leftIndex + 1 } = some scan' ∧
      scan'.leftIndex = scan.leftIndex + 1 ∧ scan'.rightIndex = scan.rightIndex ∧
      Within scan' (front ++ block) junk' [] todo rest := by
  have isIndex := within.leftIndex_eq
  have isDeleted := within.deleted_eq
  have isValues : scan.values =
      front.map some ++ (junk ++ (block.map some ++ (some value :: (todo.map some ++ rest)))) := by
    simpa using within.values_eq
  obtain ⟨junk', isLength, isRemoved⟩ : ∃ junk' : Cells α, junk'.length = junk.length ∧
      Setdiff.remove { scan with leftIndex := scan.leftIndex + 1 } =
        some { scan with
          values := (front ++ block).map some ++ (junk' ++ (some value :: (todo.map some ++ rest)))
          blockStart := some (scan.leftIndex + 1)
          deleted := scan.deleted + 1
          leftIndex := scan.leftIndex + 1 } := by
    by_cases isFirst : junk = []
    · have notMoved : ¬ 0 < scan.deleted := by simp [isDeleted, isFirst]
      refine ⟨junk, rfl, ?_⟩
      simp only [Setdiff.remove, if_neg notMoved, map_some]
      simp [isValues, isFirst]
    · have isMoving : 0 < scan.deleted := isDeleted ▸ length_pos_iff.mpr isFirst
      obtain ⟨junk', isLength, isMoved⟩ := @memmove_block _ front block junk
        (some value :: (todo.map some ++ rest))
        ((front.length + junk.length : Nat) - (scan.deleted + 1 : Nat) + 1)
        ((scan.leftIndex + 1 : Nat) - 1 - (front.length + junk.length : Nat)) _
        (by omega) rfl (by omega)
      refine ⟨junk', isLength, ?_⟩
      simp only [Setdiff.remove, if_pos isMoving, within.blockStart_eq isFirst, bind_some,
        isValues, isMoved, map_some]
  refine ⟨_, junk' ++ [some value], isRemoved, rfl, rfl, ?values, ?deleted, ?leftIndex,
    ?blockStart, ?front⟩
  case values => simp
  case deleted => rw [length_append, isLength, isDeleted, length_singleton]
  case leftIndex =>
    simp only [length_append, length_cons, length_nil]
    omega
  case blockStart =>
    intro _
    simp only [length_append, length_singleton, some.injEq]
    omega
  case front => simp

theorem Within.finish (within : Within scan front junk block todo rest) {valuesNum : Nat}
    (isNum : valuesNum = scan.leftIndex + todo.length) :
    ∃ result, finish valuesNum scan = some result ∧
      result.Holds (front ++ (block ++ todo)) := by
  have isIndex := within.leftIndex_eq
  have isDeleted := within.deleted_eq
  by_cases isFirst : junk = []
  · obtain rfl := within.front_eq isFirst
    have notMoved : ¬ 0 < scan.deleted := by simp [isDeleted, isFirst]
    refine ⟨_, by rw [Setdiff.finish, if_neg notMoved], ?_, rest, ?_⟩
    · simp [isNum, isIndex, isFirst]
    · simp [within.values_eq, isFirst]
  · have isMoving : 0 < scan.deleted := isDeleted ▸ length_pos_iff.mpr isFirst
    obtain ⟨junk', -, isMoved⟩ := @memmove_block _ front (block ++ todo) junk rest
      ((front.length + junk.length : Nat) - scan.deleted)
      (valuesNum - (front.length + junk.length : Nat)) _
      (by omega) rfl (by rw [length_append]; omega)
    refine ⟨⟨(front ++ (block ++ todo)).map some ++ (junk' ++ rest), valuesNum - scan.deleted⟩, ?_,
      ?_, _, rfl⟩
    · rw [Setdiff.finish, if_pos isMoving, within.blockStart_eq isFirst, bind_some,
        within.values_eq, isMoved, map_some]
    · simp only [length_append]
      omega

/-! ## The right vector -/

variable {right : ZbxVector α} {other : α}

/-- The cells of a vector from an index on have the values. -/
def From (vector : ZbxVector α) (index : Nat) (contents : List α) : Prop :=
  vector.valuesNum = index + contents.length ∧ ∃ passed rest : Cells α,
    passed.length = index ∧ vector.values = passed ++ (contents.map some ++ rest)

theorem From.read_eq {index : Nat} (isFrom : From right index (other :: others)) :
    read right.values index = some other := by
  obtain ⟨-, passed, rest, rfl, isRight⟩ := isFrom
  rw [isRight]
  exact read_append

theorem From.next {index : Nat} (isFrom : From right index (other :: others)) :
    From right (index + 1) others := by
  obtain ⟨isNum, passed, rest, rfl, isRight⟩ := isFrom
  refine ⟨?_, passed ++ [some other], rest, length_append, ?_⟩
  · rw [isNum, length_cons, Nat.add_comm others.length, Nat.add_assoc]
  · rw [isRight, append_assoc]
    rfl

/-! ## The loop -/

variable [LinearOrder α] {compareFunc : α → α → Int}

theorem not_mem_of_lt (ascends : (other :: others).Pairwise (· < ·)) (isLess : value < other) :
    value ∉ other :: others := by
  intro isMember
  rcases mem_cons.mp isMember with rfl | isLater
  · exact lt_irrefl value isLess
  · exact lt_asymm isLess ((pairwise_cons.mp ascends).1 value isLater)

/-- Values above the first of the others are compared with the remaining ones. -/
theorem filter_cons_others (isLess : ∀ value ∈ todo, other < value) :
    todo.filter (· ∉ other :: others) = todo.filter (· ∉ others) := by
  refine filter_congr fun value isMember => ?_
  have notEqual : value ≠ other := ne_of_gt (isLess value isMember)
  simp [notEqual]

theorem turn_spec (order : Compares compareFunc)
    (within : Within scan front junk block (value :: todo) rest)
    (atRight : From right scan.rightIndex (other :: others))
    (ascends : (value :: todo).Pairwise (· < ·))
    (othersAscend : (other :: others).Pairwise (· < ·)) :
    ∃ scan' front' junk' block' todo' others', turn compareFunc right scan = some scan' ∧
      Within scan' front' junk' block' todo' rest ∧ From right scan'.rightIndex others' ∧
      scan'.leftIndex + todo'.length = scan.leftIndex + (value :: todo).length ∧
      todo'.length + others'.length < (value :: todo).length + (other :: others).length ∧
      todo' <:+ value :: todo ∧ others' <:+ other :: others ∧
      front' ++ (block' ++ todo'.filter (· ∉ others')) =
        front ++ (block ++ (value :: todo).filter (· ∉ other :: others)) := by
  have isAbove := (pairwise_cons.mp ascends).1
  simp only [turn, within.read_eq, atRight.read_eq, bind_some]
  rcases lt_trichotomy value other with isLess | rfl | isGreater
  · have isNegative := (order.lt_iff value other).mpr isLess
    have stays := not_mem_of_lt othersAscend isLess
    refine ⟨_, front, junk, block ++ [value], todo, other :: others, ?_, within.keep,
      atRight, ?_, by simp, suffix_cons value todo, suffix_rfl, ?_⟩
    · rw [if_pos (by omega), if_pos (by omega), if_neg (by omega)]
    · simp only [length_cons]
      omega
    · rw [filter_cons_of_pos (by simpa using stays), append_assoc]
      rfl
  · have isZero := (order.eq_iff value value).mpr rfl
    obtain ⟨scan', junk', isRemoved, isLeft, isRight, within'⟩ :=
      (within.passRight (scan.rightIndex + 1)).remove
    refine ⟨scan', front ++ block, junk', [], todo, others, ?_, within',
      isRight ▸ atRight.next, ?_, by simp; omega, suffix_cons value todo,
      suffix_cons value others, ?_⟩
    · rw [isZero]
      exact isRemoved
    · rw [isLeft, length_cons]
      exact Nat.add_right_comm scan.leftIndex 1 todo.length
    · rw [filter_cons_of_neg (by simp), filter_cons_others isAbove, nil_append,
        append_assoc]
  · have isPositive : 0 < compareFunc value other := by
      have notNegative := mt (order.lt_iff value other).mp (lt_asymm isGreater)
      have notZero := mt (order.eq_iff value other).mp (ne_of_gt isGreater)
      omega
    refine ⟨_, front, junk, block, value :: todo, others, ?_,
      within.passRight (scan.rightIndex + 1), atRight.next, rfl, by simp, suffix_rfl,
      suffix_cons other others, ?_⟩
    · rw [if_pos (by omega), if_neg (by omega), if_pos (by omega)]
    · rw [filter_cons_others]
      intro later isMember
      rcases mem_cons.mp isMember with rfl | isLater
      · exact isGreater
      · exact lt_trans isGreater (isAbove later isLater)

/-- The loop keeps the values that are not among the others. -/
theorem setdiffLoop_spec (order : Compares compareFunc) {turns : Nat}
    (within : Within scan front junk block todo rest) (atRight : From right scan.rightIndex others)
    (ascends : todo.Pairwise (· < ·)) (othersAscend : others.Pairwise (· < ·))
    (enough : todo.length + others.length < turns) :
    ∃ scan' front' junk' block' todo',
      setdiffLoop compareFunc (scan.leftIndex + todo.length) right scan turns = some scan' ∧
      Within scan' front' junk' block' todo' rest ∧
      scan'.leftIndex + todo'.length = scan.leftIndex + todo.length ∧
      front' ++ (block' ++ todo') = front ++ (block ++ todo.filter (· ∉ others)) := by
  induction turns generalizing scan front junk block todo others with
  | zero => omega
  | succ turns ih =>
    have isNum := atRight.1
    rcases todo with _ | ⟨value, todo⟩
    · refine ⟨scan, front, junk, block, [], ?_, within, rfl, rfl⟩
      rw [setdiffLoop, if_neg (by simp)]
    rcases others with _ | ⟨other, others⟩
    · refine ⟨scan, front, junk, block, value :: todo, ?_, within, rfl, ?_⟩
      · rw [setdiffLoop, if_neg (by simp [isNum])]
      · rw [filter_eq_self.mpr (by simp)]
    obtain ⟨next, front₁, junk₁, block₁, todo₁, others₁, isTurn, within₁, atRight₁, sameNum,
      isLess, isRest, isOthers, sameValues⟩ := turn_spec order within atRight ascends othersAscend
    obtain ⟨scan', front', junk', block', todo', isLoop, within', isIndex, isKept⟩ :=
      ih within₁ atRight₁ (ascends.sublist isRest.sublist)
        (othersAscend.sublist isOthers.sublist) (by omega)
    refine ⟨scan', front', junk', block', todo', ?_, within', isIndex.trans sameNum,
      isKept.trans sameValues⟩
    rw [setdiffLoop, if_pos, isTurn, bind_some, ← sameNum]
    · exact isLoop
    · simp [isNum]

/--
The left vector keeps exactly the values that the right one does not have, still ascending, and
counts them.
-/
theorem zbxVectorSetdiff_holds (order : Compares compareFunc) {left : ZbxVector α}
    {lefts rights : List α} (isLeft : left.Holds lefts) (isRight : right.Holds rights)
    (ascends : lefts.Pairwise (· < ·)) (othersAscend : rights.Pairwise (· < ·)) :
    ∃ result, zbxVectorSetdiff compareFunc left right = some result ∧
      result.Holds (lefts.filter (· ∉ rights)) ∧
      (lefts.filter (· ∉ rights)).Pairwise (· < ·) := by
  obtain ⟨isNum, rest, isValues⟩ := isLeft
  obtain ⟨isRightNum, rest', isRightValues⟩ := isRight
  have within : Within { values := left.values } [] [] [] lefts rest :=
    ⟨by simpa using isValues, rfl, rfl, by simp, fun _ => rfl⟩
  have atRight : From right 0 rights :=
    ⟨by simpa using isRightNum, [], rest', rfl, by simpa using isRightValues⟩
  obtain ⟨scan, front, junk, block, todo, isLoop, within', isIndex, isKept⟩ :=
    setdiffLoop_spec order within atRight ascends othersAscend (Nat.lt_add_one _)
  rw [Nat.zero_add] at isLoop
  rw [nil_append, nil_append] at isKept
  obtain ⟨result, isFinished, holds⟩ := within'.finish (isNum.trans (by simpa using isIndex.symm))
  rw [zbxVectorSetdiff, isNum, isRightNum, isLoop, bind_some, ← isNum]
  exact ⟨result, isFinished, isKept ▸ holds, ascends.filter _⟩

/-- Ids in two vectors, of which the first, two in a row and the last are removed. -/
def sampleLeft : ZbxVector Nat where
  values := [some 1, some 3, some 4, some 5, some 8, some 9, none]
  valuesNum := 6

def sampleRight : ZbxVector Nat where
  values := [some 1, some 2, some 4, some 5, some 9]
  valuesNum := 5

def compareIds (value other : Nat) : Int := (value : Int) - other

theorem compareIds_compares : Compares compareIds where
  lt_iff _ _ := by
    simp only [compareIds]
    omega
  eq_iff _ _ := by
    simp only [compareIds]
    omega

theorem zbxVectorSetdiff_sample :
    ∃ result, zbxVectorSetdiff compareIds sampleLeft sampleRight = some result ∧
      result.Holds ([1, 3, 4, 5, 8, 9].filter (· ∉ [1, 2, 4, 5, 9])) ∧
      ([1, 3, 4, 5, 8, 9].filter (· ∉ [1, 2, 4, 5, 9])).Pairwise (· < ·) :=
  @zbxVectorSetdiff_holds Nat sampleRight _ compareIds compareIds_compares sampleLeft
    [1, 3, 4, 5, 8, 9] [1, 2, 4, 5, 9] ⟨rfl, [none], rfl⟩ ⟨rfl, [], rfl⟩ (by decide) (by decide)

end Zabbix.Algo.Setdiff
