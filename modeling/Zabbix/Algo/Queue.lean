import Zabbix.Library.Cells

/-!
# Queues of pointers

`zbx_queue_ptr_t` of `queue.c`.  A function gives no result where it reads or writes outside of the
values, or reads a cell that was never written.
-/

namespace Zabbix.Algo.Queue

open Library.Cells Library.Ring Option List

/-- `zbx_queue_ptr_t` -/
structure Queue (α : Type*) where
  values : Cells α
  allocNum : Nat
  headPos : Nat
  tailPos : Nat
deriving DecidableEq

variable {α : Type*}

def zbxQueuePtrCreate : Queue α where
  values := []
  allocNum := 0
  headPos := 0
  tailPos := 0

def zbxQueuePtrValuesNum (queue : Queue α) : Nat :=
  if queue.headPos < queue.tailPos then queue.headPos + queue.allocNum - queue.tailPos
  else queue.headPos - queue.tailPos

/-- The part of `zbx_queue_ptr_reserve` that gets more cells; a half more, or what is asked for. -/
def growTo (queue : Queue α) (allocNum : Nat) : Option (Queue α) :=
  let values := resize queue.values allocNum
  if queue.headPos < queue.tailPos then
    let resizeNum := allocNum - queue.allocNum
    (move values (queue.tailPos + resizeNum) queue.tailPos
      (queue.allocNum - queue.tailPos)).map fun values =>
        { queue with values, allocNum, tailPos := queue.tailPos + resizeNum }
  else some { queue with values, allocNum }

def zbxQueuePtrReserve (queue : Queue α) (num : Int) : Option (Queue α) :=
  if zbxQueuePtrValuesNum queue + num + 1 ≤ queue.allocNum then some queue
  else growTo queue (max (queue.allocNum + num + 1) (queue.allocNum * 3 / 2)).toNat

/-- The values are moved to the first cells, or to the cell after the head. -/
def moveDown (queue : Queue α) : Option (Queue α) :=
  if queue.tailPos = 0 then some queue
  else if queue.headPos < queue.tailPos then
    (move queue.values (queue.headPos + 1) queue.tailPos
      (queue.allocNum - queue.tailPos)).map fun values =>
        { queue with values, tailPos := queue.headPos + 1 }
  else
    let valuesNum := zbxQueuePtrValuesNum queue
    (move queue.values 0 queue.tailPos valuesNum).map fun values =>
      { queue with values, tailPos := 0, headPos := valuesNum }

def zbxQueuePtrCompact (queue : Queue α) : Option (Queue α) :=
  let allocNum := zbxQueuePtrValuesNum queue + 1
  if allocNum = queue.allocNum then some queue
  else (moveDown queue).map fun queue =>
    { queue with values := resize queue.values allocNum, allocNum }

def zbxQueuePtrPush (queue : Queue α) (value : α) : Option (Queue α) :=
  (zbxQueuePtrReserve queue 1).bind fun queue =>
    (write queue.values queue.headPos value).map fun values =>
      { queue with values, headPos := next queue.headPos queue.allocNum }

/-- The first value, or nothing from an empty queue. -/
def zbxQueuePtrPop (queue : Queue α) : Option (Queue α × Option α) :=
  if queue.tailPos ≠ queue.headPos then
    (read queue.values queue.tailPos).map fun value =>
      let headPos := if queue.headPos = queue.allocNum then 0 else queue.headPos
      ({ queue with tailPos := next queue.tailPos queue.allocNum, headPos }, some value)
  else some (queue, none)

section

variable [DecidableEq α]

/-- The loop to the head from the given position; nothing if the value is not found. -/
def removeBeforeHead (queue : Queue α) (value : α) (pos : Nat) :
    Nat → Option (Option (Queue α))
  | 0 => some none
  | turns + 1 =>
    (read queue.values pos).bind fun found =>
      if found = value then
        (shiftDown queue.values pos (queue.headPos - 1 - pos)).map fun values =>
          some { queue with values, headPos := queue.headPos - 1 }
      else removeBeforeHead queue value (pos + 1) turns

/-- The loop from the last cell down to the tail; the position is the one after. -/
def removeAfterTail (queue : Queue α) (value : α) (pos : Nat) : Nat → Option (Queue α)
  | 0 => some queue
  | turns + 1 =>
    (read queue.values (pos - 1)).bind fun found =>
      if found = value then
        (shiftUp queue.values (pos - 1) (pos - 1 - queue.tailPos)).map fun values =>
          { queue with values, tailPos := next queue.tailPos queue.allocNum }
      else removeAfterTail queue value (pos - 1) turns

def zbxQueuePtrRemoveValue (queue : Queue α) (value : α) : Option (Queue α) :=
  if queue.tailPos = queue.headPos then some queue
  else
    let startPos := if queue.tailPos < queue.headPos then queue.tailPos else 0
    (removeBeforeHead queue value startPos (queue.headPos - startPos)).bind fun
      | some queue => some queue
      | none =>
        if queue.tailPos ≤ queue.headPos then some queue
        else removeAfterTail queue value queue.allocNum (queue.allocNum - queue.tailPos)

end

/-! ## What a queue holds -/

variable {queue : Queue α} {contents : List α} {value : α}

/-- The queue has no memory yet, or its values are a ring of its cells. -/
structure Holds (queue : Queue α) (contents : List α) : Prop where
  size : queue.values.length = queue.allocNum
  unused : queue.allocNum = 0 → queue.headPos = 0 ∧ queue.tailPos = 0 ∧ contents = []
  used : queue.allocNum ≠ 0 → IsRing queue.values queue.tailPos queue.headPos contents

theorem Holds.of_isRing (size : queue.values.length = queue.allocNum)
    (ring : IsRing queue.values queue.tailPos queue.headPos contents) : Holds queue contents where
  size := size
  unused := fun isZero => by
    have positive := ring.tail_lt
    omega
  used := fun _ => ring

theorem holds_zbxQueuePtrCreate : Holds (zbxQueuePtrCreate : Queue α) [] where
  size := rfl
  unused := fun _ => ⟨rfl, rfl, rfl⟩
  used := fun notZero => absurd rfl notZero

variable (holds : Holds queue contents)

include holds

theorem Holds.zbxQueuePtrValuesNum :
    zbxQueuePtrValuesNum queue = contents.length := by
  rw [Queue.zbxQueuePtrValuesNum]
  by_cases isZero : queue.allocNum = 0
  · obtain ⟨isHead, isTail, rfl⟩ := holds.unused isZero
    rw [isHead, isTail]
    rfl
  · rw [← holds.size]
    exact (holds.used isZero).length_eq

theorem Holds.positions (hasCells : 0 < queue.allocNum) :
    queue.headPos < queue.allocNum ∧ queue.tailPos < queue.allocNum := by
  have ring := holds.used (by omega)
  rw [← holds.size]
  exact ⟨ring.head_lt, ring.tail_lt⟩

/-! ## Memory -/

theorem Holds.growTo {allocNum : Nat}
    (grows : queue.allocNum < allocNum) :
    ∃ queue', growTo queue allocNum = some queue' ∧ queue'.allocNum = allocNum ∧
      Holds queue' contents := by
  rw [Queue.growTo]
  by_cases isZero : queue.allocNum = 0
  · obtain ⟨isHead, isTail, rfl⟩ := holds.unused isZero
    rw [if_neg (by omega)]
    have noCells : queue.values = [] := length_eq_zero_iff.mp (holds.size.trans isZero)
    refine ⟨_, rfl, rfl, .of_isRing (length_resize _ _) ?_⟩
    have notEmpty : (List.replicate allocNum none : Cells α) ≠ [] := by
      simp only [ne_eq, replicate_eq_nil_iff]
      omega
    refine @IsRing.straight_of _ _ _ _ _ [] _ notEmpty ?_ isTail isHead
    rw [noCells, resize_grow (Nat.zero_le allocNum)]
    rfl
  · have ring := holds.used isZero
    have fits : queue.values.length ≤ allocNum := by
      rw [holds.size]
      omega
    split_ifs with isWrapped
    · obtain ⟨cells', isMoved, size, moved⟩ := ring.resize_wrapped isWrapped fits
      rw [holds.size] at isMoved moved
      simp only [isMoved, map_some]
      exact ⟨_, rfl, rfl, .of_isRing size moved⟩
    · exact ⟨_, rfl, rfl,
        .of_isRing (length_resize _ _) (ring.resize_straight (by omega) fits)⟩

/-- Afterwards there are as many free cells as asked for, and one more. -/
theorem Holds.zbxQueuePtrReserve (num : Int) :
    ∃ queue', zbxQueuePtrReserve queue num = some queue' ∧ Holds queue' contents ∧
      (contents.length : Int) + num + 1 ≤ queue'.allocNum := by
  rw [Queue.zbxQueuePtrReserve, holds.zbxQueuePtrValuesNum]
  split_ifs with isEnough
  · exact ⟨queue, rfl, holds, isEnough⟩
  · have atMost : contents.length ≤ queue.allocNum := by
      by_cases isZero : queue.allocNum = 0
      · rw [(holds.unused isZero).2.2]
        exact Nat.zero_le _
      · have fits := (holds.used isZero).length_lt
        rw [holds.size] at fits
        omega
    have notNegative : 0 ≤ num := by
      by_cases isZero : queue.allocNum = 0
      · rw [(holds.unused isZero).2.2, isZero] at isEnough
        simp only [length_nil] at isEnough
        omega
      · have fits := (holds.used isZero).length_lt
        rw [holds.size] at fits
        omega
    obtain ⟨queue', isGrown, isAlloc, holds'⟩ := @Holds.growTo _ _ _ holds
      (max (queue.allocNum + num + 1) (queue.allocNum * 3 / 2)).toNat (by omega)
    refine ⟨queue', isGrown, holds', ?_⟩
    rw [isAlloc]
    omega

theorem Holds.zbxQueuePtrCompact :
    ∃ queue', zbxQueuePtrCompact queue = some queue' ∧ Holds queue' contents := by
  rw [Queue.zbxQueuePtrCompact, moveDown, holds.zbxQueuePtrValuesNum]
  split_ifs with isCompact isFirst isWrapped
  · exact ⟨queue, rfl, holds⟩
  · refine ⟨_, rfl, .of_isRing (length_resize _ _) ?_⟩
    by_cases isZero : queue.allocNum = 0
    · obtain ⟨isHead, isTail, rfl⟩ := holds.unused isZero
      have noCells : queue.values = [] := length_eq_zero_iff.mp (holds.size.trans isZero)
      refine @IsRing.straight_of _ _ _ _ _ [] [none] (cons_ne_nil _ _) ?_ isTail isHead
      change resize queue.values 1 = [none]
      rw [noCells]
      rfl
    · have ring := holds.used isZero
      rw [isFirst] at ring ⊢
      exact ring.shrink_first
  · have ring := holds.used fun isZero => isFirst (holds.unused isZero).2.1
    obtain ⟨cells', isMoved, moved⟩ := ring.shrink_wrapped isWrapped
    rw [holds.size] at isMoved
    simp only [isMoved, map_some]
    exact ⟨_, rfl, .of_isRing (length_resize _ _) moved⟩
  · have ring := holds.used fun isZero => isFirst (holds.unused isZero).2.1
    obtain ⟨cells', isMoved, moved⟩ := ring.shrink_straight (by omega)
    simp only [isMoved, map_some]
    exact ⟨_, rfl, .of_isRing (length_resize _ _) moved⟩

/-! ## Values that come and go -/

theorem Holds.zbxQueuePtrPush (value : α) :
    ∃ queue', zbxQueuePtrPush queue value = some queue' ∧
      Holds queue' (contents ++ [value]) := by
  obtain ⟨queue', isReserved, holds', hasRoom⟩ := holds.zbxQueuePtrReserve 1
  have ring := holds'.used (by omega)
  rw [← holds'.size] at hasRoom
  obtain ⟨cells', isWritten, pushed⟩ := @IsRing.push _ _ _ _ _ value ring (by omega)
  rw [Queue.zbxQueuePtrPush, isReserved, bind_some, isWritten, map_some]
  rw [holds'.size] at pushed
  exact ⟨_, rfl, .of_isRing ((length_write isWritten).trans holds'.size) pushed⟩

theorem Holds.zbxQueuePtrPop :
    ∃ queue', zbxQueuePtrPop queue = some (queue', contents.head?) ∧
      Holds queue' contents.tail := by
  rw [Queue.zbxQueuePtrPop]
  by_cases isZero : queue.allocNum = 0
  · obtain ⟨isHead, isTail, rfl⟩ := holds.unused isZero
    rw [isHead, isTail, if_neg (by omega)]
    exact ⟨queue, rfl, holds⟩
  · have ring := holds.used isZero
    cases contents with
    | nil =>
      rw [if_neg (not_not.mpr (ring.eq_nil_iff.mpr rfl))]
      exact ⟨queue, rfl, holds⟩
    | cons value contents =>
      have notEmpty : queue.tailPos ≠ queue.headPos := fun same =>
        cons_ne_nil _ _ (ring.eq_nil_iff.mp same)
      have notLast : queue.headPos ≠ queue.allocNum :=
        Nat.ne_of_lt (holds.positions (Nat.pos_of_ne_zero isZero)).1
      obtain ⟨isRead, popped⟩ := ring.pop
      rw [holds.size] at popped
      rw [if_pos notEmpty, isRead, map_some, if_neg notLast]
      exact ⟨_, rfl, .of_isRing holds.size popped⟩

omit holds

/-! ## Values that are removed -/

section

variable [DecidableEq α] {front rest : Cells α} {scanned : List α}

theorem removeBeforeHead_eq (isValues : queue.values = front ++ (scanned.map some ++ rest))
    (isHead : queue.headPos = front.length + scanned.length) :
    (value ∉ scanned ∧
      removeBeforeHead queue value front.length scanned.length = some none) ∨
    (value ∈ scanned ∧ ∃ cell, removeBeforeHead queue value front.length scanned.length =
      some (some { queue with
        values := front ++ ((scanned.erase value).map some ++ cell :: rest)
        headPos := queue.headPos - 1 })) := by
  induction scanned generalizing front with
  | nil => exact Or.inl ⟨not_mem_nil, rfl⟩
  | cons found scanned ih =>
    have isRead : read queue.values front.length = some found := by
      rw [isValues]
      exact read_append
    rw [length_cons] at isHead
    rw [length_cons, removeBeforeHead, isRead, bind_some]
    split_ifs with isValue
    · subst isValue
      have turns : queue.headPos - 1 - front.length = scanned.length := by omega
      rw [turns, isValues, shiftDown_eq, map_some, erase_cons_head]
      exact Or.inr ⟨mem_cons_self, _, rfl⟩
    · have isLater := @ih (front ++ [some found]) (by rw [isValues]; simp)
        (by rw [isHead, length_append, length_singleton]; omega)
      rw [length_append, length_singleton] at isLater
      obtain ⟨notThere, isNone⟩ | ⟨isThere, cell, isSome⟩ := isLater
      · refine Or.inl ⟨?_, isNone⟩
        rw [mem_cons, not_or]
        exact ⟨fun same => isValue same.symm, notThere⟩
      · refine Or.inr ⟨mem_cons_of_mem _ isThere, cell, ?_⟩
        rw [isSome, erase_cons_tail (by simpa using isValue)]
        simp

theorem removeAfterTail_eq (isUnique : scanned.Nodup)
    (isValues : queue.values = front ++ (scanned.map some ++ rest))
    (isTail : queue.tailPos = front.length) :
    (value ∉ scanned ∧ removeAfterTail queue value (front.length + scanned.length)
      scanned.length = some queue) ∨
    (value ∈ scanned ∧ ∃ cell, removeAfterTail queue value (front.length + scanned.length)
      scanned.length = some { queue with
        values := front ++ (cell :: ((scanned.erase value).map some ++ rest))
        tailPos := next queue.tailPos queue.allocNum }) := by
  induction scanned using List.reverseRecOn generalizing rest with
  | nil => exact Or.inl ⟨not_mem_nil, rfl⟩
  | append_singleton scanned found ih =>
    have isRead : read queue.values (front.length + scanned.length) = some found := by
      have atEnd := @read_append _ (front ++ scanned.map some) rest found
      rw [length_append, length_map] at atEnd
      rw [isValues, ← atEnd]
      simp
    have pos : front.length + (scanned.length + 1) - 1 = front.length + scanned.length := by
      omega
    obtain ⟨scannedUnique, -, areApart⟩ := nodup_append.mp isUnique
    rw [length_append, length_singleton, removeAfterTail, pos, isRead, bind_some]
    split_ifs with isValue
    · subst isValue
      have notBefore : found ∉ scanned := fun member =>
        areApart found member found (mem_singleton.mpr rfl) rfl
      have turns : front.length + scanned.length - queue.tailPos = scanned.length := by omega
      rw [turns, isValues, shiftUp_eq, map_some, erase_append_right _ notBefore,
        erase_cons_head, append_nil]
      exact Or.inr ⟨by simp, _, rfl⟩
    · have isLater := @ih (some found :: rest) scannedUnique (by rw [isValues]; simp)
      obtain ⟨notThere, isSame⟩ | ⟨isThere, cell, isRemoved⟩ := isLater
      · refine Or.inl ⟨?_, isSame⟩
        rw [mem_append, mem_singleton, not_or]
        exact ⟨notThere, fun same => isValue same.symm⟩
      · refine Or.inr ⟨mem_append_left _ isThere, cell, ?_⟩
        rw [isRemoved, erase_append_left _ isThere]
        simp

theorem removeValue_straight {before after : Cells α} (holds : Holds queue contents)
    (nonempty : contents ≠ [])
    (isCells : queue.values = before ++ (contents.map some ++ after))
    (isTail : queue.tailPos = before.length)
    (isHead : queue.headPos = before.length + contents.length) (value : α) :
    ∃ queue', zbxQueuePtrRemoveValue queue value = some queue' ∧
      Holds queue' (contents.erase value) := by
  have positive := length_pos_iff.mpr nonempty
  have turns : queue.headPos - before.length = contents.length := by omega
  have size := holds.size
  rw [isCells] at size
  simp only [length_append, length_map] at size
  rw [zbxQueuePtrRemoveValue, if_neg (by omega), if_pos (by omega), isTail]
  simp only [turns]
  obtain ⟨notThere, isNone⟩ | ⟨isThere, cell, isSome⟩ :=
    @removeBeforeHead_eq _ _ value _ _ _ _ isCells isHead
  · rw [isNone, bind_some]
    simp only
    rw [if_pos (by omega), erase_of_not_mem notThere]
    exact ⟨queue, rfl, holds⟩
  · have erased := length_erase_of_mem isThere
    rw [isSome, bind_some]
    refine ⟨_, rfl, .of_isRing ?_ (IsRing.straight_of (cons_ne_nil cell after) rfl isTail ?_)⟩
    · simp only [length_append, length_map, length_cons]
      omega
    · simp only
      omega

theorem removeValue_wrapped {first last : List α} {middle : Cells α}
    (holds : Holds queue (first ++ last)) (isUnique : (first ++ last).Nodup)
    (nonempty : first ≠ []) (hasRoom : middle ≠ [])
    (isCells : queue.values = last.map some ++ (middle ++ first.map some))
    (isTail : queue.tailPos = last.length + middle.length)
    (isHead : queue.headPos = last.length) (value : α) :
    ∃ queue', zbxQueuePtrRemoveValue queue value = some queue' ∧
      Holds queue' ((first ++ last).erase value) := by
  have positive := length_pos_iff.mpr hasRoom
  obtain ⟨firstUnique, lastUnique, areApart⟩ := nodup_append.mp isUnique
  have size := holds.size
  rw [isCells] at size
  simp only [length_append, length_map] at size
  rw [zbxQueuePtrRemoveValue, if_neg (by omega), if_neg (by omega)]
  simp only [Nat.sub_zero]
  have beforeHead := @removeBeforeHead_eq _ queue value _ [] (middle ++ first.map some) last isCells
    (by rw [isHead, length_nil, Nat.zero_add])
  rw [length_nil, ← isHead] at beforeHead
  obtain ⟨notThere, isNone⟩ | ⟨isThere, cell, isSome⟩ := beforeHead
  · rw [isNone, bind_some]
    simp only
    rw [if_neg (by omega)]
    have sameCells : queue.values = (last.map some ++ middle) ++ (first.map some ++ []) := by
      rw [isCells, append_nil, append_assoc]
    have sameTail : queue.tailPos = (last.map some ++ middle : Cells α).length := by
      rw [isTail, length_append, length_map]
    have isAlloc : queue.allocNum = (last.map some ++ middle : Cells α).length + first.length := by
      rw [← sameTail]
      omega
    have turns : queue.allocNum - queue.tailPos = first.length := by omega
    rw [turns, isAlloc]
    obtain ⟨notFirst, isSame⟩ | ⟨isThere, cell, isRemoved⟩ :=
      @removeAfterTail_eq _ _ value _ _ _ _ firstUnique sameCells sameTail
    · rw [isSame, erase_of_not_mem (not_mem_append notFirst notThere)]
      exact ⟨queue, rfl, holds⟩
    · have erased := length_erase_of_mem isThere
      have someFirst := length_pos_of_mem isThere
      rw [isRemoved, erase_append_left _ isThere]
      refine ⟨_, rfl, .of_isRing ?_ ?_⟩
      · simp only [length_append, length_map, length_cons, length_nil]
        omega
      · by_cases isLast : first.erase value = []
        · rw [isLast] at erased ⊢
          rw [length_nil] at erased
          refine @IsRing.straight_of _ _ _ _ _ [] (middle ++ [cell]) (by simp) (by simp) ?_ ?_
          · rw [length_nil]
            simp only [Library.Ring.next]
            rw [if_pos (by omega)]
          · rw [isHead]
            simp
        · have someLeft := length_pos_iff.mpr isLast
          refine @IsRing.wrapped_of _ _ _ _ _ (first.erase value) last (middle ++ [cell]) isLast
            (by simp) (by simp) ?_ isHead rfl
          simp only [Library.Ring.next]
          rw [if_neg (by omega), length_append, length_singleton]
          omega
  · have notFirst : value ∉ first := fun member => areApart value member value isThere rfl
    have erased := length_erase_of_mem isThere
    have someLast := length_pos_of_mem isThere
    rw [isSome, bind_some, erase_append_right _ notFirst]
    refine ⟨_, rfl, .of_isRing ?_ (@IsRing.wrapped_of _ _ _ _ _ first (last.erase value)
      (cell :: middle) nonempty (cons_ne_nil _ _) rfl ?_ ?_ rfl)⟩
    · simp only [length_append, length_map, length_cons, length_nil]
      omega
    · rw [length_cons]
      simp only
      omega
    · simp only
      omega

theorem Holds.zbxQueuePtrRemoveValue (holds : Holds queue contents) (isUnique : contents.Nodup)
    (value : α) :
    ∃ queue', zbxQueuePtrRemoveValue queue value = some queue' ∧
      Holds queue' (contents.erase value) := by
  by_cases isZero : queue.allocNum = 0
  · obtain ⟨isHead, isTail, rfl⟩ := holds.unused isZero
    rw [Queue.zbxQueuePtrRemoveValue, if_pos (isTail.trans isHead.symm)]
    exact ⟨queue, rfl, holds⟩
  have ring := holds.used isZero
  by_cases isEmpty : contents = []
  · rw [Queue.zbxQueuePtrRemoveValue, if_pos (ring.eq_nil_iff.mpr isEmpty)]
    subst isEmpty
    exact ⟨queue, rfl, holds⟩
  generalize isCells : queue.values = cells at ring
  generalize isTail : queue.tailPos = tail at ring
  generalize isHead : queue.headPos = head at ring
  cases ring with
  | straight before after contents hasRoom =>
    exact removeValue_straight holds isEmpty isCells isTail isHead value
  | wrapped first last middle nonempty hasRoom =>
    exact removeValue_wrapped holds isUnique nonempty hasRoom isCells isTail isHead value

end

/-! ## Runs -/

inductive Operation (α : Type*) where
  | create
  | push (value : α)
  | pop
  | reserve (num : Int)
  | compact
  | removeValue (value : α)

variable [DecidableEq α]

/-- What an operation does to a queue, and the value that it pops. -/
def perform (queue : Queue α) : Operation α → Option (Queue α × Option α)
  | .create => some (zbxQueuePtrCreate, none)
  | .push value => (zbxQueuePtrPush queue value).map fun queue => (queue, none)
  | .pop => zbxQueuePtrPop queue
  | .reserve num => (zbxQueuePtrReserve queue num).map fun queue => (queue, none)
  | .compact => (zbxQueuePtrCompact queue).map fun queue => (queue, none)
  | .removeValue value => (zbxQueuePtrRemoveValue queue value).map fun queue => (queue, none)

def runQueue (queue : Queue α) : List (Operation α) → Option (Queue α × List (Option α))
  | [] => some (queue, [])
  | operation :: operations =>
    (perform queue operation).bind fun (queue, popped) =>
      (runQueue queue operations).map fun (queue, later) => (queue, popped :: later)

def performList (contents : List α) : Operation α → List α × Option α
  | .create => ([], none)
  | .push value => (contents ++ [value], none)
  | .pop => (contents.tail, contents.head?)
  | .reserve _ | .compact => (contents, none)
  | .removeValue value => (contents.erase value, none)

def runList (contents : List α) : List (Operation α) → List α × List (Option α)
  | [] => (contents, [])
  | operation :: operations =>
    let (contents, popped) := performList contents operation
    let (contents, later) := runList contents operations
    (contents, popped :: later)

def PushesFresh (contents : List α) : List (Operation α) → Prop
  | [] => True
  | operation :: operations =>
    (∀ value, operation = .push value → value ∉ contents) ∧
      PushesFresh (performList contents operation).1 operations

theorem nodup_performList (isUnique : contents.Nodup) (operation : Operation α)
    (isFresh : ∀ value, operation = .push value → value ∉ contents) :
    (performList contents operation).1.Nodup := by
  cases operation with
  | create => exact nodup_nil
  | push value =>
    exact (perm_append_singleton value contents).nodup_iff.mpr
      (nodup_cons.mpr ⟨isFresh value rfl, isUnique⟩)
  | pop => exact isUnique.sublist (tail_sublist contents)
  | reserve | compact => exact isUnique
  | removeValue value => exact isUnique.erase value

theorem Holds.perform (holds : Holds queue contents) (isUnique : contents.Nodup)
    (operation : Operation α) :
    ∃ queue', perform queue operation = some (queue', (performList contents operation).2) ∧
      Holds queue' (performList contents operation).1 := by
  cases operation with
  | create => exact ⟨_, rfl, holds_zbxQueuePtrCreate⟩
  | push value =>
    obtain ⟨queue', isPushed, holds'⟩ := holds.zbxQueuePtrPush value
    exact ⟨queue', by rw [Queue.perform, isPushed]; rfl, holds'⟩
  | pop => exact holds.zbxQueuePtrPop
  | reserve num =>
    obtain ⟨queue', isReserved, holds', -⟩ := holds.zbxQueuePtrReserve num
    exact ⟨queue', by rw [Queue.perform, isReserved]; rfl, holds'⟩
  | compact =>
    obtain ⟨queue', isCompacted, holds'⟩ := holds.zbxQueuePtrCompact
    exact ⟨queue', by rw [Queue.perform, isCompacted]; rfl, holds'⟩
  | removeValue value =>
    obtain ⟨queue', isRemoved, holds'⟩ := holds.zbxQueuePtrRemoveValue isUnique value
    exact ⟨queue', by rw [Queue.perform, isRemoved]; rfl, holds'⟩

theorem Holds.runQueue (holds : Holds queue contents) (isUnique : contents.Nodup)
    {operations : List (Operation α)} (areFresh : PushesFresh contents operations) :
    ∃ queue', runQueue queue operations = some (queue', (runList contents operations).2) ∧
      Holds queue' (runList contents operations).1 := by
  induction operations generalizing queue contents with
  | nil => exact ⟨queue, rfl, holds⟩
  | cons operation operations ih =>
    obtain ⟨isFresh, laterFresh⟩ := areFresh
    obtain ⟨queue', isPerformed, holds'⟩ := holds.perform isUnique operation
    obtain ⟨last, isRun, lastHolds⟩ :=
      ih holds' (nodup_performList isUnique operation isFresh) laterFresh
    refine ⟨last, ?_, lastHolds⟩
    simp only [Queue.runQueue, isPerformed, bind_some, isRun]
    rfl

/-- A queue is an ordinary list, never accesses a cell outside, and keeps its positions within. -/
theorem runQueue_eq_runList {operations : List (Operation α)}
    (areFresh : PushesFresh [] operations) :
    ∃ queue contents popped,
      runQueue zbxQueuePtrCreate operations = some (queue, popped) ∧
      runList [] operations = (contents, popped) ∧ Holds queue contents ∧
      zbxQueuePtrValuesNum queue = contents.length ∧
      (0 < queue.allocNum → queue.headPos < queue.allocNum ∧ queue.tailPos < queue.allocNum) := by
  obtain ⟨queue, isRun, holds⟩ := Holds.runQueue holds_zbxQueuePtrCreate nodup_nil areFresh
  exact ⟨queue, _, _, isRun, rfl, holds, holds.zbxQueuePtrValuesNum, holds.positions⟩

/-- A value is removed from a queue that goes on with its first cell. -/
theorem runQueue_wrapped :
    ∃ queue, runQueue zbxQueuePtrCreate
      [.push 1, .push 2, .pop, .push 3, .compact, .push 4, .removeValue 3, .pop, .pop] =
        some (queue, [none, none, some 1, none, none, none, none, some 2, some 4]) := by
  obtain ⟨queue, contents, popped, isRun, isList, -⟩ :=
    @runQueue_eq_runList Nat _
      [.push 1, .push 2, .pop, .push 3, .compact, .push 4, .removeValue 3, .pop, .pop]
      (by simp [PushesFresh, performList])
  obtain ⟨-, rfl⟩ := Prod.mk.inj isList
  exact ⟨queue, isRun⟩

end Zabbix.Algo.Queue
