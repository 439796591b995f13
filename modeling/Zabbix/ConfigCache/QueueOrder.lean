import Mathlib.Data.List.Lex
import Zabbix.ConfigCache.PollerExclusion

/-!
# The order of the poller queues

Each queue is ordered by a key of its items: the next check, the priority and what makes a batch.
`DCupdate_item_queue` leaves the heap alone when the poller type and the next check of a queued
item are what they were, although the rest of the key may have changed.
-/

namespace Zabbix.ConfigCache.QueueOrder

open Algo.BinaryHeap Algo.DirectHeap Algo.HeapAgreement Algo.HeapFamily Algo.HeapOrder Option
open Common.History Library.HeapOrder Library.KeyedTable PollerExclusion PollerItems

variable {Custom : Type} (env : Environment Custom)

/-! ## The keys of the queues -/

def batchKey (pollerType : PollerType) (itemid : ItemId) (item : ZbxDcItem) : List Int :=
  match pollerType with
  | .pinger => [item.interfaceid]
  | .java =>
    let jmx := (env.jmxitems.lookup itemid).getD ⟨0, 0, 0⟩
    [item.interfaceid, jmx.username, jmx.password, jmx.jmxEndpoint]
  | .normal | .unreachable | .ipmi =>
    if item.type = .snmp then
      [1, item.interfaceid, item.type.code, flagDiscoveryRule item.flags,
        (env.snmpitems.lookup itemid).getD 0]
    else
      [0, 0, 0, 0, 0]

def queueKey (pollerType : PollerType) (itemid : ItemId) (item : ZbxDcItem) : List Int :=
  item.nextcheck :: item.queuePriority.code :: batchKey env pollerType itemid item

/-- The order of an element in a queue. -/
def elemKey (pollerType : PollerType) (items : Items) (elem : Elem Unit) : List Int :=
  (items.lookup elem.key).elim [] (queueKey env pollerType elem.key)

theorem compareFields_zip {first second : List Int} (sameLength : first.length = second.length) :
    compareFields (first.zip second) =
      if first < second then -1 else if second < first then 1 else 0 := by
  induction first generalizing second with
  | nil =>
    obtain rfl := List.eq_nil_of_length_eq_zero sameLength.symm
    rfl
  | cons field1 rest1 ih =>
    cases second with
    | nil => cases sameLength
    | cons field2 rest2 =>
      have step := ih (Nat.succ.inj sameLength)
      rw [List.zip_cons_cons, compareFields]
      simp only [List.cons_lt_cons_iff]
      rcases lt_trichotomy field1 field2 with isLess | rfl | isGreater
      · rw [if_pos isLess, if_pos (Or.inl isLess)]
      · rw [if_neg (lt_irrefl _), if_neg (lt_irrefl _), step]
        simp only [lt_irrefl, false_or, true_and]
      · rw [if_neg isGreater.not_gt, if_pos isGreater, if_neg, if_pos (Or.inl isGreater)]
        rintro (isLess | ⟨rfl, -⟩)
        · exact isLess.not_gt isGreater
        · exact lt_irrefl _ isGreater

theorem length_batchKey (pollerType : PollerType) (itemid1 itemid2 : ItemId)
    (item1 item2 : ZbxDcItem) :
    (batchKey env pollerType itemid1 item1).length =
      (batchKey env pollerType itemid2 item2).length := by
  have isFive (itemid : ItemId) (item : ZbxDcItem) :
      (batchKey env .normal itemid item).length = 5 := by
    rw [batchKey]
    split <;> rfl
  cases pollerType with
  | pinger => rfl
  | java => rfl
  | normal => exact (isFive itemid1 item1).trans (isFive itemid2 item2).symm
  | unreachable => exact (isFive itemid1 item1).trans (isFive itemid2 item2).symm
  | ipmi => exact (isFive itemid1 item1).trans (isFive itemid2 item2).symm

theorem configHeapItemCompare_eq (itemid1 itemid2 : ItemId) (item1 item2 : ZbxDcItem) :
    configHeapItemCompare env itemid1 itemid2 item1 item2 =
      compareFields
        ((batchKey env .normal itemid1 item1).zip (batchKey env .normal itemid2 item2)) := by
  unfold configHeapItemCompare batchKey
  by_cases isSnmp1 : item1.type = .snmp
  · by_cases isSnmp2 : item2.type = .snmp
    · simp only [isSnmp1, isSnmp2, ne_eq, not_true_eq_false, if_false, if_true]
      rw [configSnmpItemCompare, isSnmp1, isSnmp2]
      rfl
    · simp only [isSnmp1, isSnmp2, ne_eq, not_true_eq_false, not_false_eq_true, if_false, if_true]
      rfl
  · by_cases isSnmp2 : item2.type = .snmp
    · simp only [isSnmp1, isSnmp2, ne_eq, not_true_eq_false, not_false_eq_true, if_false, if_true]
      rfl
    · simp only [isSnmp1, isSnmp2, ne_eq, not_false_eq_true, if_false, if_true]
      rfl

theorem queueItemCompare_eq (pollerType : PollerType) (itemid1 itemid2 : ItemId)
    (item1 item2 : ZbxDcItem) :
    queueItemCompare env pollerType itemid1 itemid2 item1 item2 =
      compareFields
        ((batchKey env pollerType itemid1 item1).zip (batchKey env pollerType itemid2 item2)) := by
  cases pollerType with
  | pinger => rfl
  | java => rfl
  | normal => exact configHeapItemCompare_eq env itemid1 itemid2 item1 item2
  | unreachable => exact configHeapItemCompare_eq env itemid1 itemid2 item1 item2
  | ipmi => exact configHeapItemCompare_eq env itemid1 itemid2 item1 item2

theorem queueCompare_eq (pollerType : PollerType) {items : Items} {elem1 elem2 : Elem Unit}
    {item1 item2 : ZbxDcItem} (found1 : items.lookup elem1.key = some item1)
    (found2 : items.lookup elem2.key = some item2) :
    queueCompare env pollerType items elem1 elem2 =
      orderCompare (elemKey env pollerType items) elem1 elem2 := by
  have isKey1 : elemKey env pollerType items elem1 = queueKey env pollerType elem1.key item1 := by
    rw [elemKey, found1, elim_some]
  have isKey2 : elemKey env pollerType items elem2 = queueKey env pollerType elem2.key item2 := by
    rw [elemKey, found2, elim_some]
  have sameLength : (queueKey env pollerType elem1.key item1).length =
      (queueKey env pollerType elem2.key item2).length := by
    simp only [queueKey, List.length_cons, length_batchKey env pollerType elem1.key elem2.key item1 item2]
  rw [orderCompare, isKey1, isKey2]
  refine Eq.trans ?_ ((compareFields_zip sameLength).trans (by congr))
  simp only [queueCompare, found1, found2, queueItemCompare_eq, queueKey, List.zip_cons_cons,
    compareFields]
  split_ifs <;> simp_all

/-- Every queue is a heap of its compare function. -/
def QueuesOrdered (config : DcConfig) : Prop :=
  ∀ pollerType,
    HeapOrdered (queueCompare env pollerType config.items) (config.queues pollerType)

/-- The order of the keys in a queue. -/
abbrev keyCompare (pollerType : PollerType) (items : Items) : Elem Unit → Elem Unit → Int :=
  orderCompare (elemKey env pollerType items)

variable {env} {config after left : DcConfig} {itemid : ItemId} {item stored moved : ZbxDcItem}

theorem queueCompare_agree {pollerType : PollerType} {items : Items} {member : Elem Unit → Prop}
    (known : ∀ elem, member elem → ∃ item, items.lookup elem.key = some item) :
    AgreeOn member (queueCompare env pollerType items) (keyCompare env pollerType items) := by
  intro first isFirst second isSecond
  obtain ⟨item1, found1⟩ := known first isFirst
  obtain ⟨item2, found2⟩ := known second isSecond
  exact queueCompare_eq env pollerType found1 found2

theorem item_of_mem (filed : Filed config.queues (place config.items)) {pollerType : PollerType}
    {elem : Elem Unit} (isElem : elem ∈ (config.queues pollerType).elems) :
    ∃ item, config.items.lookup elem.key = some item := by
  have isPlace := (filed.exact pollerType elem.key).mp (List.mem_map_of_mem isElem)
  obtain ⟨item, found, -⟩ := bind_eq_some_iff.mp isPlace
  exact ⟨item, found⟩

theorem queuesOrdered_iff (filed : Filed config.queues (place config.items)) :
    QueuesOrdered env config ↔ ∀ pollerType,
      HeapOrdered (keyCompare env pollerType config.items) (config.queues pollerType) := by
  refine forall_congr' fun pollerType => ?_
  have agree : AgreeOn (· ∈ (config.queues pollerType).elems)
      (queueCompare env pollerType config.items) (keyCompare env pollerType config.items) :=
    queueCompare_agree fun _ => item_of_mem filed
  exact ⟨heapOrdered_agree agree, heapOrdered_agree agree.symm⟩

/-! ## One item with another key -/

/-- The queues are in order but for one item, and in order where it is not. -/
structure OrderedExcept (env : Environment Custom) (config : DcConfig) (itemid : ItemId) : Prop where
  but : ∀ pollerType,
    OrderedBut (keyCompare env pollerType config.items) (config.queues pollerType) itemid
  others : ∀ pollerType, itemid ∉ keys (config.queues pollerType) →
    HeapOrdered (keyCompare env pollerType config.items) (config.queues pollerType)

def KeysKept (env : Environment Custom) (items : Items) (env' : Environment Custom) (items' : Items)
    (itemid : ItemId) : Prop :=
  ∀ pollerType (elem : Elem Unit), elem.key ≠ itemid →
    elemKey env pollerType items elem = elemKey env' pollerType items' elem

theorem orderedExcept_of_ordered {env' : Environment Custom}
    (filed : Filed config.queues (place config.items)) (ordered : QueuesOrdered env config)
    (kept : KeysKept env config.items env' after.items itemid)
    (same : after.queues = config.queues) : OrderedExcept env' after itemid where
  but pollerType := by
    rw [same]
    exact orderedBut_agree (orderCompare_preorder _) ((queuesOrdered_iff filed).mp ordered pollerType)
      (filed.indexed pollerType)
      (orderCompare_agree fun elem isOther => kept pollerType elem isOther.2)
  others pollerType absent := by
    rw [same] at absent ⊢
    refine heapOrdered_agree (orderCompare_agree fun elem isElem => kept pollerType elem ?_)
      ((queuesOrdered_iff filed).mp ordered pollerType)
    rintro rfl
    exact absent (List.mem_map_of_mem isElem)

theorem elemKey_moveTo (pollerType : PollerType) (items : Items) (itemid : ItemId) (item : ZbxDcItem)
    (location : Location) :
    elemKey env pollerType (items.insert itemid (item.moveTo location)) =
      elemKey env pollerType (items.insert itemid item) := by
  funext elem
  rw [elemKey, elemKey, lookup_insert_eq, lookup_insert_eq]
  split_ifs
  · rfl
  · rfl

theorem elemKey_insert (pollerType : PollerType) {items : Items}
    (found : items.lookup itemid = some item) (location : Location) :
    elemKey env pollerType (items.insert itemid (item.moveTo location)) =
      elemKey env pollerType items := by
  rw [elemKey_moveTo]
  funext elem
  rw [elemKey, elemKey, lookup_insert_eq]
  split_ifs with same
  · rw [same, found]
  · rfl

theorem orderedExcept_setQueue {pollerType : PollerType} {queue : Heap Unit} {location : Location}
    (ordered : OrderedExcept env (config.setItem itemid item) itemid)
    (queueOrdered :
      HeapOrdered (keyCompare env pollerType (config.items.insert itemid item)) queue) :
    OrderedExcept env ((config.setItem itemid (item.moveTo location)).setQueue pollerType queue)
      itemid := by
  have inOrder (other : PollerType) :
      OrderedBut (keyCompare env other (config.items.insert itemid (item.moveTo location)))
          (Function.update config.queues pollerType queue other) itemid ∧
        (itemid ∉ keys (Function.update config.queues pollerType queue other) →
          HeapOrdered (keyCompare env other (config.items.insert itemid (item.moveTo location)))
            (Function.update config.queues pollerType queue other)) := by
    rw [keyCompare, elemKey_moveTo]
    by_cases same : other = pollerType
    · rw [same, Function.update_self]
      exact ⟨orderedBut_of_ordered (orderCompare_preorder _) queueOrdered itemid,
        fun _ => queueOrdered⟩
    · rw [Function.update_of_ne same]
      exact ⟨ordered.but other, ordered.others other⟩
  exact ⟨fun other => (inOrder other).1, fun other => (inOrder other).2⟩

theorem leaveOldQueue_ordered {oldPollerType : Option PollerType}
    (filed : Filed config.queues (place config.items))
    (ordered : OrderedExcept env (config.setItem itemid item) itemid)
    (isLeft : leaveOldQueue env config itemid item oldPollerType = some (left, moved)) :
    OrderedExcept env left itemid := by
  unfold leaveOldQueue at isLeft
  split_ifs at isLeft with leaves
  · obtain ⟨oldType, -, removal⟩ := bind_eq_some_iff.mp isLeft
    obtain ⟨queue, removed, isSame⟩ := map_eq_some_iff.mp removal
    obtain ⟨rfl, -⟩ := Prod.mk.inj isSame
    have agree : AgreeOn (· ∈ (config.queues oldType).elems)
        (queueCompare env oldType (config.items.insert itemid (item.moveTo .nowhere)))
        (keyCompare env oldType (config.items.insert itemid item)) := by
      rw [keyCompare, ← elemKey_moveTo oldType config.items itemid item .nowhere]
      refine queueCompare_agree fun elem isElem => ?_
      rw [lookup_insert_eq]
      split_ifs
      · exact ⟨_, rfl⟩
      · exact item_of_mem filed isElem
    have isRemoved := (removeDirect_agree agree itemid).symm.trans removed
    exact orderedExcept_setQueue ordered (removeDirect_settles (orderCompare_preorder _)
      (filed.indexed oldType) (ordered.but oldType) isRemoved)
  · obtain ⟨rfl, -⟩ := Prod.mk.inj (some.inj isLeft)
    exact ordered

/-- A queued item is still in order with the items above and below it in its queue. -/
def InPlace (env : Environment Custom) (items : Items) (queue : Heap Unit) (pollerType : PollerType)
    (itemid : ItemId) : Prop :=
  ∀ index, queue.keyIndex itemid = some index →
    AboveChildren (leq (queueCompare env pollerType items)) (view queue) index ∧
      BelowParent (leq (queueCompare env pollerType items)) (view queue) index

theorem ordered_iff_inPlace {pollerType : PollerType}
    (filed : Filed config.queues (place config.items))
    (isPlace : place config.items itemid = some pollerType)
    (ordered : OrderedExcept env config itemid) :
    QueuesOrdered env config ↔
      InPlace env config.items (config.queues pollerType) pollerType itemid := by
  have agree : AgreeOn (· ∈ (config.queues pollerType).elems)
      (queueCompare env pollerType config.items) (keyCompare env pollerType config.items) :=
    queueCompare_agree fun _ => item_of_mem filed
  have inOrder (index1 index2 : Nat) :
      InOrder (leq (queueCompare env pollerType config.items))
          (view (config.queues pollerType)) index1 index2 ↔
        InOrder (leq (keyCompare env pollerType config.items))
          (view (config.queues pollerType)) index1 index2 := by
    rw [← compareAt_le_iff, ← compareAt_le_iff, compareAt_agree agree]
  obtain ⟨index, found⟩ := keyIndex_isSome (filed.indexed pollerType)
    ((filed.exact pollerType itemid).mpr isPlace)
  have ofQueue := heapOrdered_iff_of_but (ordered.but pollerType) found
  rw [queuesOrdered_iff filed]
  constructor
  · intro isOrdered other isFound
    obtain rfl := some.inj (found.symm.trans isFound)
    obtain ⟨above, below⟩ := ofQueue.mp (isOrdered pollerType)
    exact ⟨fun position positive isChild => (inOrder _ _).mpr (above position positive isChild),
      fun positive => (inOrder _ _).mpr (below positive)⟩
  · intro inPlace other
    by_cases same : other = pollerType
    · obtain ⟨above, below⟩ := inPlace index found
      exact same ▸ ofQueue.mpr
        ⟨fun position positive isChild => (inOrder _ _).mp (above position positive isChild),
          fun positive => (inOrder _ _).mp (below positive)⟩
    · exact ordered.others other ((filed_once filed isPlace).2 other same)

theorem enterQueue_ordered {oldNextcheck : Int} (filed : Filed config.queues (place config.items))
    (filedAfter : Filed after.queues (place after.items))
    (found : config.items.lookup itemid = some item)
    (queued : item.location = .queue → item.pollerType.isSome)
    (ordered : OrderedExcept env config itemid)
    (entered : enterQueue env config itemid item oldNextcheck = some after) :
    QueuesOrdered env after ↔
      ∀ pollerType, item.pollerType = some pollerType → item.location = .queue →
        oldNextcheck = item.nextcheck →
          InPlace env config.items (config.queues pollerType) pollerType itemid := by
  have isPlace : place config.items itemid = placeOf item := by
    rw [place, found, bind_some]
  unfold enterQueue at entered
  cases isType : item.pollerType with
  | none =>
    rw [isType] at entered queued
    obtain rfl := some.inj entered
    refine iff_of_true ((queuesOrdered_iff filed).mpr fun pollerType =>
      ordered.others pollerType ?_) (by simp)
    rw [filed.exact, isPlace, placeOf, if_neg fun isQueued => by simpa using queued isQueued]
    simp
  | some pollerType =>
    simp only [isType] at entered
    split_ifs at entered with stays isOutside
    · obtain rfl := some.inj entered
      rw [placeOf, if_pos stays.1, isType] at isPlace
      rw [ordered_iff_inPlace filed isPlace ordered]
      constructor
      · rintro inPlace other ⟨⟩ - -
        exact inPlace
      · exact fun inPlace => inPlace pollerType rfl stays.1 stays.2
    · refine iff_of_true ?_ fun _ _ isQueued => absurd isQueued isOutside
      obtain ⟨queue, inserted, rfl⟩ := map_eq_some_iff.mp entered
      rw [queuesOrdered_iff filedAfter]
      rw [placeOf, if_neg isOutside] at isPlace
      have absent (other : PollerType) : itemid ∉ keys (config.queues other) := by
        rw [filed.exact, isPlace]
        simp
      have agree : AgreeOn (· ∈ (⟨itemid, ()⟩ : Elem Unit) :: (config.queues pollerType).elems)
          (queueCompare env pollerType (config.items.insert itemid (item.moveTo .queue)))
          (keyCompare env pollerType config.items) := by
        rw [keyCompare, ← elemKey_insert pollerType found .queue]
        refine queueCompare_agree fun elem isElem => ?_
        rw [lookup_insert_eq]
        split_ifs with same
        · exact ⟨_, rfl⟩
        · obtain rfl | isElem := List.mem_cons.mp isElem
          · exact absurd rfl same
          · exact item_of_mem filed isElem
      have isInserted := (insert_agree agree).symm.trans inserted
      intro other
      change HeapOrdered (keyCompare env other (config.items.insert itemid (item.moveTo .queue)))
        (Function.update config.queues pollerType queue other)
      rw [keyCompare, elemKey_insert other found]
      by_cases same : other = pollerType
      · rw [same, Function.update_self]
        exact insert_ordered (orderCompare_preorder _) (ordered.others pollerType
          (absent pollerType)) isInserted
      · rw [Function.update_of_ne same]
        exact ordered.others other (absent other)
    · have isQueued := not_not.mp isOutside
      refine iff_of_true ?_ fun _ _ _ isSame => absurd ⟨isQueued, isSame⟩ stays
      obtain ⟨queue, updated, rfl⟩ := map_eq_some_iff.mp entered
      rw [queuesOrdered_iff filedAfter]
      rw [placeOf, if_pos isQueued, isType] at isPlace
      have agree : AgreeOn (· ∈ (⟨itemid, ()⟩ : Elem Unit) :: (config.queues pollerType).elems)
          (queueCompare env pollerType config.items) (keyCompare env pollerType config.items) := by
        refine queueCompare_agree fun elem isElem => ?_
        obtain rfl | isElem := List.mem_cons.mp isElem
        · exact ⟨item, found⟩
        · exact item_of_mem filed isElem
      have isUpdated := (updateDirect_agree agree).symm.trans updated
      intro other
      change HeapOrdered (keyCompare env other config.items)
        (Function.update config.queues pollerType queue other)
      by_cases same : other = pollerType
      · rw [same, Function.update_self]
        exact updateDirect_settles (orderCompare_preorder _) (filed.indexed pollerType)
          (ordered.but pollerType) isUpdated
      · rw [Function.update_of_ne same]
        exact ordered.others other ((filed_once filed isPlace).2 other same)

/-- A change that the update of the queue overlooks leaves the item where it has to be. -/
def KeepsPlace (env : Environment Custom) (config : DcConfig) (itemid : ItemId)
    (stored item : ZbxDcItem) : Prop :=
  stored.location = .queue → item.pollerType = stored.pollerType →
    item.nextcheck = stored.nextcheck →
      ∀ pollerType, stored.pollerType = some pollerType →
        InPlace env (config.items.insert itemid item) (config.queues pollerType) pollerType itemid

/-- The queues stay in order exactly when no change is overlooked that matters. -/
theorem dcUpdateItemQueue_ordered {env' : Environment Custom}
    (filed : Filed config.queues (place config.items)) (ordered : QueuesOrdered env config)
    (found : config.items.lookup itemid = some stored)
    (queued : stored.location = .queue → stored.pollerType.isSome)
    (sameLocation : item.location = stored.location)
    (kept : KeysKept env config.items env' (config.items.insert itemid item) itemid)
    (updated : dcUpdateItemQueue env' config itemid item stored.pollerType stored.nextcheck =
      some after) :
    QueuesOrdered env' after ↔ KeepsPlace env' config itemid stored item := by
  have isPlace : place config.items itemid = placeOf stored := by
    rw [place, found, bind_some]
  have except : OrderedExcept env' (config.setItem itemid item) itemid :=
    orderedExcept_of_ordered filed ordered kept rfl
  obtain ⟨_, location, isUpdated, changed, -, -⟩ :=
    dcUpdateItemQueue_spec env' filed found queued sameLocation stored.nextcheck
  obtain rfl := some.inj (isUpdated.symm.trans updated)
  unfold dcUpdateItemQueue at updated
  by_cases taken : item.location = .poller
  · rw [if_pos taken] at updated
    obtain rfl := some.inj updated
    refine iff_of_true ((queuesOrdered_iff changed.filed).mpr fun pollerType =>
      except.others pollerType ?_) fun isQueued => ?_
    · change itemid ∉ keys (config.queues pollerType)
      rw [filed.exact, isPlace, placeOf, ← sameLocation, taken]
      simp
    · rw [← sameLocation, taken] at isQueued
      cases isQueued
  · rw [if_neg taken] at updated
    obtain ⟨left, between, isLeft, isChanged, -, isSome⟩ :=
      leaveOldQueue_spec env' filed found queued sameLocation taken
    rw [isLeft, bind_some] at updated
    rw [enterQueue_ordered isChanged.filed changed.filed isChanged.found isSome
      (leaveOldQueue_ordered filed except isLeft) updated]
    by_cases leaves : item.location = .queue ∧ stored.pollerType ≠ item.pollerType
    · rw [leaveOldQueue, if_pos leaves] at isLeft
      obtain ⟨_, -, removal⟩ := bind_eq_some_iff.mp isLeft
      obtain ⟨_, -, isSame⟩ := map_eq_some_iff.mp removal
      have isNowhere : between = .nowhere :=
        (congrArg ZbxDcItem.location (Prod.mk.inj isSame).2).symm
      refine iff_of_true (fun _ _ isQueued => ?_) fun _ isType => absurd isType.symm leaves.2
      rw [isNowhere] at isQueued
      cases isQueued
    · rw [leaveOldQueue, if_neg leaves] at isLeft
      obtain ⟨rfl, isSame⟩ := Prod.mk.inj (some.inj isLeft)
      rw [← isSame]
      constructor
      · intro inPlace isQueued isType isNext pollerType isPoller
        exact inPlace pollerType (isType.trans isPoller) (sameLocation.trans isQueued) isNext.symm
      · intro inPlace pollerType isPoller isQueued isNext
        have isType := not_not.mp fun isOther => leaves ⟨isQueued, isOther⟩
        exact inPlace (sameLocation.symm.trans isQueued) isType.symm isNext.symm pollerType
          (isType.trans isPoller)

end Zabbix.ConfigCache.QueueOrder
