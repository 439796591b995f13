import Zabbix.HistoryCache.Records
import Zabbix.Library.KeyedTable
import Zabbix.Algo.BinaryHeap

/-!
# The history index and the history queue

`history_items` maps an item to its queued records, from the oldest (`tail`) to
the newest (`head`); `history_queue` is a heap of the items that wait for a
syncer, ordered by the time stamp of their tail.  The operations of this module
run inside one lock section each, or are the loop bodies of such a section.

An operation is partial where the code would exit or follow a dangling item
pointer.
-/

namespace Zabbix.HistoryCache.Queue

open Common.History Records Library.KeyedTable Algo.BinaryHeap List

/-- `ZBX_HC_ITEM_STATUS_NORMAL` and `ZBX_HC_ITEM_STATUS_BUSY`. -/
inductive HcItemStatus where
  | normal
  | busy
deriving DecidableEq, Repr

/--
`zbx_hc_item_t`.  The linked list from `tail` to `head` is the tail record and
the list of the later ones, so an item without a record cannot be built.
-/
structure HcItem where
  itemid : ItemId
  status : HcItemStatus := .normal
  valuesNum : Int := 0
  tail : HcData
  later : List HcData := []
deriving DecidableEq, Repr

/-- The records of an item, oldest first. -/
def HcItem.values (item : HcItem) : List HcData :=
  item.tail :: item.later

/-- `item->head`: the newest record. -/
def HcItem.head (item : HcItem) : HcData :=
  item.later.getLast?.getD item.tail

/-- The part of `ZBX_DC_CACHE` that holds the history. -/
structure ZbxDcCache where
  stats : ZbxDcStats := {}
  historyItems : Table ItemId HcItem := ∅
  historyQueue : Heap Unit := {}
  historyNum : Int := 0

/-- Write an item back to its place in `history_items`. -/
def ZbxDcCache.setItem (cache : ZbxDcCache) (item : HcItem) : ZbxDcCache :=
  { cache with historyItems := cache.historyItems.insert item.itemid item }

/-- `hc_queue_elem_compare_func`: compare by timestamp of the oldest value. -/
def hcQueueElemCompareFunc
    (items : Table ItemId HcItem) (elem1 elem2 : Elem Unit) : Int :=
  match items.lookup elem1.key, items.lookup elem2.key with
  | some item1, some item2 => zbxTimespecCompare item1.tail.ts item2.tail.ts
  | _, _ => 0

def hcQueueItem (cache : ZbxDcCache) (itemid : ItemId) : Option ZbxDcCache :=
  (zbxBinaryHeapInsert (hcQueueElemCompareFunc cache.historyItems)
      cache.historyQueue ⟨itemid, ()⟩).map
    fun queue => { cache with historyQueue := queue }

def hcGetItem (cache : ZbxDcCache) (itemid : ItemId) : Option HcItem :=
  cache.historyItems.lookup itemid

/-! ## Adding values -/

def updateLast {Element : Type*} (change : Element → Element)
    (elements : List Element) : List Element :=
  elements.dropLast ++ (elements.getLast?.map change).toList

/-- Copy the meta data of a record without value to a queued record. -/
def mergeMeta (itemValue : DcItemValue) (head : HcData) : HcData :=
  { head with
    lastlogsize := itemValue.lastlogsize
    mtime := itemValue.mtime
    flags := head.flags ||| zbxDcFlagMeta }

/--
The item whose last queued record takes over the meta data of `itemValue`, when
the record can be dropped: it has meta data and no value, and more than one
value is queued.
-/
def mergeTarget (cache : ZbxDcCache) (itemValue : DcItemValue) : Option HcItem :=
  match hcGetItem cache itemValue.itemid with
  | none => none
  | some item =>
    if hasFlag zbxDcFlagNovalue itemValue.flags ∧
        hasFlag zbxDcFlagMeta itemValue.flags ∧ item.later ≠ [] then
      some item
    else
      none

/-- The update of `item->head` for a dropped record. -/
def HcItem.merge (item : HcItem) (itemValue : DcItemValue) : HcItem :=
  { item with later := updateLast (mergeMeta itemValue) item.later }

/-- `item->head->next = data; item->head = data; item->values_num++`. -/
def HcItem.append (item : HcItem) (data : HcData) : HcItem :=
  { item with later := item.later ++ [data], valuesNum := item.valuesNum + 1 }

/-- The end of the loop of `hc_add_item_values`: add a cloned record to its item. -/
def hcAppendData
    (cache : ZbxDcCache) (itemid : ItemId) (data : HcData) : Option ZbxDcCache :=
  match hcGetItem cache itemid with
  | some item => some (cache.setItem (item.append data))
  | none =>
    -- `hc_add_item` starts at zero, the loop body then counts the first value
    let item : HcItem := { itemid, tail := data }
    (hcQueueItem (cache.setItem item) itemid).map fun queued =>
      queued.setItem { item with valuesNum := item.valuesNum + 1 }

/-! ## Popping and pushing items -/

/-- One turn of the loop of `hc_pop_items`: the item that was taken. -/
def hcPopItem (cache : ZbxDcCache) : Option (ItemId × ZbxDcCache) :=
  match zbxBinaryHeapFindMin cache.historyQueue with
  | none => none
  | some elem =>
    (zbxBinaryHeapRemoveMin (hcQueueElemCompareFunc cache.historyItems)
        cache.historyQueue).map
      fun queue => (elem.key, { cache with historyQueue := queue })

/-- The loop of `hc_pop_items`, for at most `room` more items. -/
def hcPopItemsLoop : Nat → ZbxDcCache → List ItemId → Option (List ItemId × ZbxDcCache)
  | 0, cache, popped => some (popped, cache)
  | room + 1, cache, popped =>
    if zbxBinaryHeapEmpty cache.historyQueue then
      some (popped, cache)
    else
      (hcPopItem cache).bind fun taken =>
        hcPopItemsLoop room taken.2 (popped ++ [taken.1])

/-- `ZBX_HC_SYNC_MAX`: the maximum number of items in one synchronization batch. -/
def zbxHcSyncMax : Nat := 1000

/-- `hc_pop_items` into an empty vector. -/
def hcPopItems (cache : ZbxDcCache) : Option (List ItemId × ZbxDcCache) :=
  hcPopItemsLoop zbxHcSyncMax cache []

/--
One turn of the loop of `hc_push_items`, with the record it removes, if any.
-/
def hcPushItem (cache : ZbxDcCache) (itemid : ItemId) :
    Option (ZbxDcCache × Option HcData) :=
  match hcGetItem cache itemid with
  | none => none
  | some item =>
    match item.status with
    | .busy =>
      (hcQueueItem (cache.setItem { item with status := .normal }) itemid).map
        fun queued => (queued, none)
    | .normal =>
      match item.later with
      | [] =>
        some
          ({ cache with historyItems := cache.historyItems.erase itemid },
            some item.tail)
      | next :: later =>
        let shorter :=
          { item with valuesNum := item.valuesNum - 1, tail := next, later }
        (hcQueueItem (cache.setItem shorter) itemid).map fun queued =>
          (queued, some item.tail)

/-! ## Reading an item back -/

@[simp]
theorem hcGetItem_setItem (cache : ZbxDcCache) (item : HcItem) (itemid : ItemId) :
    hcGetItem (cache.setItem item) itemid =
      if itemid = item.itemid then some item else hcGetItem cache itemid :=
  lookup_insert_eq _ _ _ _

/-- How often an item occurs in `history_queue`. -/
def queueCount (cache : ZbxDcCache) (itemid : ItemId) : Nat :=
  (cache.historyQueue.elems.map Elem.key).count itemid

/-- The queued records of an item, oldest first. -/
def queuedValues (cache : ZbxDcCache) (itemid : ItemId) : List HcData :=
  match hcGetItem cache itemid with
  | some item => item.values
  | none => []

@[simp]
theorem queueCount_setItem (cache : ZbxDcCache) (item : HcItem) (itemid : ItemId) :
    queueCount (cache.setItem item) itemid = queueCount cache itemid :=
  rfl

theorem hcQueueItem_isSome
    {cache : ZbxDcCache} (plain : cache.historyQueue.direct = false)
    (itemid : ItemId) :
    ∃ queued, hcQueueItem cache itemid = some queued := by
  obtain ⟨queue, inserted⟩ :=
    insert_isSome (hcQueueElemCompareFunc cache.historyItems) plain ⟨itemid, ()⟩
  exact ⟨_, by rw [hcQueueItem, inserted]; rfl⟩

theorem hcQueueItem_spec
    {cache queued : ZbxDcCache} {itemid : ItemId}
    (done : hcQueueItem cache itemid = some queued) :
    queued.historyItems = cache.historyItems ∧
      queued.historyNum = cache.historyNum ∧
      queued.historyQueue.direct = cache.historyQueue.direct ∧
      ∀ other, queueCount queued other =
        queueCount cache other + if other = itemid then 1 else 0 := by
  obtain ⟨queue, inserted, rfl⟩ := Option.map_eq_some_iff.mp done
  refine ⟨rfl, rfl, insert_direct inserted, fun other => ?_⟩
  have permuted := (insert_elems_perm inserted).map Elem.key
  simp only [queueCount, permuted.count_eq, map_cons, count_cons, beq_iff_eq, eq_comm (a := itemid)]

/-- How many records `values_num` counts over all items of the index. -/
def valuesTotal (cache : ZbxDcCache) : Int :=
  total HcItem.valuesNum cache.historyItems

theorem valuesTotal_setItem
    {cache : ZbxDcCache} {old : HcItem} (item : HcItem)
    (found : hcGetItem cache item.itemid = some old) :
    valuesTotal (cache.setItem item) + old.valuesNum =
      valuesTotal cache + item.valuesNum :=
  total_insert_add HcItem.valuesNum item found

theorem valuesTotal_setItem_of_absent
    {cache : ZbxDcCache} (item : HcItem)
    (absent : hcGetItem cache item.itemid = none) :
    valuesTotal (cache.setItem item) = item.valuesNum + valuesTotal cache :=
  total_insert_of_absent HcItem.valuesNum item absent

/-- What adding a cloned record to its item does. -/
theorem hcAppendData_spec
    {cache : ZbxDcCache} (plain : cache.historyQueue.direct = false)
    (itemid : ItemId) (data : HcData)
    (keyed : ∀ item, hcGetItem cache itemid = some item → item.itemid = itemid) :
    ∃ next, hcAppendData cache itemid data = some next ∧
      next.historyQueue.direct = false ∧
      next.historyNum = cache.historyNum ∧
      valuesTotal next = valuesTotal cache + 1 ∧
      ((∃ item, hcGetItem cache itemid = some item ∧
          (∀ other, hcGetItem next other =
            if other = itemid then some (item.append data) else hcGetItem cache other) ∧
          ∀ other, queueCount next other = queueCount cache other) ∨
        hcGetItem cache itemid = none ∧
          (∀ other, hcGetItem next other =
            if other = itemid then some { itemid, valuesNum := 1, tail := data }
            else hcGetItem cache other) ∧
          ∀ other, queueCount next other =
            queueCount cache other + if other = itemid then 1 else 0) := by
  cases found : hcGetItem cache itemid with
  | some item =>
    have itemKey : (item.append data).itemid = itemid := keyed item found
    refine ⟨cache.setItem (item.append data), by rw [hcAppendData, found], plain, rfl,
      ?_, Or.inl ⟨item, rfl, fun other => ?_, fun other => rfl⟩⟩
    · have exchanged :
          valuesTotal (cache.setItem (item.append data)) + item.valuesNum =
            valuesTotal cache + (item.append data).valuesNum :=
        valuesTotal_setItem (item.append data) (itemKey ▸ found)
      simp only [HcItem.append] at exchanged ⊢
      omega
    · rw [hcGetItem_setItem, itemKey]
  | none =>
    let item : HcItem := { itemid, tail := data }
    have plainItem : (cache.setItem item).historyQueue.direct = false := plain
    obtain ⟨queued, queueing⟩ := hcQueueItem_isSome plainItem itemid
    obtain ⟨items, num, direct, counts⟩ := hcQueueItem_spec queueing
    have getItem (other : ItemId) : hcGetItem queued other =
        if other = itemid then some item else hcGetItem cache other := by
      rw [hcGetItem, items]
      exact hcGetItem_setItem cache item other
    refine ⟨queued.setItem { item with valuesNum := item.valuesNum + 1 }, ?_,
      direct.trans plain, num, ?_, Or.inr ⟨rfl, fun other => ?_, fun other => ?_⟩⟩
    · simp only [hcAppendData, found]
      rw [show hcQueueItem (cache.setItem { itemid, tail := data }) itemid = some queued
        from queueing]
      rfl
    · have queuedTotal : valuesTotal queued = valuesTotal cache := by
        rw [valuesTotal, items]
        exact (valuesTotal_setItem_of_absent item found).trans (zero_add _)
      have queuedItem : hcGetItem queued itemid = some item := by simp [getItem]
      have exchanged :=
        valuesTotal_setItem { item with valuesNum := item.valuesNum + 1 } queuedItem
      simp only [item] at exchanged ⊢
      omega
    · rw [hcGetItem_setItem, getItem]
      split_ifs
      · rfl
      · rfl
    · rw [queueCount_setItem, counts, queueCount_setItem]

@[simp]
theorem updateLast_concat {Element : Type*} (change : Element → Element)
    (front : List Element) (last : Element) :
    updateLast change (front ++ [last]) = front ++ [change last] := by
  simp [updateLast]

theorem updateLast_append {Element : Type*} (change : Element → Element)
    (before : List Element) {elements : List Element} (nonempty : elements ≠ []) :
    updateLast change (before ++ elements) = before ++ updateLast change elements := by
  obtain ⟨front, last, rfl⟩ := (eq_nil_or_concat' elements).resolve_left nonempty
  rw [← append_assoc, updateLast_concat, updateLast_concat, append_assoc]

@[simp]
theorem length_updateLast {Element : Type*} (change : Element → Element)
    (elements : List Element) :
    (updateLast change elements).length = elements.length := by
  rcases eq_nil_or_concat' elements with rfl | ⟨front, last, rfl⟩
  · rfl
  · simp

end Zabbix.HistoryCache.Queue
