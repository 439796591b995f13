import Zabbix.ConfigCache.PollerRuns
import Zabbix.ConfigCache.QueueOrder

/-!
# Poller queues while items change

Items are added and changed with their type specific data, taken from the queues and returned.
All queues stay in order through a run exactly when no step overlooks a change that matters, and
then the pollers take the first items and find those of a batch together.
-/

namespace Zabbix.ConfigCache.QueueRuns

open Algo.BinaryHeap Algo.DirectHeap Algo.HeapAgreement Algo.HeapFamily Algo.HeapOrder Option
open Common.History Library Library.KeyedTable PollerExclusion PollerItems PollerQueues QueueOrder

variable {Custom : Type}

/-! ## Operations -/

/-- `snmp_oid_type` and `ZBX_DC_JMXITEM` of an item. -/
structure TypeData where
  snmpOidType : Option Int := none
  jmxitem : Option ZbxDcJmxItem := none
deriving DecidableEq

def putEntry {Value : Type} (table : Table ItemId Value) (itemid : ItemId) :
    Option Value → Table ItemId Value
  | some value => table.insert itemid value
  | none => table.erase itemid

/-- The entries of an item in `config->snmpitems` and `config->jmxitems` are replaced. -/
def setTypeData (env : Environment Custom) (itemid : ItemId) :
    Option TypeData → Environment Custom
  | none => env
  | some data =>
    { env with
      snmpitems := putEntry env.snmpitems itemid data.snmpOidType
      jmxitems := putEntry env.jmxitems itemid data.jmxitem }

/-- The configuration cache; `env` has the type specific data. -/
structure Cache (Custom : Type) where
  env : Environment Custom
  config : DcConfig

/-- `DCfind_id` on `config->items`, and how `DCsync_items` fills in a new item. -/
def dcFindItem (config : DcConfig) (itemid : ItemId) (item : ZbxDcItem) : DcConfig × ZbxDcItem :=
  match config.items.lookup itemid with
  | some stored => (config, stored)
  | none =>
    let stored := { item with nextcheck := 0, location := .nowhere, pollerType := none }
    (config.setItem itemid stored, stored)

inductive QueueOperation where
  /-- An item is changed or added, and passed to `DCupdate_item_queue`. -/
  | updateItem (itemid : ItemId) (item : ZbxDcItem) (data : Option TypeData)
  /-- `DCconfig_get_poller_items` or `DCconfig_get_ipmi_poller_items` takes the next item. -/
  | getItem (pollerType : PollerType) (now : Int)
  /-- The location of an item that a poller has is reset. -/
  | returnItem (itemid : ItemId)
deriving DecidableEq

def updateItem (cache : Cache Custom) (itemid : ItemId) (item : ZbxDcItem)
    (data : Option TypeData) : Option (Cache Custom) :=
  let env := setTypeData cache.env itemid data
  let (config, stored) := dcFindItem cache.config itemid item
  (dcUpdateItemQueue env config itemid (item.moveTo stored.location) stored.pollerType
    stored.nextcheck).map fun config => { env, config }

def decideItem (env : Environment Custom) (pollerType : PollerType) (dcItem : ZbxDcItem)
    (dcHost : ZbxDcHost) (now : Int) : Decision :=
  if pollerType = .ipmi then decideIpmiItem env dcItem dcHost now
  else decidePollerItem env pollerType dcItem dcHost now

def getItem (cache : Cache Custom) (pollerType : PollerType) (now : Int) : Option (Cache Custom) :=
  (queueMin cache.config pollerType).bind fun found =>
    if now < found.2.nextcheck then
      none
    else
      (takeMin cache.env cache.config pollerType found.1 found.2 now fun dcItem dcHost =>
        decideItem cache.env pollerType dcItem dcHost now).map fun result =>
          { cache with config := result.1 }

def returnItem (cache : Cache Custom) (itemid : ItemId) : Option (Cache Custom) :=
  (cache.config.items.lookup itemid).bind fun dcItem =>
    if dcItem.location = .poller then
      some { cache with config := cache.config.setItem itemid (dcItem.moveTo .nowhere) }
    else
      none

def step (cache : Cache Custom) : QueueOperation → Option (Cache Custom)
  | .updateItem itemid item data => updateItem cache itemid item data
  | .getItem pollerType now => getItem cache pollerType now
  | .returnItem itemid => returnItem cache itemid

/-- The end of the loop of `DCsync_items`. -/
def dcSyncItems (env : Environment Custom) (config : DcConfig) (itemid : ItemId) (item : ZbxDcItem)
    (host : ZbxDcHost) (flags : UpdateFlags) (now : Int) : Option DcConfig :=
  if item.status = .active ∧ host.status = .monitored then
    dcSyncItem env config itemid item host flags now
  else
    dcUpdateItemQueue env config itemid
      { item with nextcheck := 0, queuePriority := .normal, pollerType := none }
      item.pollerType item.nextcheck

/-- The queues are empty, and there are no items. -/
def initial (env : Environment Custom) (hosts : Table HostId ZbxDcHost) : Cache Custom where
  env := env
  config := { items := ∅, hosts, queues := fun _ => { direct := true } }

/-! ## What the pollers rely on -/

/-- The item that a poller takes next is due, and no item of the queue comes before it. -/
def TakesFirst (cache : Cache Custom) : Prop :=
  ∀ pollerType now maxItems num dcItemPrev itemid item,
    nextItem cache.env cache.config pollerType now maxItems num dcItemPrev = some (itemid, item) →
      item.nextcheck ≤ now ∧
        ∀ other ∈ keys (cache.config.queues pollerType), ∀ otherItem,
          cache.config.items.lookup other = some otherItem →
            queueKey cache.env pollerType itemid item ≤
              queueKey cache.env pollerType other otherItem

/-- While a queue has items like the one that is taken, the next one is such an item. -/
def FindsBatch (cache : Cache Custom) : Prop :=
  ∀ pollerType itemid item queue,
    queueMin cache.config pollerType = some (itemid, item) →
      zbxBinaryHeapRemoveMin (queueCompare cache.env pollerType cache.config.items)
          (cache.config.queues pollerType) = some queue →
        (∃ other ∈ keys queue, ∃ otherItem, cache.config.items.lookup other = some otherItem ∧
          queueKey cache.env pollerType other otherItem =
            queueKey cache.env pollerType itemid item) →
          ∃ next nextItem, queueMin (cache.config.setQueue pollerType queue) pollerType =
              some (next, nextItem) ∧
            queueKey cache.env pollerType next nextItem =
              queueKey cache.env pollerType itemid item

/-- All queues are heaps, and pollers find in them what they are to take. -/
structure QueuesValid (cache : Cache Custom) : Prop where
  ordered : QueuesOrdered cache.env cache.config
  takesFirst : TakesFirst cache
  findsBatch : FindsBatch cache

/-- An operation overlooks no change that matters. -/
def KeepsItem (cache : Cache Custom) : QueueOperation → Prop
  | .updateItem itemid item data =>
    let (config, stored) := dcFindItem cache.config itemid item
    KeepsPlace (setTypeData cache.env itemid data) config itemid stored
      (item.moveTo stored.location)
  | .getItem _ _ => True
  | .returnItem _ => True

/-! ## The first item -/

/-- Every queue has the items that belong there. -/
structure Sound (config : DcConfig) : Prop where
  filed : Filed config.queues (place config.items)
  queued : ∀ itemid item, config.items.lookup itemid = some item → item.location = .queue →
    item.pollerType.isSome

variable {env env' : Environment Custom} {cache next : Cache Custom} {config after : DcConfig}
  {pollerType : PollerType} {itemid : ItemId} {item stored : ZbxDcItem}

theorem elemKey_of_found {items : Items} {elem : Elem Unit}
    (found : items.lookup elem.key = some item) :
    elemKey env pollerType items elem = queueKey env pollerType elem.key item := by
  rw [elemKey, found, elim_some]

theorem queueMin_eq_some {found : ItemId × ZbxDcItem}
    (isMin : queueMin config pollerType = some found) :
    zbxBinaryHeapFindMin (config.queues pollerType) = some ⟨found.1, ()⟩ ∧
      config.items.lookup found.1 = some found.2 := by
  obtain ⟨elem, isFirst, isFound⟩ := bind_eq_some_iff.mp isMin
  obtain ⟨dcItem, isItem, rfl⟩ := map_eq_some_iff.mp isFound
  exact ⟨isFirst, isItem⟩

theorem queueKey_le (sound : Sound config) (ordered : QueuesOrdered env config)
    (isMin : queueMin config pollerType = some (itemid, item)) {elem : Elem Unit}
    (isElem : elem ∈ (config.queues pollerType).elems) :
    queueKey env pollerType itemid item ≤ elemKey env pollerType config.items elem := by
  obtain ⟨isFirst, found⟩ := queueMin_eq_some isMin
  have least := findMin_least (orderCompare_preorder _)
    ((queuesOrdered_iff sound.filed).mp ordered pollerType) isFirst isElem
  rw [orderCompare_le_iff] at least
  have isKey : elemKey env pollerType config.items ⟨itemid, ()⟩ = _ := elemKey_of_found found
  rw [isKey] at least
  exact least

theorem takesFirst_of_ordered (sound : Sound cache.config)
    (ordered : QueuesOrdered cache.env cache.config) : TakesFirst cache := by
  intro pollerType now maxItems num dcItemPrev itemid item isNext
  unfold nextItem at isNext
  split_ifs at isNext
  obtain ⟨found, isMin, isDue⟩ := bind_eq_some_iff.mp isNext
  split_ifs at isDue with stops
  obtain rfl := some.inj isDue
  refine ⟨not_lt.mp fun isLater => stops (Or.inl isLater), ?_⟩
  intro other isOther otherItem isFound
  obtain ⟨elem, isElem, rfl⟩ := List.mem_map.mp isOther
  rw [← elemKey_of_found isFound]
  exact queueKey_le sound ordered isMin isElem

theorem findsBatch_of_ordered (sound : Sound cache.config)
    (ordered : QueuesOrdered cache.env cache.config) : FindsBatch cache := by
  rintro pollerType itemid item queue isMin removed ⟨other, isOther, otherItem, isFound, isSame⟩
  obtain ⟨isFirst, -⟩ := queueMin_eq_some isMin
  have permuted := removeMin_elems_perm isFirst removed
  have wasElem {elem : Elem Unit} (isElem : elem ∈ queue.elems) :
      elem ∈ (cache.config.queues pollerType).elems :=
    permuted.mem_iff.mpr (List.mem_cons_of_mem _ isElem)
  have agree : AgreeOn (· ∈ (cache.config.queues pollerType).elems)
      (queueCompare cache.env pollerType cache.config.items)
      (keyCompare cache.env pollerType cache.config.items) :=
    queueCompare_agree fun _ => item_of_mem sound.filed
  have queueOrdered := removeMin_ordered (orderCompare_preorder _)
    ((queuesOrdered_iff sound.filed).mp ordered pollerType)
    ((removeMin_agree agree).symm.trans removed)
  obtain ⟨elem, isElem, rfl⟩ := List.mem_map.mp isOther
  obtain ⟨first, isNext⟩ : ∃ first, zbxBinaryHeapFindMin queue = some first := by
    cases shape : queue.elems with
    | nil => rw [shape] at isElem; cases isElem
    | cons first rest => exact ⟨first, by rw [zbxBinaryHeapFindMin, shape]; rfl⟩
  have isMember := wasElem (List.mem_of_getElem? isNext)
  obtain ⟨firstItem, isItem⟩ := item_of_mem sound.filed isMember
  refine ⟨first.key, firstItem, ?_, le_antisymm ?_ ?_⟩
  · have isQueue : (cache.config.setQueue pollerType queue).queues pollerType = queue :=
      Function.update_self ..
    rw [queueMin, isQueue, isNext, bind_some]
    exact congrArg (Option.map _) isItem
  · have least := findMin_least (orderCompare_preorder _) queueOrdered isNext isElem
    rw [orderCompare_le_iff, elemKey_of_found isItem, elemKey_of_found isFound, isSame] at least
    exact least
  · rw [← elemKey_of_found isItem]
    exact queueKey_le sound ordered isMin isMember

theorem valid_of_ordered (sound : Sound cache.config)
    (ordered : QueuesOrdered cache.env cache.config) : QueuesValid cache where
  ordered := ordered
  takesFirst := takesFirst_of_ordered sound ordered
  findsBatch := findsBatch_of_ordered sound ordered

/-! ## Steps -/

theorem sound_of_changed (sound : Sound config) (changed : Changed config after itemid item)
    (queued : item.location = .queue → item.pollerType.isSome) : Sound after where
  filed := changed.filed
  queued other otherItem found := by
    rw [changed.items] at found
    split_ifs at found with same
    · obtain rfl := some.inj found
      exact queued
    · exact sound.queued other otherItem found

theorem lookup_putEntry_ne {Value : Type} (table : Table ItemId Value) {itemid other : ItemId}
    (isOther : other ≠ itemid) (value : Option Value) :
    (putEntry table itemid value).lookup other = table.lookup other := by
  cases value with
  | none => rw [putEntry, lookup_erase_eq, if_neg isOther]
  | some value => rw [putEntry, lookup_insert_eq, if_neg isOther]

theorem queueKey_setTypeData (env : Environment Custom) {itemid other : ItemId}
    (isOther : other ≠ itemid) (data : Option TypeData) (pollerType : PollerType)
    (item : ZbxDcItem) :
    queueKey (setTypeData env itemid data) pollerType other item =
      queueKey env pollerType other item := by
  cases data with
  | none => rfl
  | some data =>
    simp only [queueKey, batchKey, setTypeData, lookup_putEntry_ne _ isOther]

theorem keysKept_setTypeData (env : Environment Custom) (items : Items) (itemid : ItemId)
    (item : ZbxDcItem) (data : Option TypeData) :
    KeysKept env items (setTypeData env itemid data) (items.insert itemid item) itemid := by
  intro pollerType elem isOther
  rw [elemKey, elemKey, lookup_insert_eq, if_neg isOther]
  congr 1
  funext item
  exact (queueKey_setTypeData env isOther data pollerType item).symm

theorem updateItem_spec (env : Environment Custom) (sound : Sound config)
    (found : config.items.lookup itemid = some stored)
    (sameLocation : item.location = stored.location) (data : Option TypeData) :
    ∃ after, dcUpdateItemQueue (setTypeData env itemid data) config itemid item stored.pollerType
        stored.nextcheck = some after ∧ Sound after ∧
      (QueuesOrdered env config → (QueuesOrdered (setTypeData env itemid data) after ↔
        KeepsPlace (setTypeData env itemid data) config itemid stored item)) := by
  have queued := sound.queued itemid stored found
  obtain ⟨after, location, updated, changed, -, isQueued⟩ := dcUpdateItemQueue_spec
    (setTypeData env itemid data) sound.filed found queued sameLocation stored.nextcheck
  refine ⟨after, updated, sound_of_changed sound changed fun isQueue => ?_, fun ordered => ?_⟩
  · exact (isQueued fun isPoller => by cases isQueue.symm.trans isPoller).mp isQueue
  · exact dcUpdateItemQueue_ordered sound.filed ordered found queued sameLocation
      (keysKept_setTypeData env config.items itemid item data) updated

theorem dcFindItem_spec (sound : Sound config) (env : Environment Custom) (itemid : ItemId)
    (item : ZbxDcItem) :
    Sound (dcFindItem config itemid item).1 ∧
      (dcFindItem config itemid item).1.items.lookup itemid =
        some (dcFindItem config itemid item).2 ∧
      (QueuesOrdered env config → QueuesOrdered env (dcFindItem config itemid item).1) := by
  unfold dcFindItem
  cases found : config.items.lookup itemid with
  | some stored => exact ⟨sound, found, id⟩
  | none =>
    dsimp only
    generalize isNew : ({ item with
      nextcheck := 0, location := .nowhere, pollerType := none } : ZbxDcItem) = new
    have isNowhere : new.location = .nowhere := by rw [← isNew]
    have notPlaced : placeOf new = none := by
      rw [placeOf, isNowhere]
      rfl
    have isPlace : place config.items itemid = none := by
      rw [place, found, bind_none]
    have changed := changed_setItem sound.filed (isPlace.trans notPlaced.symm)
    have soundAfter := sound_of_changed sound changed fun isQueued => by
      cases isNowhere.symm.trans isQueued
    refine ⟨soundAfter, changed.found, fun ordered => ?_⟩
    have except : OrderedExcept (setTypeData env itemid none) (config.setItem itemid new) itemid :=
      orderedExcept_of_ordered sound.filed ordered
        (keysKept_setTypeData env config.items itemid new none) rfl
    rw [setTypeData] at except
    refine (queuesOrdered_iff soundAfter.filed).mpr fun pollerType =>
      except.others pollerType ?_
    change itemid ∉ keys (config.queues pollerType)
    rw [sound.filed.exact, isPlace]
    simp

theorem moveTo_ordered (env : Environment Custom) (sound : Sound config)
    (found : config.items.lookup itemid = some item)
    (notQueued : item.location ≠ .queue) {location : Location} (isOutside : location ≠ .queue) :
    Sound (config.setItem itemid (item.moveTo location)) ∧
      (QueuesOrdered env config →
        QueuesOrdered env (config.setItem itemid (item.moveTo location))) := by
  have isPlace : place config.items itemid = placeOf (item.moveTo location) := by
    rw [place, found, bind_some, placeOf, if_neg notQueued, placeOf,
      if_neg (show (item.moveTo location).location ≠ .queue from isOutside)]
  have soundAfter := sound_of_changed sound (changed_setItem sound.filed isPlace)
    fun isQueued => absurd isQueued isOutside
  refine ⟨soundAfter, fun ordered => (queuesOrdered_iff soundAfter.filed).mpr fun pollerType => ?_⟩
  change HeapOrdered (orderCompare (elemKey env pollerType
    (config.items.insert itemid (item.moveTo location)))) (config.queues pollerType)
  rw [elemKey_insert pollerType found]
  exact (queuesOrdered_iff sound.filed).mp ordered pollerType

theorem removeFirst_spec (env : Environment Custom) (sound : Sound config)
    (isMin : queueMin config pollerType = some (itemid, item)) :
    ∃ queue, zbxBinaryHeapRemoveMin (queueCompare env pollerType config.items)
        (config.queues pollerType) = some queue ∧
      Sound ((config.setQueue pollerType queue).setItem itemid (item.moveTo .nowhere)) ∧
      (QueuesOrdered env config → QueuesOrdered env
        ((config.setQueue pollerType queue).setItem itemid (item.moveTo .nowhere))) := by
  obtain ⟨isFirst, found⟩ := queueMin_eq_some isMin
  obtain ⟨-, queue, removed, filed⟩ := filed_removeMin (queueCompare env pollerType config.items)
    sound.filed isFirst
  have changed : Changed config
      ((config.setQueue pollerType queue).setItem itemid (item.moveTo .nowhere)) itemid
        (item.moveTo .nowhere) :=
    changed_setQueue filed
  have soundAfter := sound_of_changed sound changed nofun
  refine ⟨queue, removed, soundAfter, fun ordered => ?_⟩
  have agree : AgreeOn (· ∈ (config.queues pollerType).elems)
      (queueCompare env pollerType config.items) (keyCompare env pollerType config.items) :=
    queueCompare_agree fun _ => item_of_mem sound.filed
  rw [queuesOrdered_iff sound.filed] at ordered
  refine (queuesOrdered_iff soundAfter.filed).mpr fun other => ?_
  change HeapOrdered (orderCompare (elemKey env other
      (config.items.insert itemid (item.moveTo .nowhere))))
    (Function.update config.queues pollerType queue other)
  rw [elemKey_insert other found]
  by_cases same : other = pollerType
  · rw [same, Function.update_self]
    exact removeMin_ordered (orderCompare_preorder _) (ordered pollerType)
      ((removeMin_agree agree).symm.trans removed)
  · rw [Function.update_of_ne same]
    exact ordered other

theorem dcRequeueItem_eq (env : Environment Custom) (config : DcConfig) (itemid : ItemId)
    (dcItem : ZbxDcItem) (dcHost : ZbxDcHost) (newState : ItemState) (flags : UpdateFlags)
    (lastclock : Int) :
    ∃ item : ZbxDcItem, item.location = dcItem.location ∧
      dcRequeueItem env config itemid dcItem dcHost newState flags lastclock =
        dcUpdateItemQueue env config itemid item dcItem.pollerType dcItem.nextcheck := by
  obtain ⟨nextcheck, schedulable, isUpdated⟩ :=
    dcItemNextcheckUpdate_fields env itemid dcItem dcHost newState flags lastclock
  obtain ⟨pollerType, isTyped, -⟩ :=
    dcItemPollerTypeUpdate_fields env { dcItem with nextcheck, schedulable } dcHost flags
  refine ⟨{ dcItem with nextcheck, schedulable, pollerType }, rfl, ?_⟩
  rw [dcRequeueItem, isUpdated, isTyped]

theorem takeMin_spec (sound : Sound config) (isMin : queueMin config pollerType = some (itemid, item))
    {now : Int} {decide : ZbxDcItem → ZbxDcHost → Decision} {result : DcConfig × Bool}
    (taken : takeMin env config pollerType itemid item now decide = some result) :
    Sound result.1 ∧ (QueuesOrdered env config → QueuesOrdered env result.1) := by
  obtain ⟨queue, removed, soundMiddle, orderedMiddle⟩ := removeFirst_spec env sound isMin
  have foundMiddle : ((config.setQueue pollerType queue).setItem itemid
      (item.moveTo .nowhere)).items.lookup itemid = some (item.moveTo .nowhere) := by
    rw [DcConfig.setItem, lookup_insert_eq, if_pos rfl]
  rw [takeMin, removed, bind_some] at taken
  dsimp only at taken
  split at taken
  · obtain rfl := some.inj taken
    exact ⟨soundMiddle, orderedMiddle⟩
  · split_ifs at taken
    · obtain rfl := some.inj taken
      exact ⟨soundMiddle, orderedMiddle⟩
    split at taken
    · obtain ⟨after, requeued, rfl⟩ := map_eq_some_iff.mp taken
      rename_i flags _
      obtain ⟨changed, isLocation, isUpdate⟩ := dcRequeueItem_eq env _ itemid
        (item.moveTo .nowhere) _ _ flags now
      rw [isUpdate] at requeued
      obtain ⟨_, updated, soundAfter, order⟩ := updateItem_spec env soundMiddle foundMiddle
        isLocation none
      obtain rfl := some.inj (updated.symm.trans requeued)
      exact ⟨soundAfter, fun ordered => (order (orderedMiddle ordered)).mpr (by rintro ⟨⟩)⟩
    · obtain rfl := some.inj taken
      obtain ⟨soundPoller, orderedPoller⟩ := moveTo_ordered env soundMiddle foundMiddle
        (by rintro ⟨⟩) (show Location.poller ≠ .queue by simp)
      exact ⟨⟨soundPoller.filed, soundPoller.queued⟩,
        fun ordered => orderedPoller (orderedMiddle ordered)⟩

theorem updateItem_ordered (sound : Sound cache.config) (itemid : ItemId) (item : ZbxDcItem)
    (data : Option TypeData) :
    ∃ next, updateItem cache itemid item data = some next ∧ Sound next.config ∧
      (QueuesOrdered cache.env cache.config → (QueuesOrdered next.env next.config ↔
        KeepsItem cache (.updateItem itemid item data))) := by
  obtain ⟨soundFound, found, orderedFound⟩ := dcFindItem_spec sound cache.env itemid item
  obtain ⟨after, updated, soundAfter, order⟩ := updateItem_spec cache.env soundFound found
    (show (item.moveTo (dcFindItem cache.config itemid item).2.location).location = _ from rfl) data
  refine ⟨⟨setTypeData cache.env itemid data, after⟩, ?_, soundAfter, fun ordered =>
    order (orderedFound ordered)⟩
  rw [updateItem]
  exact congrArg (Option.map _) updated

theorem step_spec (sound : Sound cache.config) {operation : QueueOperation}
    (stepped : step cache operation = some next) :
    Sound next.config ∧ (QueuesOrdered cache.env cache.config →
      (QueuesOrdered next.env next.config ↔ KeepsItem cache operation)) := by
  cases operation with
  | updateItem itemid item data =>
    obtain ⟨_, updated, soundNext, order⟩ := updateItem_ordered sound itemid item data
    obtain rfl := some.inj (updated.symm.trans stepped)
    exact ⟨soundNext, order⟩
  | getItem pollerType now =>
    obtain ⟨found, isMin, isTaken⟩ := bind_eq_some_iff.mp stepped
    split_ifs at isTaken
    obtain ⟨result, taken, rfl⟩ := map_eq_some_iff.mp isTaken
    obtain ⟨soundNext, order⟩ := takeMin_spec sound isMin taken
    exact ⟨soundNext, fun ordered => iff_of_true (order ordered) trivial⟩
  | returnItem itemid =>
    obtain ⟨dcItem, found, isReturned⟩ := bind_eq_some_iff.mp stepped
    split_ifs at isReturned with isPoller
    obtain rfl := some.inj isReturned
    obtain ⟨soundNext, order⟩ := moveTo_ordered cache.env sound found
      (fun isQueued => by cases isPoller.symm.trans isQueued)
      (show Location.nowhere ≠ .queue from nofun)
    exact ⟨soundNext, fun ordered => iff_of_true (order ordered) trivial⟩

theorem keepsItem_of_not_enabled (sound : Sound cache.config) {operation : QueueOperation}
    (notEnabled : step cache operation = none) : KeepsItem cache operation := by
  cases operation with
  | updateItem itemid item data =>
    obtain ⟨next, updated, -⟩ := updateItem_ordered sound itemid item data
    cases updated.symm.trans notEnabled
  | getItem => trivial
  | returnItem => trivial

/-! ## The functions that change items -/

variable (found : config.items.lookup itemid = some stored)

include found

theorem step_updateItem (sameLocation : item.location = stored.location) (env : Environment Custom)
    (data : Option TypeData) :
    step { env, config } (.updateItem itemid item data) =
      (dcUpdateItemQueue (setTypeData env itemid data) config itemid item stored.pollerType
        stored.nextcheck).map fun config => { env := setTypeData env itemid data, config } := by
  have isFound : dcFindItem config itemid item = (config, stored) := by
    rw [dcFindItem, found]
  have isMoved : item.moveTo stored.location = item := by
    rw [← sameLocation]
    rfl
  rw [step, updateItem, isFound]
  dsimp only
  rw [isMoved]

theorem dcRequeueItem_isUpdate {dcItem : ZbxDcItem}
    (same : dcItem.location = stored.location ∧ dcItem.pollerType = stored.pollerType ∧
      dcItem.nextcheck = stored.nextcheck) (dcHost : ZbxDcHost) (newState : ItemState)
    (flags : UpdateFlags) (lastclock : Int) :
    ∃ item, (dcRequeueItem env config itemid dcItem dcHost newState flags lastclock).map
        (Cache.mk env) = step { env, config } (.updateItem itemid item none) := by
  obtain ⟨item, isLocation, isUpdate⟩ :=
    dcRequeueItem_eq env config itemid dcItem dcHost newState flags lastclock
  refine ⟨item, ?_⟩
  rw [isUpdate, step_updateItem found (isLocation.trans same.1) env none, same.2.1, same.2.2]
  rfl

theorem dcRequeueItemAt_isUpdate (dcHost : ZbxDcHost) (nextcheck : Int) :
    ∃ item, (dcRequeueItemAt env config itemid stored dcHost nextcheck).map (Cache.mk env) =
      step { env, config } (.updateItem itemid item none) := by
  obtain ⟨pollerType, isTyped, -⟩ := dcItemPollerTypeUpdate_fields env
    { stored with queuePriority := .high, nextcheck } dcHost collected
  refine ⟨{ stored with queuePriority := .high, nextcheck, pollerType }, ?_⟩
  have sameLocation : { stored with
      queuePriority := .high, nextcheck, pollerType }.location = stored.location := rfl
  rw [step_updateItem found sameLocation env none, dcRequeueItemAt, isTyped]
  rfl

theorem dcSyncItems_isUpdate {item : ZbxDcItem} {data : Option TypeData}
    (same : item.location = stored.location ∧ item.pollerType = stored.pollerType ∧
      item.nextcheck = stored.nextcheck) (host : ZbxDcHost) (flags : UpdateFlags) (now : Int) :
    ∃ changed, (dcSyncItems (setTypeData env itemid data) config itemid item host flags now).map
        (Cache.mk (setTypeData env itemid data)) =
      step { env, config } (.updateItem itemid changed data) := by
  have isStep (changed : ZbxDcItem) (sameLocation : changed.location = item.location) :
      step { env, config } (.updateItem itemid changed data) =
        (dcUpdateItemQueue (setTypeData env itemid data) config itemid changed item.pollerType
          item.nextcheck).map (Cache.mk (setTypeData env itemid data)) := by
    rw [step_updateItem found (sameLocation.trans same.1) env data, same.2.1, same.2.2]
  unfold dcSyncItems
  split_ifs
  · obtain ⟨pollerType, isTyped, -⟩ :=
      dcItemPollerTypeUpdate_fields (setTypeData env itemid data) item host flags
    obtain ⟨nextcheck, schedulable, isUpdated⟩ := dcItemNextcheckUpdate_fields
      (setTypeData env itemid data) itemid { item with pollerType } host item.state flags now
    unfold dcSyncItem
    rw [isTyped]
    dsimp only
    split_ifs
    · rw [isUpdated]
      exact ⟨_, (isStep { item with pollerType, nextcheck, schedulable } rfl).symm⟩
    · exact ⟨_, (isStep { item with pollerType } rfl).symm⟩
  · exact ⟨_, (isStep { item with
      nextcheck := 0, queuePriority := .normal, pollerType := none } rfl).symm⟩

omit found

/-! ## Runs -/

theorem sound_initial (env : Environment Custom) (hosts : Table HostId ZbxDcHost) :
    Sound (initial env hosts).config where
  filed := filed_congr filed_empty fun _ => rfl
  queued _ _ := nofun

theorem ordered_initial (env : Environment Custom) (hosts : Table HostId ZbxDcHost) :
    QueuesOrdered (initial env hosts).env (initial env hosts).config :=
  fun _ _ _ _ isLower => nomatch isLower

/-- The queues are valid up to the end of every part of a run. -/
def ValidThroughout (cache : Cache Custom) (operations : List QueueOperation) : Prop :=
  ∀ executed, executed <+: operations → ∀ reached,
    Transition.run step cache executed = some reached → QueuesValid reached

theorem validThroughout_cons (sound : Sound cache.config)
    (ordered : QueuesOrdered cache.env cache.config) (operation : QueueOperation)
    (operations : List QueueOperation) :
    ValidThroughout cache (operation :: operations) ↔
      ∀ next, step cache operation = some next → ValidThroughout next operations := by
  constructor
  · intro valid next stepped executed isPrefix reached isRun
    exact valid (operation :: executed) (List.cons_prefix_cons.mpr ⟨rfl, isPrefix⟩) reached
      (Transition.run_cons_eq_some.mpr ⟨next, stepped, isRun⟩)
  · intro valid executed isPrefix reached isRun
    cases executed with
    | nil =>
      obtain rfl := some.inj isRun
      exact valid_of_ordered sound ordered
    | cons first rest =>
      obtain ⟨rfl, isRest⟩ := List.cons_prefix_cons.mp isPrefix
      obtain ⟨next, stepped, isRest'⟩ := Transition.run_cons_eq_some.mp isRun
      exact valid next stepped rest isRest reached isRest'

theorem validThroughout_iff (sound : Sound cache.config)
    (ordered : QueuesOrdered cache.env cache.config) (operations : List QueueOperation) :
    ValidThroughout cache operations ↔ Transition.Guarded step KeepsItem cache operations := by
  induction operations generalizing cache with
  | nil =>
    refine iff_of_true (fun executed isPrefix reached isRun => ?_) trivial
    obtain rfl := List.prefix_nil.mp isPrefix
    obtain rfl := some.inj isRun
    exact valid_of_ordered sound ordered
  | cons operation operations ih =>
    rw [validThroughout_cons sound ordered]
    cases stepped : step cache operation with
    | none =>
      refine iff_of_true nofun ⟨keepsItem_of_not_enabled sound stepped, ?_⟩
      rw [stepped]
      exact nofun
    | some next =>
      obtain ⟨soundNext, order⟩ := step_spec sound stepped
      constructor
      · intro valid
        have here := valid next rfl [] List.nil_prefix next rfl
        refine Transition.guarded_cons ((order ordered).mp here.ordered) stepped ?_
        exact (ih soundNext here.ordered).mp (valid next rfl)
      · rintro ⟨keeps, later⟩ _ ⟨⟩
        exact (ih soundNext ((order ordered).mpr keeps)).mpr (later next stepped)

/-- All queues are heaps, and pollers find the first items and whole batches in them, throughout
a run exactly when no operation of it overlooks a change that matters. -/
theorem queues_validThroughout_iff (env : Environment Custom) (hosts : Table HostId ZbxDcHost)
    (operations : List QueueOperation) :
    ValidThroughout (initial env hosts) operations ↔
      Transition.Guarded step KeepsItem (initial env hosts) operations :=
  validThroughout_iff (sound_initial env hosts) (ordered_initial env hosts) operations

/-- Two agent items that are due at once. -/
def sampleItem (key : String) : ZbxDcItem :=
  ⟨10, 20, .zabbix, key, "1m", 0, .active, .normal, 100, .queue, some .normal, .normal, true⟩

/-- The second item is to be checked at once, and the first one is taken before it. -/
theorem rescheduleItems_overlooked :
    ∃ cache after,
      Transition.run step (initial PollerRuns.sampleEnvironment (AList.insert 10 {} ∅))
          [.updateItem 1 (sampleItem "agent.ping") none,
            .updateItem 2 (sampleItem "agent.version") none] = some cache ∧
        zbxDcRescheduleItems cache.env cache.config 2 100 = some after ∧
        ¬QueuesValid { cache with config := after } := by
  refine ⟨_, _, rfl, rfl, fun valid => ?_⟩
  have isFirst := valid.takesFirst .normal 100 1 0 none 1 (sampleItem "agent.ping") rfl
  exact absurd (isFirst.2 2 (by decide) { sampleItem "agent.version" with queuePriority := .high } rfl)
    (by decide)

end Zabbix.ConfigCache.QueueRuns
