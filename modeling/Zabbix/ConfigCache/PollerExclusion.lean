import Zabbix.Algo.HeapFamily
import Zabbix.ConfigCache.PollerQueues
import Zabbix.Library.Exclusion

/-!
# Every polled item is queued once or held once

An item with a poller type is in the queue of that type, or in the hands of one
process.  While a section moves an item, it may be in neither; at the end of
each iteration it is not, because every way out of a queue ends in a process
or in `DCupdate_item_queue`.
-/

namespace Zabbix.ConfigCache.PollerExclusion

open Option

open Algo.BinaryHeap Algo.DirectHeap Algo.HeapFamily Common.History HistoryCache.Queue Library
open Library.Exclusion Library.KeyedTable PollerItems PollerQueues

/-! ## Where an item belongs -/

def placeOf (item : ZbxDcItem) : Option PollerType :=
  if item.location = .queue then item.pollerType else none

def place (items : Items) (itemid : ItemId) : Option PollerType :=
  (items.lookup itemid).bind placeOf

theorem place_insert (items : Items) (itemid : ItemId) (item : ZbxDcItem) (other : ItemId) :
    place (items.insert itemid item) other =
      Function.update (place items) itemid (placeOf item) other := by
  rw [place, lookup_insert_eq, Function.update_apply]
  by_cases same : other = itemid
  · rw [if_pos same, if_pos same, bind_some]
  · rw [if_neg same, if_neg same, place]

/-- An item is in the hands of a process. -/
def IsTaken (items : Items) (itemid : ItemId) : Prop :=
  ∃ item, items.lookup itemid = some item ∧ item.location = .poller

/-- Hosts stay, and so does what is fixed about them. -/
def HostsKept (before after : Table HostId ZbxDcHost) : Prop :=
  ∀ hostid host, before.lookup hostid = some host →
    ∃ host', after.lookup hostid = some host' ∧ host'.status = host.status

theorem hostsKept_refl (hosts : Table HostId ZbxDcHost) : HostsKept hosts hosts :=
  fun _ host found => ⟨host, found, rfl⟩

theorem hostsKept_trans {before middle after : Table HostId ZbxDcHost}
    (first : HostsKept before middle) (second : HostsKept middle after) :
    HostsKept before after := by
  intro hostid host found
  obtain ⟨host', found', same'⟩ := first hostid host found
  obtain ⟨host'', found'', same''⟩ := second hostid host' found'
  exact ⟨host'', found'', same''.trans same'⟩

theorem hostsKept_insert {hosts : Table HostId ZbxDcHost} {hostid : HostId}
    {old new : ZbxDcHost} (found : hosts.lookup hostid = some old)
    (same : new.status = old.status) :
    HostsKept hosts (hosts.insert hostid new) := by
  intro other host isFound
  rw [lookup_insert_eq]
  by_cases isOther : other = hostid
  · subst isOther
    rw [found, some.injEq] at isFound
    rw [if_pos rfl]
    exact ⟨new, rfl, isFound ▸ same⟩
  · rw [if_neg isOther]
    exact ⟨host, isFound, rfl⟩

/-- What holds of an item at all times. -/
structure ItemValid {Custom : Type} (env : Environment Custom)
    (hosts : Table HostId ZbxDcHost) (item : ZbxDcItem) : Prop where
  active : item.status = .active
  monitored : ∃ host, hosts.lookup item.hostid = some host ∧ host.status = .monitored
  polled : item.pollerType.isSome → (pollerByItem env item.type item.key).isSome
  queued : item.location = .queue → item.pollerType.isSome

/-- An item that is nowhere is not polled. -/
def Settled (item : ZbxDcItem) : Prop :=
  item.location = .nowhere → item.pollerType = none

/-- One item has been written, and the queues agree with the items. -/
structure Changed (before after : DcConfig) (itemid : ItemId) (item : ZbxDcItem) : Prop where
  hosts : HostsKept before.hosts after.hosts
  items : ∀ other, after.items.lookup other =
    if other = itemid then some item else before.items.lookup other
  filed : Filed after.queues (place after.items)

variable {Custom : Type} {env : Environment Custom}
variable {config middle after : DcConfig} {itemid : ItemId} {item stored : ZbxDcItem}

theorem changed_trans {first : ZbxDcItem} (left : Changed config middle itemid first)
    (right : Changed middle after itemid item) : Changed config after itemid item where
  hosts := hostsKept_trans left.hosts right.hosts
  items other := by
    rw [right.items, left.items]
    by_cases same : other = itemid
    · rw [if_pos same, if_pos same]
    · rw [if_neg same, if_neg same, if_neg same]
  filed := right.filed

theorem Changed.found (changed : Changed config after itemid item) :
    after.items.lookup itemid = some item := by
  rw [changed.items, if_pos rfl]

theorem changed_refl (filed : Filed config.queues (place config.items))
    (found : config.items.lookup itemid = some item) : Changed config config itemid item where
  hosts := hostsKept_refl config.hosts
  items other := by
    by_cases same : other = itemid
    · rw [if_pos same, same, found]
    · rw [if_neg same]
  filed := filed

theorem itemValid_kept {before after : Table HostId ZbxDcHost} (kept : HostsKept before after)
    (valid : ItemValid env before item) : ItemValid env after item where
  active := valid.active
  monitored := by
    obtain ⟨host, found, isMonitored⟩ := valid.monitored
    obtain ⟨host', found', same⟩ := kept _ host found
    exact ⟨host', found', same.trans isMonitored⟩
  polled := valid.polled
  queued := valid.queued

theorem isTaken_changed (changed : Changed config after itemid item) (other : ItemId) :
    IsTaken after.items other ↔
      (other = itemid ∧ item.location = .poller) ∨
        (other ≠ itemid ∧ IsTaken config.items other) := by
  unfold IsTaken
  rw [changed.items]
  by_cases same : other = itemid
  · simp [same]
  · simp [same]

theorem changed_setItem (filed : Filed config.queues (place config.items))
    (same : place config.items itemid = placeOf item) :
    Changed config (config.setItem itemid item) itemid item where
  hosts := hostsKept_refl config.hosts
  items other := lookup_insert_eq config.items itemid other item
  filed := by
    apply filed_congr filed
    intro other
    rw [DcConfig.setItem, place_insert, ← same, Function.update_eq_self]

theorem changed_setQueue {pollerType : PollerType} {queue : Heap Unit}
    (filed : Filed (Function.update config.queues pollerType queue)
      (Function.update (place config.items) itemid (placeOf item))) :
    Changed config ((config.setItem itemid item).setQueue pollerType queue) itemid item where
  hosts := hostsKept_refl config.hosts
  items other := lookup_insert_eq config.items itemid other item
  filed := filed_congr filed (place_insert config.items itemid item)

/-! ## The queue update -/

variable (env) in
theorem leaveOldQueue_spec (filed : Filed config.queues (place config.items))
    (found : config.items.lookup itemid = some stored)
    (queued : stored.location = .queue → stored.pollerType.isSome)
    (sameLocation : item.location = stored.location) (free : item.location ≠ .poller) :
    ∃ left location, leaveOldQueue env config itemid item stored.pollerType =
        some (left, item.moveTo location) ∧
      Changed config left itemid (item.moveTo location) ∧ location ≠ .poller ∧
      (location = .queue → item.pollerType.isSome) := by
  have isPlace : place config.items itemid = placeOf stored := by
    rw [place, found, bind_some]
  by_cases leaves : item.location = .queue ∧ stored.pollerType ≠ item.pollerType
  · have isQueued := sameLocation.symm.trans leaves.1
    obtain ⟨oldType, isOld⟩ := isSome_iff_exists.mp (queued isQueued)
    rw [placeOf, if_pos isQueued, isOld] at isPlace
    obtain ⟨queue, removed, isFiled⟩ := filed_remove
      (queueCompare env oldType (config.items.insert itemid (item.moveTo .nowhere)))
      filed isPlace
    rw [leaveOldQueue, if_pos leaves, isOld, bind_some]
    change ∃ left location, (Option.map _ (zbxBinaryHeapRemoveDirect (queueCompare env oldType
      (config.items.insert itemid (item.moveTo .nowhere))) (config.queues oldType)
        itemid)) = _ ∧ _
    rw [removed]
    exact ⟨_, .nowhere, rfl, changed_setQueue isFiled, nofun, nofun⟩
  · rw [leaveOldQueue, if_neg leaves]
    refine ⟨_, item.location, rfl, changed_setItem filed ?_, free, ?_⟩
    · rw [isPlace, placeOf, placeOf, ← sameLocation]
      split_ifs with isQueued
      · exact not_not.mp fun different => leaves ⟨isQueued, different⟩
      · rfl
    · intro isQueued
      have same := not_not.mp fun different => leaves ⟨isQueued, different⟩
      exact same ▸ queued (sameLocation ▸ isQueued)

variable (env) in
theorem enterQueue_spec (filed : Filed config.queues (place config.items))
    (found : config.items.lookup itemid = some item) (free : item.location ≠ .poller)
    (queued : item.location = .queue → item.pollerType.isSome) (oldNextcheck : Int) :
    ∃ after location, enterQueue env config itemid item oldNextcheck = some after ∧
      Changed config after itemid (item.moveTo location) ∧ location ≠ .poller ∧
      (location = .queue ↔ item.pollerType.isSome) := by
  have isPlace : place config.items itemid = placeOf item := by
    rw [place, found, bind_some]
  have unchanged : Changed config config itemid item := changed_refl filed found
  unfold enterQueue
  cases isType : item.pollerType with
  | none =>
    refine ⟨config, item.location, rfl, unchanged, free, ?_⟩
    rw [isType] at queued
    exact ⟨queued, nofun⟩
  | some pollerType =>
    dsimp only
    split_ifs with stays isOutside
    · exact ⟨config, item.location, rfl, unchanged, free, by simp [stays.1]⟩
    · rw [placeOf, if_neg isOutside] at isPlace
      obtain ⟨queue, inserted, isFiled⟩ := filed_insert
        (queueCompare env pollerType (config.items.insert itemid (item.moveTo .queue)))
        filed pollerType (show place config.items (⟨itemid, ()⟩ : Elem Unit).key = _ from isPlace)
      change ∃ after location, (Option.map _ (zbxBinaryHeapInsert (queueCompare env pollerType
        (config.items.insert itemid (item.moveTo .queue)))
          (config.queues pollerType) ⟨itemid, ()⟩)) = _ ∧ _
      rw [inserted]
      refine ⟨_, .queue, rfl, changed_setQueue ?_, nofun, by simp⟩
      rw [placeOf, if_pos (show (item.moveTo .queue).location = .queue from rfl)]
      rw [show (item.moveTo .queue).pollerType = some pollerType from isType]
      exact isFiled
    · have isQueued := not_not.mp isOutside
      rw [placeOf, if_pos isQueued, isType] at isPlace
      obtain ⟨queue, updated, isFiled⟩ := filed_update
        (queueCompare env pollerType config.items) filed (show place config.items (⟨itemid, ()⟩ : Elem Unit).key = _ from isPlace)
      rw [updated]
      have isChanged : Changed config (config.setQueue pollerType queue) itemid item :=
        ⟨hostsKept_refl _, unchanged.items, isFiled⟩
      exact ⟨_, item.location, rfl, isChanged, free, by simp [isQueued]⟩

variable (env) in
theorem dcUpdateItemQueue_spec (filed : Filed config.queues (place config.items))
    (found : config.items.lookup itemid = some stored)
    (queued : stored.location = .queue → stored.pollerType.isSome)
    (sameLocation : item.location = stored.location) (oldNextcheck : Int) :
    ∃ after location,
      dcUpdateItemQueue env config itemid item stored.pollerType oldNextcheck = some after ∧
      Changed config after itemid (item.moveTo location) ∧
      (location = .poller ↔ item.location = .poller) ∧
      (location ≠ .poller → (location = .queue ↔ item.pollerType.isSome)) := by
  unfold dcUpdateItemQueue
  by_cases taken : item.location = .poller
  · rw [if_pos taken]
    refine ⟨_, item.location, rfl, changed_setItem filed ?_, Iff.rfl, fun free => absurd taken free⟩
    rw [place, found, bind_some, placeOf, placeOf, ← sameLocation, taken, if_neg (by decide),
      if_neg (by decide)]
  · rw [if_neg taken]
    obtain ⟨left, between, isLeft, isChanged, free, isQueued⟩ :=
      leaveOldQueue_spec env filed found queued sameLocation taken
    obtain ⟨after, location, entered, isEntered, isFree, exactly⟩ :=
      enterQueue_spec env isChanged.filed isChanged.found free isQueued oldNextcheck
    rw [isLeft, bind_some, entered]
    refine ⟨after, location, rfl, changed_trans isChanged isEntered, ?_, fun _ => exactly⟩
    exact ⟨fun isTaken => absurd isTaken isFree, fun isTaken => absurd isTaken taken⟩

/-! ## Putting an item back -/

/-- An item has gone through the queue update: it is where it belongs. -/
def Returned (env : Environment Custom) (config after : DcConfig) (itemid : ItemId)
    (location : Location) : Prop :=
  ∃ item, Changed config after itemid item ∧ ItemValid env after.hosts item ∧ Settled item ∧
    (item.location = .poller ↔ location = .poller)

variable (env) in
theorem dcItemNextcheckUpdate_fields (itemid : ItemId) (item : ZbxDcItem) (host : ZbxDcHost)
    (newState : ItemState) (flags : UpdateFlags) (now : Int) :
    ∃ nextcheck schedulable,
      dcItemNextcheckUpdate env itemid item host newState flags now =
        { item with nextcheck, schedulable } := by
  unfold dcItemNextcheckUpdate
  cases env.zbxIntervalPreproc item.delay with
  | none =>
    dsimp only
    split_ifs
    · exact ⟨_, _, rfl⟩
    · exact ⟨_, _, rfl⟩
    · exact ⟨_, _, rfl⟩
  | some interval =>
    dsimp only
    split_ifs
    · exact ⟨_, _, rfl⟩
    · exact ⟨_, _, rfl⟩
    · exact ⟨_, _, rfl⟩
    · exact ⟨_, _, rfl⟩
    · exact ⟨_, _, rfl⟩

theorem isSome_of_isMovable {pollerType : Option PollerType} (movable : isMovable pollerType = true) :
    pollerType.isSome := by
  cases pollerType with
  | none => cases movable
  | some _ => rfl

variable (env) in
theorem dcItemPollerTypeUpdate_fields (item : ZbxDcItem) (host : ZbxDcHost)
    (flags : UpdateFlags) :
    ∃ pollerType,
      dcItemPollerTypeUpdate env item host flags = { item with pollerType } ∧
        (pollerType.isSome → (pollerByItem env item.type item.key).isSome) := by
  unfold dcItemPollerTypeUpdate
  dsimp only
  split_ifs with isProxied isUnreachable isMoved isCollected isOther
  · exact ⟨none, rfl, nofun⟩
  · exact ⟨some .unreachable, rfl, fun _ => isSome_of_isMovable isMoved⟩
  · exact ⟨_, rfl, id⟩
  · exact ⟨_, rfl, id⟩
  · exact ⟨_, rfl, id⟩
  · push Not at isOther
    exact ⟨item.pollerType, rfl, fun _ => isSome_of_isMovable isOther.2⟩

theorem updateItem_returned (stored : ZbxDcItem) (oldNextcheck : Int)
    (filed : Filed config.queues (place config.items))
    (found : config.items.lookup itemid = some stored)
    (valid : ItemValid env config.hosts stored) (active : item.status = stored.status)
    (sameHost : item.hostid = stored.hostid) (sameLocation : item.location = stored.location)
    (polled : item.pollerType.isSome → (pollerByItem env item.type item.key).isSome) :
    ∃ after, dcUpdateItemQueue env config itemid item stored.pollerType oldNextcheck = some after ∧
      Returned env config after itemid stored.location := by
  obtain ⟨after, location, updated, changed, taken, queued⟩ := dcUpdateItemQueue_spec
    env filed found valid.queued sameLocation oldNextcheck
  refine ⟨after, updated, _, changed, itemValid_kept changed.hosts ?_, ?_, ?_⟩
  · refine ⟨active.trans valid.active, ?_, polled, ?_⟩
    · change ∃ host, config.hosts.lookup item.hostid = some host ∧ _
      rw [sameHost]
      exact valid.monitored
    · intro (isQueued : location = .queue)
      exact (queued (by rw [isQueued]; exact nofun)).mp isQueued
  · intro (isNowhere : location = .nowhere)
    have exactly := queued (by rw [isNowhere]; exact nofun)
    rw [isNowhere] at exactly
    change item.pollerType = none
    rw [← not_isSome_iff_eq_none]
    exact fun isSome => nomatch exactly.mpr isSome
  · rw [← sameLocation]
    exact taken

variable (filed : Filed config.queues (place config.items))

include filed

variable (found : config.items.lookup itemid = some stored)

include found

variable (valid : ItemValid env config.hosts stored)

include valid

theorem dcRequeueItem_returned (queuePriority : QueuePriority)
    (host : ZbxDcHost) (newState : ItemState) (flags : UpdateFlags) (lastclock : Int) :
    ∃ after, dcRequeueItem env config itemid { stored with queuePriority } host newState flags
        lastclock = some after ∧ Returned env config after itemid stored.location := by
  obtain ⟨nextcheck, schedulable, isUpdated⟩ := dcItemNextcheckUpdate_fields env itemid
    { stored with queuePriority } host newState flags lastclock
  unfold dcRequeueItem
  dsimp only
  rw [isUpdated]
  obtain ⟨pollerType, isTyped, polled⟩ := dcItemPollerTypeUpdate_fields env
    { stored with queuePriority, nextcheck, schedulable } host flags
  rw [isTyped]
  exact updateItem_returned stored _ filed found valid rfl rfl rfl polled

theorem dcRequeueItemAt_returned (host : ZbxDcHost) (nextcheck : Int) :
    ∃ after, dcRequeueItemAt env config itemid stored host nextcheck = some after ∧
      Returned env config after itemid stored.location := by
  obtain ⟨pollerType, isTyped, polled⟩ := dcItemPollerTypeUpdate_fields env
    { stored with queuePriority := .high, nextcheck } host collected
  unfold dcRequeueItemAt
  dsimp only
  rw [isTyped]
  exact updateItem_returned stored _ filed found valid rfl rfl rfl polled

theorem dcSyncItem_returned (host : ZbxDcHost) (flags : UpdateFlags)
    (now : Int) :
    ∃ after, dcSyncItem env config itemid stored host flags now = some after ∧
      Returned env config after itemid stored.location := by
  obtain ⟨pollerType, isTyped, polled⟩ := dcItemPollerTypeUpdate_fields env
    stored host flags
  unfold dcSyncItem
  dsimp only
  rw [isTyped]
  split_ifs
  · obtain ⟨nextcheck, schedulable, isUpdated⟩ := dcItemNextcheckUpdate_fields env
      itemid { stored with pollerType } host stored.state flags now
    rw [isUpdated]
    exact updateItem_returned stored _ filed found valid rfl rfl rfl polled
  · exact updateItem_returned stored _ filed found valid rfl rfl rfl polled

omit valid found filed

theorem returned_of_changed {first : ZbxDcItem} {location : Location}
    (changed : Changed config middle itemid first)
    (returned : Returned env middle after itemid location) :
    Returned env config after itemid location := by
  obtain ⟨item, isChanged, rest⟩ := returned
  exact ⟨item, changed_trans changed isChanged, rest⟩

/-! ## Items and their holders -/

/-- The queues, the items and the lists of the processes agree. -/
structure Accounted (env : Environment Custom) (config : DcConfig)
    (held : Nat → List ItemId) : Prop where
  filed : Filed config.queues (place config.items)
  exclusive : Exclusive held (IsTaken config.items)
  valid : ∀ itemid item, config.items.lookup itemid = some item →
    ItemValid env config.hosts item ∧ Settled item

variable {held held' : Nat → List ItemId} {location : Location} {process : Nat}

variable (accounted : Accounted env config held)

include accounted

theorem accounted_changed
    (changed : Changed config after itemid item) (valid : ItemValid env after.hosts item)
    (settled : Settled item) (exclusive : Exclusive held' (IsTaken after.items)) :
    Accounted env after held' where
  filed := changed.filed
  exclusive := exclusive
  valid other otherItem found := by
    rw [changed.items] at found
    split_ifs at found
    · rw [some.injEq] at found
      exact found ▸ ⟨valid, settled⟩
    · obtain ⟨isValid, isSettled⟩ := accounted.valid other otherItem found
      exact ⟨itemValid_kept changed.hosts isValid, isSettled⟩

theorem accounted_keep (returned : Returned env config after itemid location)
    (same : location = .poller ↔ IsTaken config.items itemid) :
    Accounted env after held := by
  obtain ⟨item, changed, valid, settled, taken⟩ := returned
  apply accounted_changed accounted changed valid settled
  apply exclusive_congr accounted.exclusive
  intro other
  rw [isTaken_changed changed, taken, same]
  by_cases isOwn : other = itemid
  · simp [isOwn]
  · simp [isOwn]

theorem accounted_release
    (returned : Returned env config after itemid location) (free : location ≠ .poller)
    (own : itemid ∈ held process ∨ ¬IsTaken config.items itemid) :
    Accounted env after (release held process itemid) ∧
      ∀ other, IsTaken after.items other → IsTaken config.items other ∧ other ≠ itemid := by
  obtain ⟨item, changed, valid, settled, taken⟩ := returned
  have marked (other : ItemId) :
      IsTaken after.items other ↔ IsTaken config.items other ∧ other ≠ itemid := by
    rw [isTaken_changed changed, taken, and_comm (a := other ≠ itemid)]
    exact or_iff_right fun isOwn => free isOwn.2
  constructor
  · exact accounted_changed accounted changed valid settled
      (exclusive_erase accounted.exclusive own marked)
  · exact fun other => (marked other).mp

/-- An id without an item is not in any list. -/
theorem accounted_absent (absent : config.items.lookup itemid = none) :
    Accounted env config (release held process itemid) ∧
      ∀ other, IsTaken config.items other → IsTaken config.items other ∧ other ≠ itemid := by
  have untaken : ¬IsTaken config.items itemid := by
    rintro ⟨item, found, -⟩
    rw [absent] at found
    cases found
  have marked (other : ItemId) (isTaken : IsTaken config.items other) :
      IsTaken config.items other ∧ other ≠ itemid :=
    ⟨isTaken, fun same => untaken (same ▸ isTaken)⟩
  refine ⟨⟨accounted.filed, ?_, accounted.valid⟩, marked⟩
  exact exclusive_erase accounted.exclusive (Or.inr untaken)
    fun other => ⟨marked other, And.left⟩

omit accounted

/-! ## Returning items -/

/-- The part of a return that puts the item back, whatever host it has. -/
def PutsBack (env : Environment Custom) (itemid : ItemId)
    (requeue : DcConfig → ZbxDcItem → ZbxDcHost → Option DcConfig) : Prop :=
  ∀ config dcItem dcHost, Filed config.queues (place config.items) →
    config.items.lookup itemid = some dcItem → ItemValid env config.hosts dcItem →
      dcItem.location ≠ .poller →
        ∃ after, requeue config dcItem dcHost = some after ∧
          Returned env config after itemid dcItem.location

variable (accounted : Accounted env config held)

include accounted

theorem returnItem_spec {requeue : DcConfig → ZbxDcItem → ZbxDcHost → Option DcConfig}
    (putsBack : PutsBack env itemid requeue)
    (own : itemid ∈ held process ∨ ¬IsTaken config.items itemid) :
    ∃ after, returnItem config itemid requeue = some after ∧
      Accounted env after (release held process itemid) ∧
      ∀ other, IsTaken after.items other → IsTaken config.items other ∧ other ≠ itemid := by
  unfold returnItem
  cases found : config.items.lookup itemid with
  | none => exact ⟨config, rfl, accounted_absent accounted found⟩
  | some stored =>
    dsimp only
    have valid := (accounted.valid itemid stored found).1
    have isPlace : place config.items itemid = placeOf stored := by
      rw [place, found, bind_some]
    obtain ⟨loose, isLoose, free, samePlace, isValid⟩ :
        ∃ loose, (if stored.location = .poller then stored.moveTo .nowhere else stored) = loose ∧
          loose.location ≠ .poller ∧ place config.items itemid = placeOf loose ∧
          ItemValid env config.hosts loose := by
      rw [isPlace]
      split_ifs with isTaken
      · refine ⟨_, rfl, nofun, ?_, valid.active, valid.monitored, valid.polled, nofun⟩
        rw [placeOf, isTaken]
        rfl
      · exact ⟨_, rfl, isTaken, rfl, valid⟩
    rw [isLoose]
    have changed := changed_setItem accounted.filed samePlace
    obtain ⟨host, isHost, isMonitored⟩ := isValid.monitored
    obtain ⟨after, requeued, returned⟩ := putsBack (config.setItem itemid loose) loose host
      changed.filed changed.found isValid free
    have isFound : (config.setItem itemid loose).hosts.lookup loose.hostid = some host := isHost
    rw [if_neg (not_not.mpr isValid.active), isFound]
    dsimp only
    rw [if_neg (not_not.mpr isMonitored)]
    exact ⟨after, requeued,
      accounted_release accounted (returned_of_changed changed returned) free own⟩

theorem dcRequeueItems_spec (request : RequeueRequest)
    (time : Int) (answered : request.errcode ≠ .fail)
    (own : request.itemid ∈ held process ∨ ¬IsTaken config.items request.itemid) :
    ∃ after, dcRequeueItems env config request time = some after ∧
      Accounted env after (release held process request.itemid) ∧
      ∀ other, IsTaken after.items other →
        IsTaken config.items other ∧ other ≠ request.itemid := by
  rw [dcRequeueItems, if_neg answered]
  apply returnItem_spec accounted _ own
  intro config dcItem dcHost filed found valid free
  dsimp only
  split_ifs with isUncounted
  · -- an item that is not counted has no poller
    have unpolled : dcItem.pollerType = none := by
      rw [← not_isSome_iff_eq_none]
      intro isPolled
      have counted := counted_of_pollerByItem env (valid.polled isPolled)
      rw [isUncounted] at counted
      cases counted
    exact ⟨config, rfl, dcItem, changed_refl filed found, valid, fun _ => unpolled, Iff.rfl⟩
  · cases isCode : request.errcode with
    | fail => exact absurd isCode answered
    | succeed => exact dcRequeueItem_returned filed found valid _ _ _ _ _
    | notsupported => exact dcRequeueItem_returned filed found valid _ _ _ _ _
    | agentError => exact dcRequeueItem_returned filed found valid _ _ _ _ _
    | configError => exact dcRequeueItem_returned filed found valid _ _ _ _ _
    | sigError => exact dcRequeueItem_returned filed found valid _ _ _ _ _
    | networkError => exact dcRequeueItem_returned filed found valid _ _ _ _ _
    | gatewayError => exact dcRequeueItem_returned filed found valid _ _ _ _ _
    | timeoutError => exact dcRequeueItem_returned filed found valid _ _ _ _ _

theorem zbxDcRequeueUnreachableItems_spec (itemid : ItemId) (time : Int)
    (own : itemid ∈ held process ∨ ¬IsTaken config.items itemid) :
    ∃ after, zbxDcRequeueUnreachableItems env config itemid time = some after ∧
      Accounted env after (release held process itemid) ∧
      ∀ other, IsTaken after.items other → IsTaken config.items other ∧ other ≠ itemid := by
  apply returnItem_spec accounted _ own
  intro config dcItem dcHost filed found valid _
  exact dcRequeueItem_returned filed found valid dcItem.queuePriority dcHost _ _ _

/-- A check now moves an item between the queues, and leaves a taken item where it is. -/
theorem zbxDcRescheduleItems_spec (itemid : ItemId)
    (nextcheck : Int) :
    ∃ after, zbxDcRescheduleItems env config itemid nextcheck = some after ∧
      Accounted env after held := by
  unfold zbxDcRescheduleItems
  cases found : config.items.lookup itemid with
  | none => exact ⟨config, rfl, accounted⟩
  | some dcItem =>
    dsimp only
    obtain ⟨valid, -⟩ := accounted.valid itemid dcItem found
    obtain ⟨host, isHost, -⟩ := valid.monitored
    rw [isHost]
    dsimp only
    split_ifs
    · exact ⟨config, rfl, accounted⟩
    · obtain ⟨after, requeued, returned⟩ := dcRequeueItemAt_returned accounted.filed found
        valid host nextcheck
      refine ⟨after, requeued, accounted_keep accounted returned ?_⟩
      unfold IsTaken
      simp [found]
    · exact ⟨config, rfl, accounted⟩

omit accounted

/-! ## Taking items -/

/-- A decision to take an item does not change what is fixed about its host. -/
def KeepsHost (decide : ZbxDcItem → ZbxDcHost → Decision) : Prop :=
  ∀ dcItem dcHost dcHost', decide dcItem dcHost = .take dcHost' → dcHost'.status = dcHost.status

theorem dcIncreaseDisableUntil_status (item : ZbxDcItem) (host : ZbxDcHost) (now : Int) :
    (dcIncreaseDisableUntil env item host now).status = host.status := by
  unfold dcIncreaseDisableUntil
  dsimp only
  split <;> rfl

variable (env) in
theorem decidePollerItem_keepsHost (pollerType : PollerType) (now : Int) :
    KeepsHost fun dcItem dcHost => decidePollerItem env pollerType dcItem dcHost now := by
  intro dcItem dcHost dcHost' decided
  unfold decidePollerItem at decided
  dsimp only at decided
  split_ifs at decided
  · exact congrArg ZbxDcHost.status (Decision.take.inj decided).symm
  · exact congrArg ZbxDcHost.status (Decision.take.inj decided).symm
  · rw [← Decision.take.inj decided]
    exact dcIncreaseDisableUntil_status dcItem dcHost now

variable (env) in
theorem decideIpmiItem_keepsHost (now : Int) :
    KeepsHost fun dcItem dcHost => decideIpmiItem env dcItem dcHost now := by
  intro dcItem dcHost dcHost' decided
  unfold decideIpmiItem at decided
  dsimp only at decided
  split_ifs at decided
  · exact congrArg ZbxDcHost.status (Decision.take.inj decided).symm
  · exact congrArg ZbxDcHost.status (Decision.take.inj decided).symm
  · rw [← Decision.take.inj decided]
    exact dcIncreaseDisableUntil_status dcItem dcHost now

theorem nextItem_spec {pollerType : PollerType} {now maxItems : Int} {num : Nat}
    {dcItemPrev : Option ItemId} {dcItem : ZbxDcItem}
    (next : nextItem env config pollerType now maxItems num dcItemPrev = some (itemid, dcItem)) :
    ∃ minimum, zbxBinaryHeapFindMin (config.queues pollerType) = some minimum ∧
      minimum.key = itemid ∧ config.items.lookup itemid = some dcItem := by
  unfold nextItem at next
  split_ifs at next
  obtain ⟨found, isMin, isNext⟩ := bind_eq_some_iff.mp next
  split_ifs at isNext
  obtain rfl := some.inj isNext
  obtain ⟨minimum, isMinimum, isFound⟩ := bind_eq_some_iff.mp isMin
  obtain ⟨_, isItem, same⟩ := map_eq_some_iff.mp isFound
  obtain ⟨rfl, rfl⟩ := Prod.mk.inj same
  exact ⟨minimum, isMinimum, rfl, isItem⟩

theorem changed_take (filed : Filed config.queues (place config.items))
    (found : config.items.lookup itemid = some stored) (free : placeOf stored = none)
    {old new : ZbxDcHost} (isHost : config.hosts.lookup stored.hostid = some old)
    (same : new.status = old.status) :
    Changed config
      (DcConfig.setItem { config with hosts := config.hosts.insert stored.hostid new } itemid
        (stored.moveTo .poller)) itemid (stored.moveTo .poller) where
  hosts := hostsKept_insert isHost same
  items other := lookup_insert_eq config.items itemid other _
  filed := by
    apply filed_congr filed
    intro other
    rw [DcConfig.setItem, place_insert, Function.update_apply]
    by_cases isOwn : other = itemid
    · rw [if_pos isOwn, isOwn, place, found, bind_some, free]
      rfl
    · rw [if_neg isOwn]

theorem takeMin_spec (accounted : Accounted env config held) {pollerType : PollerType}
    {minimum : Elem Unit} {dcItem : ZbxDcItem}
    (isMin : zbxBinaryHeapFindMin (config.queues pollerType) = some minimum)
    (found : config.items.lookup minimum.key = some dcItem) (now : Int)
    {decide : ZbxDcItem → ZbxDcHost → Decision} (keepsHost : KeepsHost decide)
    (process : Nat) :
    ∃ after taken,
      takeMin env config pollerType minimum.key dcItem now decide = some (after, taken) ∧
        Accounted env after (if taken then acquire held process minimum.key else held) := by
  obtain ⟨isPlace, queue, removed, isFiled⟩ := filed_removeMin
    (queueCompare env pollerType config.items) accounted.filed isMin
  obtain ⟨valid, -⟩ := accounted.valid minimum.key dcItem found
  have untaken : ¬IsTaken config.items minimum.key := by
    rintro ⟨item, isItem, isTaken⟩
    rw [place, isItem, bind_some, placeOf, isTaken] at isPlace
    cases isPlace
  have loose : Changed config ((config.setQueue pollerType queue).setItem minimum.key
      (dcItem.moveTo .nowhere)) minimum.key (dcItem.moveTo .nowhere) :=
    changed_setQueue isFiled
  have looseValid : ItemValid env config.hosts (dcItem.moveTo .nowhere) :=
    ⟨valid.active, valid.monitored, valid.polled, nofun⟩
  obtain ⟨host, isHost, isMonitored⟩ := valid.monitored
  unfold takeMin
  rw [removed, bind_some]
  dsimp only
  have isFound : ((config.setQueue pollerType queue).setItem minimum.key
      (dcItem.moveTo .nowhere)).hosts.lookup (dcItem.moveTo .nowhere).hostid = some host := isHost
  rw [isFound]
  dsimp only
  rw [if_neg (not_not.mpr isMonitored)]
  cases decided : decide (dcItem.moveTo .nowhere) host with
  | requeue flags =>
    obtain ⟨after, requeued, returned⟩ := dcRequeueItem_returned loose.filed loose.found
      looseValid dcItem.queuePriority host dcItem.state flags now
    refine ⟨after, false, ?_, ?_⟩
    · exact congrArg (Option.map fun config => (config, false)) requeued
    · apply accounted_keep accounted (returned_of_changed loose returned)
      exact ⟨nofun, fun isTaken => absurd isTaken untaken⟩
  | take host' =>
    refine ⟨_, true, rfl, ?_⟩
    have taken := changed_take loose.filed loose.found rfl isFound
      (keepsHost _ _ _ decided)
    have changed := changed_trans loose taken
    rw [if_pos rfl]
    apply accounted_changed accounted changed (itemValid_kept changed.hosts
      ⟨valid.active, ⟨host, isHost, isMonitored⟩, valid.polled, nofun⟩) nofun
    apply exclusive_grant accounted.exclusive process (List.nodup_singleton _)
    · simpa using untaken
    · intro other
      rw [isTaken_changed changed, List.mem_singleton]
      by_cases isOwn : other = minimum.key
      · simp [isOwn, ZbxDcItem.moveTo]
      · simp [isOwn]

end Zabbix.ConfigCache.PollerExclusion
