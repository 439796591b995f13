import Zabbix.ConfigCache.PollerItems
import Zabbix.Library.Transition

/-!
# Processes that take and return items

Pollers and the IPMI manager take items from the queues and return them, any
process may ask for an immediate check, and the availability and the
maintenance of hosts change.  Each of these is a section under the write lock
of the configuration cache.  A section that loops over items is one step for
each iteration, and the lock is held in between.

`held` is what the processes have in their arrays of taken items.  A process
returns the items it has taken, as the functions that hand them out require;
an error code `FAIL` means that the item is not returned by this call.
-/

namespace Zabbix.ConfigCache.PollerQueues

open Algo.BinaryHeap Algo.DirectHeap Common.History HistoryCache.Queue Library Library.KeyedTable
open PollerItems

/-- The error codes of a check. -/
inductive ErrorCode where
  | succeed
  | fail
  | notsupported
  | networkError
  | timeoutError
  | agentError
  | gatewayError
  | configError
  | sigError
deriving DecidableEq, Repr

/-- One entry of the four arrays that `dc_requeue_items` is given. -/
structure RequeueRequest where
  itemid : ItemId
  newState : ItemState
  lastclock : Int
  errcode : ErrorCode
deriving DecidableEq, Repr

/-- A section under the write lock, with its local variables. -/
inductive CacheSection where
  /-- `DCconfig_get_poller_items`. -/
  | getPollerItems (pollerType : PollerType) (now maxItems : Int) (num : Nat)
      (dcItemPrev : Option ItemId)
  /-- `DCconfig_get_ipmi_poller_items`. -/
  | getIpmiPollerItems (now itemsNum : Int) (num : Nat)
  /-- `dc_requeue_items`, with the entries that are left. -/
  | requeueItems (requests : List RequeueRequest)
  /-- `zbx_dc_requeue_unreachable_items`, with the ids that are left. -/
  | requeueUnreachableItems (itemids : List ItemId)
  /-- `zbx_dc_reschedule_items`, with the ids that are left. -/
  | rescheduleItems (itemids : List ItemId) (nextcheck : Int)
deriving DecidableEq, Repr

structure State where
  config : DcConfig
  held : Nat → List ItemId := fun _ => []
  writer : Option (Nat × CacheSection) := none

/-- What happens next. -/
inductive Label where
  | getPollerItems (process : Nat) (pollerType : PollerType) (now : Int)
  | getIpmiPollerItems (process : Nat) (now itemsNum : Int)
  | requeueItems (process : Nat) (requests : List RequeueRequest)
  | requeueUnreachableItems (process : Nat) (itemids : List ItemId)
  | rescheduleItems (process : Nat) (itemids : List ItemId) (nextcheck : Int)
  /--
  The next iteration of the section that has the lock, or its end; `time` is
  the current time and `suggested` the number of SNMP variables that
  `DCconfig_get_suggested_snmp_vars_nolock` returns.
  -/
  | iterate (time suggested : Int)
  /-- The availability or the maintenance of a host is changed. -/
  | updateHost (hostid : HostId) (host : ZbxDcHost)
deriving DecidableEq, Repr

variable {Custom : Type} (env : Environment Custom)

/-! ## Taking items -/

/-- `MAX_JAVA_ITEMS`, `MAX_PINGER_ITEMS` and the default of `max_items`. -/
def maxItems : PollerType → Int
  | .java => 32
  | .pinger => 128
  | .normal | .unreachable | .ipmi => 1

/-- The item with the least next check of a queue. -/
def queueMin (config : DcConfig) (pollerType : PollerType) : Option (ItemId × ZbxDcItem) :=
  (zbxBinaryHeapFindMin (config.queues pollerType)).bind fun elem =>
    (config.items.lookup elem.key).map fun dcItem => (elem.key, dcItem)

/-- A batch has items of one kind: an item that differs from the last one ends it. -/
def differsFromPrev (items : Items) (dcItemPrev : Option ItemId) (itemid : ItemId)
    (dcItem : ZbxDcItem) : Bool :=
  match dcItemPrev.bind fun prevId => (items.lookup prevId).map fun prev => (prevId, prev) with
  | none => false
  | some (prevId, prev) =>
    match prev.type with
    | .snmp => configSnmpItemCompare env prevId itemid prev dcItem != 0
    | .jmx => configJavaItemCompare env prevId itemid prev dcItem != 0
    | _ => false

/-- What an iteration does with an item that has left its queue. -/
inductive Decision where
  /-- Put it back, with these flags. -/
  | requeue (flags : UpdateFlags)
  /-- Take it; the host may have its `disable_until` increased. -/
  | take (dcHost : ZbxDcHost)
deriving DecidableEq, Repr

/-- The checks of `DCconfig_get_poller_items` on a host that is monitored. -/
def decidePollerItem (pollerType : PollerType) (dcItem : ZbxDcItem) (dcHost : ZbxDcHost)
    (now : Int) : Decision :=
  if dcInMaintenanceWithoutDataCollection dcHost dcItem then
    .requeue collected
  else if dcItem.queuePriority = .high then
    -- unreachable hosts do not hold back prioritized items
    .take dcHost
  else
    let disableUntil := dcGetDisableUntil dcItem dcHost
    if disableUntil = 0 then
      if pollerType = .unreachable ∧ dcItem.queuePriority ≠ .low then
        .requeue collected
      else
        .take dcHost
    else if pollerType = .normal ∨ pollerType = .java ∨ now < disableUntil then
      .requeue collectedUnreachable
    else
      .take (dcIncreaseDisableUntil env dcItem dcHost now)

/-- The checks of `DCconfig_get_ipmi_poller_items` on a host that is monitored. -/
def decideIpmiItem (dcItem : ZbxDcItem) (dcHost : ZbxDcHost) (now : Int) : Decision :=
  if dcInMaintenanceWithoutDataCollection dcHost dcItem then
    .requeue collected
  else if dcItem.queuePriority = .high then
    .take dcHost
  else
    let disableUntil := dcGetDisableUntil dcItem dcHost
    if disableUntil = 0 then
      .take dcHost
    else if now < disableUntil then
      .requeue collectedUnreachable
    else
      .take (dcIncreaseDisableUntil env dcItem dcHost now)

/--
The item with the least next check leaves its queue, and is dropped, put back
or taken: the configuration, and whether the item was taken.
-/
def takeMin (config : DcConfig) (pollerType : PollerType) (itemid : ItemId)
    (dcItem : ZbxDcItem) (now : Int) (decide : ZbxDcItem → ZbxDcHost → Decision) :
    Option (DcConfig × Bool) :=
  (zbxBinaryHeapRemoveMin (queueCompare env pollerType config.items)
      (config.queues pollerType)).bind fun queue =>
    let dcItem := dcItem.moveTo .nowhere
    let config := (config.setQueue pollerType queue).setItem itemid dcItem
    match config.hosts.lookup dcItem.hostid with
    | none => some (config, false)
    | some dcHost =>
      if dcHost.status ≠ .monitored then
        some (config, false)
      else
        match decide dcItem dcHost with
        | .requeue flags =>
          (dcRequeueItem env config itemid dcItem dcHost dcItem.state flags now).map
            fun config => (config, false)
        | .take dcHost =>
          let config := { config with hosts := config.hosts.insert dcItem.hostid dcHost }
          some (config.setItem itemid (dcItem.moveTo .poller), true)

/-- The number of items to take, which the first item of a batch may change. -/
def batchSize (pollerType : PollerType) (itemid : ItemId) (dcItem : ZbxDcItem) (num : Nat)
    (maxItems suggested : Int) : Int :=
  if num = 0 ∧ pollerType = .normal ∧ dcItem.type = .snmp ∧
      flagDiscoveryRule dcItem.flags = 0 ∧
      ((env.snmpitems.lookup itemid).getD 0 = 0 ∨ (env.snmpitems.lookup itemid).getD 0 = 1) then
    suggested
  else
    maxItems

/-! ## Returning items -/

/-- What is common to the loops that return items: the item and its host, if it is to be requeued. -/
def returnItem (config : DcConfig) (itemid : ItemId)
    (requeue : DcConfig → ZbxDcItem → ZbxDcHost → Option DcConfig) : Option DcConfig :=
  match config.items.lookup itemid with
  | none => some config
  | some dcItem =>
    let dcItem :=
      if dcItem.location = .poller then dcItem.moveTo .nowhere else dcItem
    let config := config.setItem itemid dcItem
    if dcItem.status ≠ .active then
      some config
    else
      match config.hosts.lookup dcItem.hostid with
      | none => some config
      | some dcHost =>
        if dcHost.status ≠ .monitored then some config else requeue config dcItem dcHost

/-- One iteration of `dc_requeue_items`. -/
def dcRequeueItems (config : DcConfig) (request : RequeueRequest) (time : Int) :
    Option DcConfig :=
  if request.errcode = .fail then
    some config
  else
    returnItem config request.itemid fun config dcItem dcHost =>
      if zbxIsCountedInItemQueue dcItem.type dcItem.key = false then
        some config
      else
        match request.errcode with
        | .fail => some config
        | .succeed | .notsupported | .agentError | .configError | .sigError =>
          dcRequeueItem env config request.itemid { dcItem with queuePriority := .normal }
            dcHost request.newState collected request.lastclock
        | .networkError | .gatewayError | .timeoutError =>
          dcRequeueItem env config request.itemid { dcItem with queuePriority := .low }
            dcHost request.newState collectedUnreachable time

/-- One iteration of `zbx_dc_requeue_unreachable_items`. -/
def zbxDcRequeueUnreachableItems (config : DcConfig) (itemid : ItemId) (time : Int) :
    Option DcConfig :=
  returnItem config itemid fun config dcItem dcHost =>
    dcRequeueItem env config itemid dcItem dcHost dcItem.state collectedUnreachable time

/-- One iteration of `zbx_dc_reschedule_items`. -/
def zbxDcRescheduleItems (config : DcConfig) (itemid : ItemId) (nextcheck : Int) :
    Option DcConfig :=
  match config.items.lookup itemid with
  | none => some config
  | some dcItem =>
    match config.hosts.lookup dcItem.hostid with
    | none => some config
    | some dcHost =>
      if dcItem.schedulable = false then
        some config
      else if dcHost.proxyHostid = 0 ∨ isItemProcessedByServer env dcItem.type dcItem.key then
        dcRequeueItemAt env config itemid dcItem dcHost nextcheck
      else
        some config

/-! ## Steps -/

def release (held : Nat → List ItemId) (process : Nat) (itemid : ItemId) : Nat → List ItemId :=
  Function.update held process ((held process).erase itemid)

def acquire (held : Nat → List ItemId) (process : Nat) (itemid : ItemId) : Nat → List ItemId :=
  Function.update held process (held process ++ [itemid])

/-- The lock is released. -/
def leave (state : State) : State :=
  { state with writer := none }

/-- The item that a loop takes next, unless the loop ends. -/
def nextItem (config : DcConfig) (pollerType : PollerType) (now maxItems : Int) (num : Nat)
    (dcItemPrev : Option ItemId) : Option (ItemId × ZbxDcItem) :=
  if maxItems ≤ num then
    none
  else
    (queueMin config pollerType).bind fun found =>
      if now < found.2.nextcheck ∨ differsFromPrev env config.items dcItemPrev found.1 found.2 then
        none
      else
        some found

/-- One iteration of the section that has the lock, or its end. -/
def iterate (state : State) (process : Nat) (time suggested : Int) :
    CacheSection → Option State
  | .getPollerItems pollerType now maxItems num dcItemPrev =>
    match nextItem env state.config pollerType now maxItems num dcItemPrev with
    | none => some (leave state)
    | some (itemid, dcItem) =>
      (takeMin env state.config pollerType itemid dcItem now fun dcItem dcHost =>
          decidePollerItem env pollerType dcItem dcHost now).map fun result =>
        if result.2 then
          { config := result.1
            held := acquire state.held process itemid
            writer := some (process, .getPollerItems pollerType now
              (batchSize env pollerType itemid dcItem num maxItems suggested) (num + 1)
              (some itemid)) }
        else
          { state with config := result.1 }
  | .getIpmiPollerItems now itemsNum num =>
    match nextItem env state.config .ipmi now itemsNum num none with
    | none => some (leave state)
    | some (itemid, dcItem) =>
      (takeMin env state.config .ipmi itemid dcItem now fun dcItem dcHost =>
          decideIpmiItem env dcItem dcHost now).map fun result =>
        if result.2 then
          { config := result.1
            held := acquire state.held process itemid
            writer := some (process, .getIpmiPollerItems now itemsNum (num + 1)) }
        else
          { state with config := result.1 }
  | .requeueItems [] => some (leave state)
  | .requeueItems (request :: rest) =>
    (dcRequeueItems env state.config request time).map fun config =>
      { config
        held :=
          if request.errcode = .fail then state.held
          else release state.held process request.itemid
        writer := some (process, .requeueItems rest) }
  | .requeueUnreachableItems [] => some (leave state)
  | .requeueUnreachableItems (itemid :: rest) =>
    (zbxDcRequeueUnreachableItems env state.config itemid time).map fun config =>
      { config
        held := release state.held process itemid
        writer := some (process, .requeueUnreachableItems rest) }
  | .rescheduleItems [] _ => some (leave state)
  | .rescheduleItems (itemid :: rest) nextcheck =>
    (zbxDcRescheduleItems env state.config itemid nextcheck).map fun config =>
      { state with
        config
        writer := some (process, .rescheduleItems rest nextcheck) }

/-- A process enters a section: the lock is free, and the section is one it may run. -/
def enter (state : State) (process : Nat) (allowed : Prop) [Decidable allowed]
    (cacheSection : CacheSection) : Option State :=
  if state.writer = none ∧ allowed then
    some { state with writer := some (process, cacheSection) }
  else
    none

/-- A step; `none` if a process has to wait for the lock. -/
def step (state : State) : Label → Option State
  | .getPollerItems process pollerType now =>
    enter state process True (.getPollerItems pollerType now (maxItems pollerType) 0 none)
  | .getIpmiPollerItems process now itemsNum =>
    enter state process True (.getIpmiPollerItems now itemsNum 0)
  | .requeueItems process requests =>
    enter state process
      (∀ request ∈ requests, request.errcode = .fail ∨ request.itemid ∈ state.held process)
      (.requeueItems requests)
  | .requeueUnreachableItems process itemids =>
    enter state process (∀ itemid ∈ itemids, itemid ∈ state.held process)
      (.requeueUnreachableItems itemids)
  | .rescheduleItems process itemids nextcheck =>
    enter state process True (.rescheduleItems itemids nextcheck)
  | .iterate time suggested =>
    state.writer.bind fun writer => iterate env state writer.1 time suggested writer.2
  | .updateHost hostid host =>
    match state.writer, state.config.hosts.lookup hostid with
    | none, some old =>
      -- what is fixed is that the host is monitored, and by whom
      if host.status = old.status ∧ host.proxyHostid = old.proxyHostid then
        some { state with
          config := { state.config with hosts := state.config.hosts.insert hostid host } }
      else
        none
    | _, _ => none

/-! ## The initial state -/

/-- New, active items of monitored hosts, and the arguments of their first synchronization. -/
structure Configuration where
  items : Items
  hosts : Table HostId ZbxDcHost
  flags : ItemId → UpdateFlags
  now : Int
  fresh : ∀ itemid item, items.lookup itemid = some item →
    item.location = .nowhere ∧ item.pollerType = none
  enabled : ∀ itemid item, items.lookup itemid = some item →
    item.status = .active ∧
      ∃ host, hosts.lookup item.hostid = some host ∧ host.status = .monitored

/-- The loop of `DCsync_items` over the new items. -/
def syncItems (flags : ItemId → UpdateFlags) (now : Int) : List ItemId → DcConfig → Option DcConfig
  | [], config => some config
  | itemid :: rest, config =>
    match config.items.lookup itemid with
    | none => syncItems flags now rest config
    | some item =>
      match config.hosts.lookup item.hostid with
      | none => syncItems flags now rest config
      | some host =>
        (dcSyncItem env config itemid item host (flags itemid) now).bind fun config =>
          syncItems flags now rest config

/-- The items have been synchronized into empty queues, and no process has any. -/
def initial (configuration : Configuration) : Option State :=
  (syncItems env configuration.flags configuration.now configuration.items.keys
      { items := configuration.items
        hosts := configuration.hosts
        queues := fun _ => { direct := true } }).map fun config => { config }

end Zabbix.ConfigCache.PollerQueues
