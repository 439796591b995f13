import Zabbix.Algo.DirectHeap
import Zabbix.HistoryCache.Queue

/-!
# Polled items of the configuration cache

An item is polled through the queue of its poller type.  This module has the
items, their hosts and the five queues, and the functions of `dbconfig.c` that
choose the poller type and the next check of an item and move it between the
queues.

What these functions read and never change is in `Environment`.  The
schedule of an item is computed by functions that this module takes as they
are: nothing here depends on the times they return.  A pointer to an item is
its id.
-/

namespace Zabbix.ConfigCache.PollerItems

open Algo.BinaryHeap Algo.DirectHeap Common.History HistoryCache.Queue Library.KeyedTable

abbrev HostId := Nat

abbrev InterfaceId := Nat

/-- The `ITEM_TYPE_` constants. -/
inductive ItemType where
  | zabbix
  | trapper
  | simple
  | internal
  | zabbixActive
  | aggregate
  | httptest
  | external
  | dbMonitor
  | ipmi
  | ssh
  | telnet
  | calculated
  | jmx
  | snmptrap
  | dependent
  | httpagent
  | snmp
deriving DecidableEq, Repr

def ItemType.code : ItemType → Int
  | .zabbix => 0
  | .trapper => 2
  | .simple => 3
  | .internal => 5
  | .zabbixActive => 7
  | .aggregate => 8
  | .httptest => 9
  | .external => 10
  | .dbMonitor => 11
  | .ipmi => 12
  | .ssh => 13
  | .telnet => 14
  | .calculated => 15
  | .jmx => 16
  | .snmptrap => 17
  | .dependent => 18
  | .httpagent => 19
  | .snmp => 20

/-- The `ZBX_POLLER_TYPE_` constants; `ZBX_NO_POLLER` is `none` of the option type. -/
inductive PollerType where
  | normal
  | unreachable
  | ipmi
  | pinger
  | java
deriving DecidableEq, Repr

/-- `ZBX_LOC_NOWHERE`, `ZBX_LOC_QUEUE` and `ZBX_LOC_POLLER`. -/
inductive Location where
  | nowhere
  | queue
  | poller
deriving DecidableEq, Repr

/-- The `ZBX_QUEUE_PRIORITY_` constants. -/
inductive QueuePriority where
  | high
  | normal
  | low
deriving DecidableEq, Repr

def QueuePriority.code : QueuePriority → Int
  | .high => 0
  | .normal => 1
  | .low => 2

/-- `ITEM_STATUS_ACTIVE` and `ITEM_STATUS_DISABLED`. -/
inductive ItemStatus where
  | active
  | disabled
deriving DecidableEq, Repr

/-- `HOST_STATUS_MONITORED`, and the other values of a host status. -/
inductive HostStatus where
  | monitored
  | other (code : Nat)
deriving DecidableEq, Repr

/-- `MAINTENANCE_TYPE_NORMAL` and `MAINTENANCE_TYPE_NODATA`. -/
inductive MaintenanceType where
  | normal
  | nodata
deriving DecidableEq, Repr

/-- `ZBX_DC_ITEM`, as far as polling needs it. -/
structure ZbxDcItem where
  hostid : HostId
  interfaceid : InterfaceId
  type : ItemType
  key : String
  delay : String
  flags : Nat := 0
  status : ItemStatus := .active
  state : ItemState := .normal
  nextcheck : Int := 0
  location : Location := .nowhere
  pollerType : Option PollerType := none
  queuePriority : QueuePriority := .normal
  schedulable : Bool := true
deriving DecidableEq, Repr

def ZbxDcItem.moveTo (item : ZbxDcItem) (location : Location) : ZbxDcItem :=
  { item with location }

/-- Since when a kind of interface fails, and until when it is not asked again. -/
structure Availability where
  errorsFrom : Int := 0
  disableUntil : Int := 0
deriving DecidableEq, Repr

/--
`ZBX_DC_HOST`, as far as polling needs it; `zabbix` has `errors_from` and
`disable_until`, and the other three have the fields of their interface.
-/
structure ZbxDcHost where
  proxyHostid : HostId := 0
  status : HostStatus := .monitored
  maintenanceStatus : Bool := false
  maintenanceType : MaintenanceType := .normal
  zabbix : Availability := {}
  snmp : Availability := {}
  ipmi : Availability := {}
  jmx : Availability := {}
deriving DecidableEq, Repr

/-- `ZBX_DC_JMXITEM`: interned strings are compared by address. -/
structure ZbxDcJmxItem where
  username : Nat
  password : Nat
  jmxEndpoint : Nat
deriving DecidableEq, Repr

abbrev Items := Table ItemId ZbxDcItem

/-- What is read and never changed; `Custom` is the type of custom intervals. -/
structure Environment (Custom : Type) where
  configPollerForks : Nat
  configIpmipollerForks : Nat
  configPingerForks : Nat
  configJavapollerForks : Nat
  configTimeout : Int
  /-- `config->config->refresh_unsupported`. -/
  refreshUnsupported : Int
  /-- The `bulk` flags of `config->interfaces_snmp`. -/
  interfacesSnmp : Table InterfaceId Bool
  /-- The `snmp_oid_type` values of `config->snmpitems`. -/
  snmpitems : Table ItemId Int
  jmxitems : Table ItemId ZbxDcJmxItem
  /-- The parameters that `parse_item_key` finds in a key. -/
  parseItemKey : String → Option (List String)
  zbxIntervalPreproc : String → Option (Int × Custom)
  calculateItemNextcheck : Nat → ItemType → Int → Option Custom → Int → Int
  calculateItemNextcheckUnreachable : Int → Custom → Int → Int

/-- The part of the configuration cache that polling changes. -/
structure DcConfig where
  items : Items
  hosts : Table HostId ZbxDcHost
  queues : PollerType → Heap Unit

def DcConfig.setItem (config : DcConfig) (itemid : ItemId) (item : ZbxDcItem) : DcConfig :=
  { config with items := config.items.insert itemid item }

def DcConfig.setQueue (config : DcConfig) (pollerType : PollerType) (queue : Heap Unit) :
    DcConfig :=
  { config with queues := Function.update config.queues pollerType queue }

/-! ## Poller types -/

/-- `cmp_key_id`: two keys are the same up to their parameters. -/
def cmpKeyId (key1 key2 : String) : Bool :=
  key1.toList.takeWhile (· ≠ '[') == key2.toList.takeWhile (· ≠ '[')

/-- The three keys of simple checks that pingers process. -/
def isPingKey (key : String) : Bool :=
  cmpKeyId key "icmpping" || cmpKeyId key "icmppingsec" || cmpKeyId key "icmppingloss"

variable {Custom : Type} (env : Environment Custom)

def isItemProcessedByServer (type : ItemType) (key : String) : Bool :=
  match type with
  | .aggregate | .calculated => true
  | .internal =>
    "zabbix[".toList.isPrefixOf key.toList &&
      match env.parseItemKey key with
      | some [arg1, arg2, arg3] =>
        if arg1 = "host" then
          if arg2 = "" then
            arg3 == "maintenance" || arg3 == "items" || arg3 == "items_unsupported"
          else
            arg2 == "discovery" && arg3 == "interfaces"
        else
          arg1 == "proxy" && (arg3 == "lastaccess" || arg3 == "delay")
      | _ => false
  | _ => false

def pollerByItem (type : ItemType) (key : String) : Option PollerType :=
  let normal := if env.configPollerForks = 0 then none else some PollerType.normal
  match type with
  | .simple =>
    if isPingKey key then
      if env.configPingerForks = 0 then none else some .pinger
    else
      normal
  | .zabbix | .snmp | .internal | .aggregate | .external | .dbMonitor | .ssh | .telnet
  | .calculated | .httpagent => normal
  | .ipmi => if env.configIpmipollerForks = 0 then none else some .ipmi
  | .jmx => if env.configJavapollerForks = 0 then none else some .java
  | .trapper | .zabbixActive | .httptest | .snmptrap | .dependent => none

def zbxIsCountedInItemQueue (type : ItemType) (key : String) : Bool :=
  match type with
  | .zabbixActive =>
    !("log[".toList.isPrefixOf key.toList || "logrt[".toList.isPrefixOf key.toList ||
      "eventlog[".toList.isPrefixOf key.toList)
  | .trapper | .dependent | .httptest | .snmptrap => false
  | _ => true

theorem counted_of_pollerByItem {type : ItemType} {key : String}
    (polled : (pollerByItem env type key).isSome) :
    zbxIsCountedInItemQueue type key = true := by
  cases type with
  | trapper => cases polled
  | zabbixActive => cases polled
  | httptest => cases polled
  | snmptrap => cases polled
  | dependent => cases polled
  | _ => rfl

/-- The flags of `DCitem_nextcheck_update` and `DCitem_poller_type_update`. -/
structure UpdateFlags where
  itemCollected : Bool := false
  hostUnreachable : Bool := false
  itemKeyChanged : Bool := false
  itemTypeChanged : Bool := false
  itemDelayChanged : Bool := false
  refreshUnsupportedChanged : Bool := false
deriving DecidableEq, Repr

/-- `ZBX_ITEM_COLLECTED`. -/
def collected : UpdateFlags := { itemCollected := true }

/-- `ZBX_ITEM_COLLECTED | ZBX_HOST_UNREACHABLE`. -/
def collectedUnreachable : UpdateFlags := { itemCollected := true, hostUnreachable := true }

/-- Items of normal and java pollers move to unreachable pollers. -/
def isMovable (pollerType : Option PollerType) : Bool :=
  pollerType == some .normal || pollerType == some .java

def dcItemPollerTypeUpdate (dcItem : ZbxDcItem) (dcHost : ZbxDcHost) (flags : UpdateFlags) :
    ZbxDcItem :=
  if dcHost.proxyHostid ≠ 0 ∧ ¬isItemProcessedByServer env dcItem.type dcItem.key then
    { dcItem with pollerType := none }
  else
    let pollerType := pollerByItem env dcItem.type dcItem.key
    if flags.hostUnreachable then
      { dcItem with pollerType := if isMovable pollerType then some .unreachable else pollerType }
    else if flags.itemCollected then
      { dcItem with pollerType }
    else if dcItem.pollerType ≠ some .unreachable ∨ ¬isMovable pollerType then
      { dcItem with pollerType }
    else
      dcItem

/-! ## The next check -/

def getItemNextcheckSeed (itemid : ItemId) (item : ZbxDcItem) : Nat :=
  match item.type with
  | .jmx => item.interfaceid
  | .snmp =>
    if env.interfacesSnmp.lookup item.interfaceid = some true then item.interfaceid else itemid
  | .simple => if isPingKey item.key then item.interfaceid else itemid
  | _ => itemid

/-- The availability of the interface that an item uses, for the types that have one. -/
def ZbxDcHost.availability (host : ZbxDcHost) : ItemType → Option Availability
  | .zabbix => some host.zabbix
  | .snmp => some host.snmp
  | .ipmi => some host.ipmi
  | .jmx => some host.jmx
  | _ => none

def dcGetDisableUntil (item : ZbxDcItem) (host : ZbxDcHost) : Int :=
  match host.availability item.type with
  | some availability => if availability.errorsFrom ≠ 0 then availability.disableUntil else 0
  | none => 0

/-- One of the four branches of `DCincrease_disable_until`. -/
def Availability.increase (availability : Availability) (disableUntil : Int) : Availability :=
  if availability.errorsFrom ≠ 0 then { availability with disableUntil } else availability

def dcIncreaseDisableUntil (item : ZbxDcItem) (host : ZbxDcHost) (now : Int) : ZbxDcHost :=
  let disableUntil := now + env.configTimeout
  match item.type with
  | .zabbix => { host with zabbix := host.zabbix.increase disableUntil }
  | .snmp => { host with snmp := host.snmp.increase disableUntil }
  | .ipmi => { host with ipmi := host.ipmi.increase disableUntil }
  | .jmx => { host with jmx := host.jmx.increase disableUntil }
  | _ => host

def zbxJan2038 : Int := 2145916800

/-- The condition under which `DCitem_nextcheck_update` keeps the next check. -/
def keepsNextcheck (item : ZbxDcItem) (newState : ItemState) (flags : UpdateFlags) : Bool :=
  !flags.itemCollected && item.nextcheck != 0 && !flags.itemKeyChanged &&
    !flags.itemTypeChanged &&
      match newState with
      | .normal => !flags.itemDelayChanged
      | .notsupported =>
        if item.schedulable then !flags.refreshUnsupportedChanged else !flags.itemDelayChanged

/-- `DCitem_nextcheck_update`; its result is `FAIL` if the item is not schedulable afterwards. -/
def dcItemNextcheckUpdate (itemid : ItemId) (item : ZbxDcItem) (host : ZbxDcHost)
    (newState : ItemState) (flags : UpdateFlags) (now : Int) : ZbxDcItem :=
  if keepsNextcheck item newState flags then
    item
  else
    let seed := getItemNextcheckSeed env itemid item
    let refresh :=
      env.calculateItemNextcheck seed item.type env.refreshUnsupported none now
    if item.nextcheck = 0 ∨ newState = .normal ∨ item.schedulable = false then
      match env.zbxIntervalPreproc item.delay with
      | none => { item with nextcheck := zbxJan2038, schedulable := false }
      | some (simpleInterval, customIntervals) =>
        if newState = .normal ∨ item.schedulable = false then
          let disableUntil := dcGetDisableUntil item host
          if flags.hostUnreachable ∧ disableUntil ≠ 0 then
            { item with
              nextcheck := env.calculateItemNextcheckUnreachable simpleInterval customIntervals
                disableUntil
              schedulable := true }
          else
            { item with
              nextcheck := env.calculateItemNextcheck seed item.type simpleInterval
                (some customIntervals) now
              schedulable := true }
        else
          { item with nextcheck := refresh, schedulable := true }
    else
      { item with nextcheck := refresh, schedulable := true }

def inMaintenanceWithoutDataCollection (maintenanceStatus : Bool)
    (maintenanceType : MaintenanceType) (type : ItemType) : Bool :=
  maintenanceStatus && maintenanceType == .nodata && type != .internal

def dcInMaintenanceWithoutDataCollection (dcHost : ZbxDcHost) (dcItem : ZbxDcItem) : Bool :=
  inMaintenanceWithoutDataCollection dcHost.maintenanceStatus dcHost.maintenanceType dcItem.type

/-! ## The order of the queues -/

/-- Compare field by field, with `ZBX_RETURN_IF_NOT_EQUAL`. -/
def compareFields : List (Int × Int) → Int
  | [] => 0
  | (field1, field2) :: rest =>
    if field1 < field2 then -1 else if field2 < field1 then 1 else compareFields rest

/-- `ZBX_FLAG_DISCOVERY_RULE & flags`. -/
def flagDiscoveryRule (flags : Nat) : Nat :=
  flags &&& 1

def configSnmpItemCompare (itemid1 itemid2 : ItemId) (item1 item2 : ZbxDcItem) : Int :=
  compareFields
    [(item1.interfaceid, item2.interfaceid), (item1.type.code, item2.type.code),
      (flagDiscoveryRule item1.flags, flagDiscoveryRule item2.flags),
      ((env.snmpitems.lookup itemid1).getD 0, (env.snmpitems.lookup itemid2).getD 0)]

def configJavaItemCompare (itemid1 itemid2 : ItemId) (item1 item2 : ZbxDcItem) : Int :=
  let jmx1 := (env.jmxitems.lookup itemid1).getD ⟨0, 0, 0⟩
  let jmx2 := (env.jmxitems.lookup itemid2).getD ⟨0, 0, 0⟩
  compareFields
    [(item1.interfaceid, item2.interfaceid), (jmx1.username, jmx2.username),
      (jmx1.password, jmx2.password), (jmx1.jmxEndpoint, jmx2.jmxEndpoint)]

/-- `__config_heap_elem_compare`, after the two fields that all queues compare. -/
def configHeapItemCompare (itemid1 itemid2 : ItemId) (item1 item2 : ZbxDcItem) : Int :=
  if item1.type ≠ .snmp then
    if item2.type ≠ .snmp then 0 else -1
  else if item2.type ≠ .snmp then
    1
  else
    configSnmpItemCompare env itemid1 itemid2 item1 item2

/-- The rest of the comparison in each queue, as `DCinit` sets it. -/
def queueItemCompare (pollerType : PollerType) :
    ItemId → ItemId → ZbxDcItem → ZbxDcItem → Int :=
  match pollerType with
  | .pinger => fun _ _ item1 item2 => compareFields [(item1.interfaceid, item2.interfaceid)]
  | .java => configJavaItemCompare env
  | .normal | .unreachable | .ipmi => configHeapItemCompare env

/--
The compare function of a queue: `__config_pinger_elem_compare`,
`__config_java_elem_compare` or `__config_heap_elem_compare`.
-/
def queueCompare (pollerType : PollerType) (items : Items) (elem1 elem2 : Elem Unit) : Int :=
  match items.lookup elem1.key, items.lookup elem2.key with
  | some item1, some item2 =>
    let common := compareFields
      [(item1.nextcheck, item2.nextcheck), (item1.queuePriority.code, item2.queuePriority.code)]
    if common ≠ 0 then
      common
    else
      queueItemCompare env pollerType elem1.key elem2.key item1 item2
  | _, _ => 0

/-! ## Moving an item between the queues -/

/-- The first half of `DCupdate_item_queue`: an item whose poller type has changed leaves its queue. -/
def leaveOldQueue (config : DcConfig) (itemid : ItemId) (item : ZbxDcItem)
    (oldPollerType : Option PollerType) : Option (DcConfig × ZbxDcItem) :=
  if item.location = .queue ∧ oldPollerType ≠ item.pollerType then
    let item := item.moveTo .nowhere
    let config := config.setItem itemid item
    -- there is no queue for `ZBX_NO_POLLER`
    oldPollerType.bind fun oldType =>
      (zbxBinaryHeapRemoveDirect (queueCompare env oldType config.items)
        (config.queues oldType) itemid).map fun queue => (config.setQueue oldType queue, item)
  else
    some (config.setItem itemid item, item)

/-- The second half of `DCupdate_item_queue`: enter the queue of the poller type, or move in it. -/
def enterQueue (config : DcConfig) (itemid : ItemId) (item : ZbxDcItem) (oldNextcheck : Int) :
    Option DcConfig :=
  match item.pollerType with
  | none => some config
  | some pollerType =>
    if item.location = .queue ∧ oldNextcheck = item.nextcheck then
      some config
    else if item.location ≠ .queue then
      let config := config.setItem itemid (item.moveTo .queue)
      (zbxBinaryHeapInsert (queueCompare env pollerType config.items)
        (config.queues pollerType) ⟨itemid, ()⟩).map (config.setQueue pollerType)
    else
      (zbxBinaryHeapUpdateDirect (queueCompare env pollerType config.items)
        (config.queues pollerType) ⟨itemid, ()⟩).map (config.setQueue pollerType)

/-- `DCupdate_item_queue` for an item that has been changed; `none` is an exit in a heap function. -/
def dcUpdateItemQueue (config : DcConfig) (itemid : ItemId) (item : ZbxDcItem)
    (oldPollerType : Option PollerType) (oldNextcheck : Int) : Option DcConfig :=
  if item.location = .poller then
    some (config.setItem itemid item)
  else
    (leaveOldQueue env config itemid item oldPollerType).bind fun left =>
      enterQueue env left.1 itemid left.2 oldNextcheck

def dcRequeueItem (config : DcConfig) (itemid : ItemId) (dcItem : ZbxDcItem)
    (dcHost : ZbxDcHost) (newState : ItemState) (flags : UpdateFlags) (lastclock : Int) :
    Option DcConfig :=
  let updated := dcItemNextcheckUpdate env itemid dcItem dcHost newState flags lastclock
  dcUpdateItemQueue env config itemid (dcItemPollerTypeUpdate env updated dcHost flags)
    updated.pollerType dcItem.nextcheck

def dcRequeueItemAt (config : DcConfig) (itemid : ItemId) (dcItem : ZbxDcItem)
    (dcHost : ZbxDcHost) (nextcheck : Int) : Option DcConfig :=
  let updated := { dcItem with queuePriority := .high, nextcheck }
  dcUpdateItemQueue env config itemid (dcItemPollerTypeUpdate env updated dcHost collected)
    updated.pollerType dcItem.nextcheck

/--
The end of the loop of `DCsync_items` for an item that is active on a monitored
host, as it is when the item is new.
-/
def dcSyncItem (config : DcConfig) (itemid : ItemId) (item : ZbxDcItem) (host : ZbxDcHost)
    (flags : UpdateFlags) (now : Int) : Option DcConfig :=
  let typed := dcItemPollerTypeUpdate env item host flags
  let updated :=
    if zbxIsCountedInItemQueue typed.type typed.key then
      dcItemNextcheckUpdate env itemid typed host typed.state flags now
    else
      typed
  dcUpdateItemQueue env config itemid updated item.pollerType item.nextcheck

end Zabbix.ConfigCache.PollerItems
