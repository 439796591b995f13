import Zabbix.Algo.DirectHeap
import Zabbix.HistoryCache.Queue
import Zabbix.Library.Transition

/-!
# Trigger locks

A trigger is processed by the process that has set its `locked` flag.  History
syncers set the flags of all triggers of the items they keep, of the timer
triggers they take, and of the triggers whose events they close; they get the
ids of these triggers, and they clear the flags when they are done.

The configuration is fixed, and a pointer to a trigger is its id.  The sections
under the write lock are one step each, but for the loop over the timer queue:
it is one step for each iteration, with the write lock held in between.
`DCconfig_unlock_triggers` has only the read lock, so that the flags of
different processes are cleared in any order.
-/

namespace Zabbix.ConfigCache.TriggerLocks

open Algo.BinaryHeap Algo.DirectHeap Common.History HistoryCache.Queue Library Library.KeyedTable

abbrev TriggerId := Nat

/-- `TRIGGER_STATUS_ENABLED` and `TRIGGER_STATUS_DISABLED`. -/
inductive TriggerStatus where
  | enabled
  | disabled
deriving DecidableEq, Repr

/-- `ZBX_DC_TRIGGER`, as far as locking needs it. -/
structure ZbxDcTrigger where
  status : TriggerStatus
  locked : Bool := false
  nextcheck : Int := 0
deriving DecidableEq, Repr

/-- `ZBX_DC_ITEM`, as far as locking needs it; no triggers are a null pointer. -/
structure ZbxDcItem where
  triggers : Option (List TriggerId)
deriving DecidableEq, Repr

abbrev Triggers := Table TriggerId ZbxDcTrigger

/--
The configuration as `dc_trigger_update_cache` leaves it, with no trigger
locked.
-/
structure Configuration where
  items : Table ItemId ZbxDcItem
  triggers : Triggers
  timerQueue : Heap Unit
  distinct : ∀ itemid dcItem, items.lookup itemid = some dcItem →
    ∀ triggerids ∈ dcItem.triggers, triggerids.Nodup
  unlocked : ∀ triggerid trigger, triggers.lookup triggerid = some trigger →
    trigger.locked = false
  indexed : Indexed timerQueue
  queued : ∀ triggerid ∈ keys timerQueue, triggerid ∈ triggers

/-! ## Locking -/

/-- Set the flag of a trigger. -/
def lockTrigger (triggers : Triggers) (triggerid : TriggerId) (trigger : ZbxDcTrigger) :
    Triggers :=
  triggers.insert triggerid { trigger with locked := true }

/-- The first loop over the triggers of an item: an enabled trigger is locked. -/
def hasLocked (triggers : Triggers) (triggerids : List TriggerId) : Bool :=
  triggerids.any fun triggerid =>
    (triggers.lookup triggerid).any fun trigger =>
      trigger.status == .enabled && trigger.locked

def lockEnabled : List TriggerId → Triggers → List TriggerId → Triggers × List TriggerId
  | [], triggers, triggerids => (triggers, triggerids)
  | triggerid :: rest, triggers, triggerids =>
    match triggers.lookup triggerid with
    | none => lockEnabled rest triggers triggerids
    | some trigger =>
      if trigger.status ≠ .enabled then
        lockEnabled rest triggers triggerids
      else
        lockEnabled rest (lockTrigger triggers triggerid trigger) (triggerids ++ [triggerid])

/-- The triggers that a history item needs locked: none for an item without a value. -/
def itemTriggers (items : Table ItemId ZbxDcItem) (historyItem : HcItem) : List TriggerId :=
  if hasFlag zbxDcFlagNovalue historyItem.tail.flags then []
  else ((items.lookup historyItem.itemid).bind ZbxDcItem.triggers).getD []

/-- The triggers, the history items, the locked ids and `locked_num`. -/
structure LockResult where
  triggers : Triggers
  historyItems : List HcItem
  triggerids : List TriggerId
  lockedNum : Nat

/--
`DCconfig_lock_triggers_by_history_items`; its result is the number of history
items less `lockedNum`.
-/
def dcConfigLockTriggersByHistoryItems (items : Table ItemId ZbxDcItem) :
    List HcItem → Triggers → List TriggerId → LockResult
  | [], triggers, triggerids => ⟨triggers, [], triggerids, 0⟩
  | historyItem :: rest, triggers, triggerids =>
    if hasLocked triggers (itemTriggers items historyItem) then
      let result := dcConfigLockTriggersByHistoryItems items rest triggers triggerids
      { result with
        historyItems := { historyItem with status := .busy } :: result.historyItems
        lockedNum := result.lockedNum + 1 }
    else
      let locked := lockEnabled (itemTriggers items historyItem) triggers triggerids
      let result := dcConfigLockTriggersByHistoryItems items rest locked.1 locked.2
      { result with historyItems := historyItem :: result.historyItems }

/-- `DCconfig_lock_triggers_by_triggerids`: the triggers and `triggerids_out`. -/
def dcConfigLockTriggersByTriggerids :
    List TriggerId → Triggers → List TriggerId → Triggers × List TriggerId
  | [], triggers, triggeridsOut => (triggers, triggeridsOut)
  | triggerid :: rest, triggers, triggeridsOut =>
    match triggers.lookup triggerid with
    | none => dcConfigLockTriggersByTriggerids rest triggers triggeridsOut
    | some trigger =>
      if trigger.locked then
        dcConfigLockTriggersByTriggerids rest triggers triggeridsOut
      else
        dcConfigLockTriggersByTriggerids rest (lockTrigger triggers triggerid trigger)
          (triggeridsOut ++ [triggerid])

/-! ## The timer queue -/

def zbxTimerDelay : Int := 30

/--
`dc_timer_calculate_nextcheck`.  The loop adds the delay once at most, as
`dcTimerCalculateNextcheck_gt` shows.
-/
def dcTimerCalculateNextcheck (now : Int) (seed : TriggerId) : Int :=
  let nextcheck := zbxTimerDelay * (now / zbxTimerDelay) + (seed : Int) % zbxTimerDelay
  if nextcheck ≤ now then nextcheck + zbxTimerDelay else nextcheck

def configTimerCompare (triggers : Triggers) (elem1 elem2 : Elem Unit) : Int :=
  match triggers.lookup elem1.key, triggers.lookup elem2.key with
  | some trigger1, some trigger2 =>
    if trigger1.nextcheck < trigger2.nextcheck then -1
    else if trigger2.nextcheck < trigger1.nextcheck then 1 else 0
  | _, _ => 0

def dueTrigger (timerQueue : Heap Unit) (triggers : Triggers) (now : Int) :
    Option (Elem Unit × ZbxDcTrigger) :=
  (zbxBinaryHeapFindMin timerQueue).bind fun elem =>
    (triggers.lookup elem.key).bind fun trigger =>
      if now < trigger.nextcheck then none else some (elem, trigger)

/-! ## Processes -/

/-- Where a process is in one of the functions that are several steps. -/
inductive Place where
  | outside
  /-- `zbx_dc_get_timer_triggerids` has found a due trigger. -/
  | timerFound (now limit : Int)
  /-- In the loop of `zbx_dc_get_timer_triggerids`, with the write lock. -/
  | timerLoop (now limit : Int)
  /-- In the loop of `DCconfig_unlock_triggers`, with the read lock. -/
  | unlocking
deriving DecidableEq, Repr

/-- The ids that a process was given, and the history items it has popped. -/
structure Process where
  triggerids : List TriggerId := []
  historyItems : List HcItem := []
  place : Place := .outside

structure ConfigLock where
  writer : Option Nat := none
  readers : List Nat := []

structure State where
  triggers : Triggers
  timerQueue : Heap Unit
  processes : Nat → Process := fun _ => {}
  lock : ConfigLock := {}

/-- What a process does next. -/
inductive Label where
  | lockByHistoryItems (process : Nat) (historyItems : List HcItem)
  | lockByTriggerids (process : Nat) (triggeridsIn : List TriggerId)
  | timerCheck (process : Nat) (now limit : Int)
  | timerLock (process : Nat)
  | timerIterate (process : Nat)
  | unlockBegin (process : Nat) (triggerids : List TriggerId)
  | unlockNext (process : Nat)
deriving DecidableEq, Repr

/-- `WRLOCK_CACHE` does not have to wait. -/
def ConfigLock.mayWrite (lock : ConfigLock) : Bool :=
  lock.writer.isNone && lock.readers.isEmpty

/-- `RDLOCK_CACHE` does not have to wait. -/
def ConfigLock.mayRead (lock : ConfigLock) : Bool :=
  lock.writer.isNone

def State.setProcess (state : State) (index : Nat) (process : Process) : State :=
  { state with processes := Function.update state.processes index process }

/-- One iteration of the loop of `zbx_dc_get_timer_triggerids`, or its end. -/
def timerIterate (state : State) (index : Nat) (now limit : Int) : Option State :=
  let process := state.processes index
  match dueTrigger state.timerQueue state.triggers now, limit == 0 with
  | some (elem, trigger), false =>
    let taken := !trigger.locked
    let triggers := state.triggers.insert elem.key
      { trigger with locked := true, nextcheck := dcTimerCalculateNextcheck now elem.key }
    (zbxBinaryHeapUpdateDirect (configTimerCompare triggers) state.timerQueue elem).map
      fun timerQueue =>
        { state with triggers, timerQueue }.setProcess index
          { process with
            triggerids := if taken then process.triggerids ++ [elem.key] else process.triggerids
            place := .timerLoop now (if taken then limit - 1 else limit) }
  | _, _ =>
    some { state.setProcess index { process with place := .outside } with
      lock := { state.lock with writer := none } }

/-- A step of one process; `none` if it has to wait or is elsewhere. -/
def step (config : Configuration) (state : State) : Label → Option State
  | .lockByHistoryItems index historyItems =>
    let process := state.processes index
    if process.place = .outside ∧ state.lock.mayWrite then
      let result := dcConfigLockTriggersByHistoryItems config.items historyItems state.triggers
        process.triggerids
      some ({ state with triggers := result.triggers }.setProcess index
        { process with
          triggerids := result.triggerids
          historyItems := process.historyItems ++ result.historyItems })
    else
      none
  | .lockByTriggerids index triggeridsIn =>
    let process := state.processes index
    if process.place = .outside ∧ (triggeridsIn = [] ∨ state.lock.mayWrite) then
      let result := dcConfigLockTriggersByTriggerids triggeridsIn state.triggers
        process.triggerids
      some ({ state with triggers := result.1 }.setProcess index
        { process with triggerids := result.2 })
    else
      none
  | .timerCheck index now limit =>
    let process := state.processes index
    if process.place = .outside ∧ state.lock.mayRead then
      if (dueTrigger state.timerQueue state.triggers now).isSome then
        some (state.setProcess index { process with place := .timerFound now limit })
      else
        some state
    else
      none
  | .timerLock index =>
    let process := state.processes index
    match process.place with
    | .timerFound now limit =>
      if state.lock.mayWrite then
        some { state.setProcess index { process with place := .timerLoop now limit } with
          lock := { state.lock with writer := some index } }
      else
        none
    | _ => none
  | .timerIterate index =>
    match (state.processes index).place with
    | .timerLoop now limit => timerIterate state index now limit
    | _ => none
  | .unlockBegin index triggerids =>
    let process := state.processes index
    -- a process unlocks the ids it was given, and its items are processed by then
    if process.place = .outside ∧ triggerids.Perm process.triggerids ∧ state.lock.mayRead then
      some { state.setProcess index ⟨triggerids, [], .unlocking⟩ with
        lock := { state.lock with readers := index :: state.lock.readers } }
    else
      none
  | .unlockNext index =>
    let process := state.processes index
    match process.place, process.triggerids with
    | .unlocking, triggerid :: rest =>
      let triggers :=
        match state.triggers.lookup triggerid with
        | none => state.triggers
        | some trigger => state.triggers.insert triggerid { trigger with locked := false }
      some ({ state with triggers }.setProcess index { process with triggerids := rest })
    | .unlocking, [] =>
      some { state.setProcess index { process with place := .outside } with
        lock := { state.lock with readers := state.lock.readers.erase index } }
    | _, _ => none

/-- No process has been given anything yet. -/
def initial (config : Configuration) : State where
  triggers := config.triggers
  timerQueue := config.timerQueue

end Zabbix.ConfigCache.TriggerLocks
