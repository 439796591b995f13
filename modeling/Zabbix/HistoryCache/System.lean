import Zabbix.HistoryCache.Queue
import Zabbix.Library.Transition
import Mathlib.Data.List.Sort

/-!
# Collectors and history syncers

The system consists of the shared history cache, the collectors inside
`dc_flush_history`, and the syncers inside a round of `sync_server_history` or
`sync_proxy_history`.  One label is one lock section (or one access to shared
data outside the lock), so a list of labels is an interleaving.

* A collector holds the cache lock from the start of a flush to its end, except
  while it sleeps because a clone did not fit into memory.
* A syncer pops a batch under the lock, marks items with a locked trigger as
  busy (server only), copies the tails of the others one by one without the
  lock, and pushes the batch back under the lock.

The log records what happened to every record.  It is an observation: no step
reads it.
-/

namespace Zabbix.HistoryCache.System

open Common.History Records Queue Library.KeyedTable

/-- What can happen to a record. -/
inductive Event where
  | offered (collector : Nat) (itemValues : List DcItemValue)
  | queued (collector : Nat) (itemValue : DcItemValue) (data : HcData)
  | dropped (collector : Nat) (itemValue : DcItemValue) (head : HcData)
  | returned (syncer : Nat) (history : ZbxDcHistory)
  | removed (syncer : Nat) (itemid : ItemId) (data : HcData)
deriving DecidableEq

abbrev Log := List Event

/-! ## Collectors -/

/--
A collector that sleeps in `hc_add_item_values`: the partly cloned record, the
local record it is cloned from, the records after it, and `item_values_num`.
-/
structure WaitingFlush where
  data : Option HcData
  itemValue : DcItemValue
  rest : List DcItemValue
  itemValuesNum : Nat

/-- The cache and the log after a part of `hc_add_item_values`. -/
structure AddResult where
  cache : ZbxDcCache
  log : Log
  /-- The partial clone and the unfinished records, when memory ran out. -/
  blocked : Option (Option HcData × DcItemValue × List DcItemValue) := none

/--
`hc_add_item_values` from the given record on, one turn of the loop after the
other.
-/
def hcAddItemValues (collector : Nat) :
    ZbxDcCache → Log → List DcItemValue → Mem → Option AddResult
  | cache, log, [], _ => some { cache, log }
  | cache, log, itemValue :: rest, mem =>
    match mergeTarget cache itemValue with
    | some item =>
      let merged := item.merge itemValue
      hcAddItemValues collector (cache.setItem merged)
        (log ++ [.dropped collector itemValue merged.head]) rest mem
    | none =>
      let clone := hcCloneHistoryData cache.stats none itemValue mem
      let cache := { cache with stats := clone.stats }
      if clone.done then
        clone.data.bind fun data =>
          (hcAppendData cache itemValue.itemid data).bind fun next =>
            hcAddItemValues collector next
              (log ++ [.queued collector itemValue data]) rest clone.mem
      else
        some { cache, log, blocked := some (clone.data, itemValue, rest) }

/-- `hc_add_item_values` after a sleep: repeat the clone, then go on. -/
def resumeItemValues (collector : Nat) (cache : ZbxDcCache) (log : Log)
    (waiting : WaitingFlush) (mem : Mem) : Option AddResult :=
  let clone := hcCloneHistoryData cache.stats waiting.data waiting.itemValue mem
  let cache := { cache with stats := clone.stats }
  if clone.done then
    clone.data.bind fun data =>
      (hcAppendData cache waiting.itemValue.itemid data).bind fun next =>
        hcAddItemValues collector next
          (log ++ [.queued collector waiting.itemValue data]) waiting.rest clone.mem
  else
    some { cache, log, blocked := some (clone.data, waiting.itemValue, waiting.rest) }

/-! ## Syncers -/

/-- How far a syncer is in its round. -/
inductive Stage where
  | popped
  | locked
deriving DecidableEq, Repr

/--
A syncer between `hc_pop_items` and `hc_push_items`.  `readNum` is the loop index
of `hc_get_item_values`; `historyNum` is the number of items available for
processing.
-/
structure SyncRound where
  stage : Stage := .popped
  historyItems : List ItemId
  historyNum : Int
  readNum : Nat := 0

/-- Whether the program is a server or a proxy. -/
inductive ProgramType where
  | server
  | proxy
deriving DecidableEq, Repr

structure State where
  cache : ZbxDcCache := {}
  flushes : Table Nat WaitingFlush := ∅
  rounds : Table Nat SyncRound := ∅
  log : Log := []

/--
The busy marks of `DCconfig_lock_triggers_by_history_items`: an item whose oldest
record has a value and which has a locked trigger.  Returns `locked_num` too.
-/
def lockTriggersByHistoryItems (locked : List ItemId) :
    ZbxDcCache → List ItemId → Option (ZbxDcCache × Nat)
  | cache, [] => some (cache, 0)
  | cache, itemid :: rest =>
    match hcGetItem cache itemid with
    | none => none
    | some item =>
      if hasFlag zbxDcFlagNovalue item.tail.flags ∨ itemid ∉ locked then
        lockTriggersByHistoryItems locked cache rest
      else
        (lockTriggersByHistoryItems locked
            (cache.setItem { item with status := .busy }) rest).map
          fun result => (result.1, result.2 + 1)

/-- `hc_push_items`: the cache and the log. -/
def hcPushItems (syncer : Nat) :
    ZbxDcCache → Log → List ItemId → Option (ZbxDcCache × Log)
  | cache, log, [] => some (cache, log)
  | cache, log, itemid :: rest =>
    (hcPushItem cache itemid).bind fun pushed =>
      hcPushItems syncer pushed.1
        (log ++ (pushed.2.map (Event.removed syncer itemid)).toList) rest

/-! ## Steps -/

/--
One section of one process.  `mem` answers the memory requests of a collector and
`locked` lists the items with a locked trigger.
-/
inductive Label where
  | flushHistory (collector : Nat) (itemValues : List DcItemValue) (mem : Mem)
  | wakeUp (collector : Nat) (mem : Mem)
  | popItems (syncer : Nat)
  | lockTriggers (syncer : Nat) (locked : List ItemId)
  | getItemValue (syncer : Nat)
  | pushItems (syncer : Nat)

/-- The end of a section of `dc_flush_history`: account for the batch, or sleep. -/
def State.finishFlush
    (state : State) (collector itemValuesNum : Nat) (result : AddResult) : State :=
  match result.blocked with
  | none =>
    { state with
      cache :=
        { result.cache with
          historyNum := result.cache.historyNum + itemValuesNum }
      flushes := state.flushes.erase collector
      log := result.log }
  | some (data, itemValue, rest) =>
    { state with
      cache := result.cache
      flushes := state.flushes.insert collector ⟨data, itemValue, rest, itemValuesNum⟩
      log := result.log }

/-- `dc_flush_history` up to its end or its first sleep. -/
def stepFlush (state : State) (collector : Nat) (itemValues : List DcItemValue)
    (mem : Mem) : Option State :=
  match state.flushes.lookup collector with
  | some _ => none
  | none =>
    (hcAddItemValues collector state.cache
        (state.log ++ [.offered collector itemValues]) itemValues mem).map
      (state.finishFlush collector itemValues.length)

/-- A collector wakes up and takes the lock again. -/
def stepWakeUp (state : State) (collector : Nat) (mem : Mem) : Option State :=
  match state.flushes.lookup collector with
  | none => none
  | some waiting =>
    (resumeItemValues collector state.cache state.log waiting mem).map
      (state.finishFlush collector waiting.itemValuesNum)

/-- The first section of a round; a round without items is left at once. -/
def stepPop (state : State) (syncer : Nat) : Option State :=
  match state.rounds.lookup syncer with
  | some _ => none
  | none =>
    (hcPopItems state.cache).map fun popped =>
      match popped.1 with
      | [] => { state with cache := popped.2 }
      | historyItems =>
        { state with
          cache := popped.2
          rounds := state.rounds.insert syncer
            { historyItems, historyNum := historyItems.length } }

/--
The trigger locks of a server round.  A batch with an available item is sorted
by item identifier before it is read.
-/
def stepLock (program : ProgramType) (state : State) (syncer : Nat)
    (locked : List ItemId) : Option State :=
  match state.rounds.lookup syncer with
  | none => none
  | some round =>
    if program = .server ∧ round.stage = .popped then
      (lockTriggersByHistoryItems locked state.cache round.historyItems).map
        fun result =>
          let historyNum : Int := round.historyItems.length - result.2
          let historyItems :=
            if historyNum = 0 then round.historyItems
            else round.historyItems.mergeSort (· ≤ ·)
          { state with
            cache := result.1
            rounds := state.rounds.insert syncer
              { round with stage := .locked, historyItems, historyNum } }
    else
      none

/-- Whether a round may copy values: after the trigger locks, if there are any. -/
def SyncRound.mayRead (program : ProgramType) (round : SyncRound) : Bool :=
  match program with
  | .server => round.stage = .locked ∧ round.historyNum ≠ 0
  | .proxy => true

/-- One turn of the loop of `hc_get_item_values`. -/
def stepGet (program : ProgramType) (state : State) (syncer : Nat) : Option State :=
  match state.rounds.lookup syncer with
  | none => none
  | some round =>
    if round.mayRead program then
      (round.historyItems[round.readNum]?).bind fun itemid =>
        (hcGetItem state.cache itemid).map fun item =>
          { state with
            rounds := state.rounds.insert syncer
              { round with readNum := round.readNum + 1 }
            log :=
              if item.status = .busy then state.log
              else state.log ++ [.returned syncer (hcCopyHistoryData itemid item.tail)] }
    else
      none

/--
The last section of a round.  A server round without an available item is pushed
back unread, and the counter stays.
-/
def stepPush (program : ProgramType) (state : State) (syncer : Nat) : Option State :=
  match state.rounds.lookup syncer with
  | none => none
  | some round =>
    if round.mayRead program ∧ round.readNum = round.historyItems.length ∨
        program = .server ∧ round.stage = .locked ∧ round.historyNum = 0 then
      (hcPushItems syncer state.cache state.log round.historyItems).map fun pushed =>
        { state with
          cache :=
            { pushed.1 with historyNum := pushed.1.historyNum - round.historyNum }
          rounds := state.rounds.erase syncer
          log := pushed.2 }
    else
      none

/-- One section of one process. -/
def step (program : ProgramType) (state : State) : Label → Option State
  | .flushHistory collector itemValues mem => stepFlush state collector itemValues mem
  | .wakeUp collector mem => stepWakeUp state collector mem
  | .popItems syncer => stepPop state syncer
  | .lockTriggers syncer locked => stepLock program state syncer locked
  | .getItemValue syncer => stepGet program state syncer
  | .pushItems syncer => stepPush program state syncer

/-- The history cache of a program that has just started. -/
def initial : State := {}

def logRecord (lastlogsize : Nat) (flags : UInt8) : DcItemValue where
  itemid := 7
  valueStr := if hasFlag zbxDcFlagNovalue flags then none else some "line"
  ts := ⟨10, 0⟩
  lastlogsize := lastlogsize
  itemValueType := .log
  valueType := .log
  flags := flags

end Zabbix.HistoryCache.System
