import Mathlib.Algebra.Group.Nat.Defs
import Mathlib.Algebra.Group.Int.Defs
import Mathlib.Data.List.Basic

/-!
# Results and the records built from them

A plugin hands a `Result` to the result cache of agent 2.  The memory cache turns
it into the `AgentData` that it uploads.  A field that is a nil pointer is `none`,
and the zero time stamp is `none` as well.
-/

namespace Zabbix.ResultCache.Records

/-- `plugin.Result` -/
structure Result where
  itemid : Nat
  value : Option String
  ts : Option (Int × Int)
  error : Option String
  lastLogsize : Option UInt64
  mtime : Option Int
  eventSource : Option String
  eventID : Option Int
  eventSeverity : Option Int
  eventTimestamp : Option Int
  persistent : Bool
deriving DecidableEq

structure AgentData where
  id : Nat
  itemid : Nat
  lastLogsize : Option UInt64
  mtime : Option Int
  state : Option Int
  value : Option String
  eventSource : Option String
  eventID : Option Int
  eventSeverity : Option Int
  eventTimestamp : Option Int
  clock : Int
  ns : Int
  persistent : Bool
deriving DecidableEq

/-- `itemutil.StateNotSupported` -/
def stateNotSupported : Int :=
  1

/-- The next value of a counter of type `uint64`. -/
def nextID (id : Nat) : Nat :=
  (id + 1) % 2 ^ 64

theorem nextID_eq {id : Nat} (free : id + 1 < 2 ^ 64) : nextID id = id + 1 :=
  Nat.mod_eq_of_lt free

/-- The record that `MemoryCache.write` builds. -/
def agentData (id : Nat) (r : Result) : AgentData where
  id := id
  itemid := r.itemid
  lastLogsize := r.lastLogsize
  mtime := r.mtime
  state :=
    match r.error with
    | none => none
    | some _ => some stateNotSupported
  value :=
    match r.error with
    | none => r.value
    | some errmsg => some errmsg
  eventSource := r.eventSource
  eventID := r.eventID
  eventSeverity := r.eventSeverity
  eventTimestamp := r.eventTimestamp
  clock :=
    match r.ts with
    | none => 0
    | some (sec, _) => sec
  ns :=
    match r.ts with
    | none => 0
    | some (_, ns) => ns
  persistent := r.persistent

end Zabbix.ResultCache.Records

/-!
# The memory cache

`MemoryCache` of agent 2.  The counters are of type `int32`.  Whether a write to
the server succeeds is not determined by the cache, so it is an argument; every
attempt to upload is kept in a log with the results it contained.
-/

namespace Zabbix.ResultCache.MemoryCache

open Records

/-- The value of an `int32` after an operation. -/
def int32 (value : Int) : Int :=
  value.bmod (2 ^ 32)

structure MemoryCache where
  results : List AgentData
  maxBufferSize : Int
  totalValueNum : Int
  persistValueNum : Int
  lastDataID : Nat
  /-- Whether the cache was created with an uploader. -/
  uploader : Bool
deriving DecidableEq

/-- One call of the uploader's `Write`. -/
structure Attempt where
  data : List AgentData
  success : Bool
deriving DecidableEq

/-- The cache, the attempts to upload in their order, and the results written to it. -/
structure State where
  cache : MemoryCache
  attempts : List Attempt
  written : List AgentData
deriving DecidableEq

def upload (success : Bool) (state : State) : State :=
  if state.cache.results = [] then state
  else
    let attempts := state.attempts ++ [⟨state.cache.results, success⟩]
    if success then
      { state with
        attempts
        cache := { state.cache with results := [], totalValueNum := 0, persistValueNum := 0 } }
    else { state with attempts }

/-- Half of the buffer is taken by persistent results, or all of it by any. -/
def isFull (cache : MemoryCache) : Prop :=
  cache.persistValueNum ≥ cache.maxBufferSize / 2 ∨ cache.totalValueNum ≥ cache.maxBufferSize

instance (cache : MemoryCache) : Decidable (isFull cache) :=
  inferInstanceAs (Decidable (_ ∨ _))

/-- The result at the end of the slice, with the counters. -/
def append (cache : MemoryCache) (result : AgentData) : MemoryCache :=
  { cache with
    results := cache.results ++ [result]
    totalValueNum := int32 (cache.totalValueNum + 1)
    persistValueNum :=
      if result.persistent then int32 (cache.persistValueNum + 1) else cache.persistValueNum }

def addResult (success : Bool) (result : AgentData) (state : State) : State :=
  let full := isFull state.cache
  let next := { state with cache := append state.cache result }
  if isFull next.cache ∧ ¬full ∧ next.cache.uploader then upload success next else next

/-- The index of the value to replace, and the number of persistent values after that. -/
def replaced (cache : MemoryCache) (result : AgentData) : Option (Nat × Int) :=
  let sameItem :=
    if result.persistent then none
    else cache.results.findIdx? fun r => r.itemid == result.itemid
  match sameItem with
  | some index => some (index, cache.persistValueNum)
  | none =>
    if ¬result.persistent ∨ cache.persistValueNum < cache.maxBufferSize / 2 then
      (cache.results.findIdx? fun r => !r.persistent).map fun index =>
        (index,
          if result.persistent then int32 (cache.persistValueNum + 1)
          else cache.persistValueNum)
    else none

def insertResult (success : Bool) (result : AgentData) (state : State) : State :=
  match replaced state.cache result with
  | none => addResult success result state
  | some (index, persistValueNum) =>
    { state with
      cache :=
        { state.cache with
          results := state.cache.results.eraseIdx index ++ [result]
          persistValueNum } }

def write (success : Bool) (r : Result) (state : State) : State :=
  let data := agentData (nextID state.cache.lastDataID) r
  let state :=
    { state with
      cache := { state.cache with lastDataID := data.id }
      written := state.written ++ [data] }
  if state.cache.totalValueNum ≥ state.cache.maxBufferSize then insertResult success data state
  else addResult success data state

/-- What the cache receives: a result, or an uploader. -/
inductive Input where
  | result (r : Result) (success : Bool)
  | uploader (success : Bool)
deriving DecidableEq

def step (state : State) : Input → Option State
  | .result r success => some (write success r state)
  | .uploader success => some (upload success state)

/-- The cache after `init`. -/
def start (maxBufferSize : Int) (uploader : Bool) : State where
  cache := ⟨[], maxBufferSize, 0, 0, 0, uploader⟩
  attempts := []
  written := []

end Zabbix.ResultCache.MemoryCache

/-!
# The disk cache

`DiskCache` of agent 2.  The two SQLite tables are lists of rows, and a query that
orders by the identifier sorts them.  Absent fields are stored as `DbVariableNotSet`
or as the empty text.  The time of a step, and whether a write to the server
succeeds, are arguments.
-/

namespace Zabbix.ResultCache.DiskCache

open Records MemoryCache

def dbVariableNotSet : Int :=
  -1

def storageTolerance : Int :=
  600

def dataLimit : Nat :=
  10000

/-- A row of the tables `data` and `log`. -/
structure Row where
  id : Nat
  writeClock : Int
  itemid : Nat
  lastlogsize : Int64
  mtime : Int
  state : Int
  value : String
  eventsource : String
  eventid : Int
  eventseverity : Int
  eventtimestamp : Int
  clock : Int
  ns : Int
deriving DecidableEq

/-- A field of a row, absent if it holds the value for this. -/
def unlessNotSet (field : Int) : Option Int :=
  if field ≠ dbVariableNotSet then some field else none

def unlessEmpty (field : String) : Option String :=
  if field ≠ "" then some field else none

def resultFetch (row : Row) : AgentData where
  id := row.id
  itemid := row.itemid
  lastLogsize := if row.lastlogsize ≠ -1 then some row.lastlogsize.toUInt64 else none
  mtime := unlessNotSet row.mtime
  state := unlessNotSet row.state
  value := unlessEmpty row.value
  eventSource := unlessEmpty row.eventsource
  eventID := unlessNotSet row.eventid
  eventSeverity := unlessNotSet row.eventseverity
  eventTimestamp := unlessNotSet row.eventtimestamp
  clock := row.clock
  ns := row.ns
  persistent := false

/-- The values that `write` inserts. -/
def rowOf (id : Nat) (now : Int) (r : Result) : Row where
  id := id
  writeClock := now
  itemid := r.itemid
  lastlogsize :=
    match r.lastLogsize with
    | none => -1
    | some size => size.toInt64
  mtime := r.mtime.getD dbVariableNotSet
  state :=
    match r.error with
    | none => dbVariableNotSet
    | some _ => stateNotSupported
  value :=
    match r.error with
    | none => r.value.getD ""
    | some errmsg => errmsg
  eventsource := r.eventSource.getD ""
  eventid := r.eventID.getD dbVariableNotSet
  eventseverity := r.eventSeverity.getD dbVariableNotSet
  eventtimestamp := r.eventTimestamp.getD dbVariableNotSet
  clock :=
    match r.ts with
    | none => 0
    | some (sec, _) => sec
  ns :=
    match r.ts with
    | none => 0
    | some (_, ns) => ns

structure DiskCache where
  data : List Row
  log : List Row
  storagePeriod : Int
  oldestLog : Int
  oldestData : Int
  lastDataID : Nat
deriving DecidableEq

/-- `SELECT MIN(write_clock)`, or 0 for an empty table. -/
def getOldestWriteClock (table : List Row) : Int :=
  (table.map Row.writeClock).min?.getD 0

/-- `DELETE FROM … WHERE id<=?` -/
def deleteUpTo (maxId : Nat) (table : List Row) : List Row :=
  table.filter fun row => !decide (row.id ≤ maxId)

/-- The rows of both tables in the order of their identifiers, not more than the limit. -/
def selectRows (cache : DiskCache) : List Row :=
  ((cache.data ++ cache.log).mergeSort fun row other => decide (row.id ≤ other.id)).take dataLimit

/-- The identifiers of the last result without and of the last one with a log size. -/
def maxIds (results : List AgentData) : Nat × Nat :=
  results.foldl
    (fun (maxDataId, maxLogId) result =>
      if result.lastLogsize = none then (result.id, maxLogId) else (maxDataId, result.id))
    (0, 0)

def resultsGet (cache : DiskCache) : List AgentData × Nat × Nat :=
  let results := (selectRows cache).map resultFetch
  (results, maxIds results)

/-- The cache, the attempts to upload, and the records of the results written to it. -/
structure State where
  cache : DiskCache
  attempts : List Attempt
  written : List AgentData
deriving DecidableEq

/-- The tables after a successful upload. -/
def deleteUploaded (maxDataId maxLogId : Nat) (cache : DiskCache) : DiskCache :=
  let cache :=
    if maxDataId ≠ 0 then
      let data := deleteUpTo maxDataId cache.data
      { cache with data, oldestData := getOldestWriteClock data }
    else cache
  if maxLogId ≠ 0 then
    let log := deleteUpTo maxLogId cache.log
    { cache with log, oldestLog := getOldestWriteClock log }
  else cache

def upload (success : Bool) (state : State) : State :=
  let (results, maxDataId, maxLogId) := resultsGet state.cache
  if results = [] then state
  else
    let attempts := state.attempts ++ [⟨results, success⟩]
    if success then
      { state with attempts, cache := deleteUploaded maxDataId maxLogId state.cache }
    else { state with attempts }

/-- Delete what is older than the storage period, if this is due. -/
def deleteOld (now clock : Int) (cache : DiskCache) : DiskCache :=
  let cache := if cache.oldestData = 0 then { cache with oldestData := clock } else cache
  if now - cache.oldestData > cache.storagePeriod + storageTolerance then
    let data := cache.data.filter fun row => !decide (row.clock < now - cache.storagePeriod)
    { cache with data, oldestData := getOldestWriteClock data }
  else cache

/-- The record that the memory cache would upload for the same result. -/
def record (id : Nat) (r : Result) : AgentData :=
  { agentData id r with persistent := false }

def write (now : Int) (r : Result) (state : State) : State :=
  let id := nextID state.cache.lastDataID
  let cache := { state.cache with lastDataID := id }
  let row := rowOf id now r
  { state with
    written := state.written ++ [record id r]
    cache :=
      if r.persistent then
        { cache with
          oldestLog := if cache.oldestLog = 0 then row.clock else cache.oldestLog
          log := cache.log ++ [row] }
      else
        let cache := deleteOld now row.clock cache
        { cache with data := cache.data ++ [row] } }

inductive Input where
  | result (now : Int) (r : Result)
  | uploader (success : Bool)
deriving DecidableEq

def step (state : State) : Input → Option State
  | .result now r => some (write now r state)
  | .uploader success => some (upload success state)

/-- The cache after `init` with a new database. -/
def start (storagePeriod : Int) : State where
  cache := ⟨[], [], storagePeriod, 0, 0, 0⟩
  attempts := []
  written := []

end Zabbix.ResultCache.DiskCache
