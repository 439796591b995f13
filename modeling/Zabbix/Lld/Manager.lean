import Zabbix.Algo.BinaryHeap
import Zabbix.Common.History
import Zabbix.Library.KeyedTable

/-!
# The low-level discovery manager

The values of one host wait in a list, and the hosts wait in a heap ordered by their
oldest values.  A host leaves the heap when its oldest value is sent to a worker, and
comes back when the worker is done.  A pointer to a rule is the identifier of its host,
and a pointer to a worker is its index.
-/

namespace Zabbix.Lld.Manager

open Algo.BinaryHeap Common.History Library.KeyedTable List

/-- `zbx_lld_data_t`; a null string pointer is `none`. -/
structure LldData where
  itemid : Nat
  value : Option String
  error : Option String
  ts : TimeSpec
  lastlogsize : Nat
  mtime : Int
  metaInfo : Nat
deriving DecidableEq

/-- `zbx_lld_rule_t`: the values of a host from `head` to the tail.  A rule is freed with its
last value. -/
structure LldRule where
  hostid : Nat
  valuesNum : Int
  head : LldData
  rest : List LldData

def LldRule.values (rule : LldRule) : List LldData :=
  rule.head :: rule.rest

/-- `zbx_lld_worker_t` -/
structure LldWorker where
  client : Option Nat
  rule : Option Nat

/-- `zbx_lld_manager_t`; the clients index holds the workers that have one. -/
structure LldManager where
  workers : List LldWorker
  freeWorkers : List Nat
  workersClient : List Nat
  nextWorkerIndex : Nat
  ruleIndex : Table Nat LldRule
  ruleQueue : Heap Nat
  queuedNum : Nat

/-- `ZBX_IPC_LLD_TASK` to a worker, with the host of its rule. -/
structure Task where
  client : Nat
  hostid : Nat
  data : LldData
deriving DecidableEq

def lldManagerInit (lldworkerForks : Nat) : LldManager where
  workers := replicate lldworkerForks ⟨none, none⟩
  freeWorkers := []
  workersClient := []
  nextWorkerIndex := 0
  ruleIndex := ∅
  ruleQueue := { direct := false }
  queuedNum := 0

def LldManager.clientOf (manager : LldManager) (worker : Nat) : Option Nat :=
  manager.workers[worker]?.bind LldWorker.client

def LldManager.ruleOf (manager : LldManager) (worker : Nat) : Option Nat :=
  manager.workers[worker]?.bind LldWorker.rule

/-- `worker->rule = rule` -/
def LldManager.setRule (manager : LldManager) (worker : Nat) (rule : Option Nat) : LldManager :=
  { manager with workers := manager.workers.modify worker fun changed => { changed with rule } }

def ruleElemCompareFunc (rules : Table Nat LldRule) (e1 e2 : Elem Nat) : Int :=
  let oldest := fun hostid => ((rules.lookup hostid).map fun rule => rule.head.ts).getD ⟨0, 0⟩
  zbxTimespecCompare (oldest e1.data) (oldest e2.data)

/-- `lld_get_worker_by_client`; `none` is its exit. -/
def lldGetWorkerByClient (manager : LldManager) (client : Nat) : Option Nat :=
  manager.workersClient.find? fun worker => manager.clientOf worker = some client

/-- `lld_register_worker`, where `ppid` comes from the message and `parent` is the own one.
`none` is its exit when all workers are registered. -/
def lldRegisterWorker (parent : Nat) (manager : LldManager) (client ppid : Nat) :
    Option LldManager :=
  if ppid ≠ parent then some manager
  else if manager.nextWorkerIndex = manager.workers.length then none
  else
    let worker := manager.nextWorkerIndex
    some { manager with
      nextWorkerIndex := worker + 1
      workers := manager.workers.modify worker fun unused => { unused with client := some client }
      workersClient :=
        if (lldGetWorkerByClient manager client).isSome then manager.workersClient
        else manager.workersClient ++ [worker]
      freeWorkers := manager.freeWorkers ++ [worker] }

def lldQueueRule (manager : LldManager) (hostid : Nat) : Option LldManager :=
  (zbxBinaryHeapInsert (ruleElemCompareFunc manager.ruleIndex) manager.ruleQueue
    ⟨hostid, hostid⟩).map fun ruleQueue => { manager with ruleQueue }

/-- The value has no meta information, and the last value of the same item is the same. -/
def skipsRepeating (rule : LldRule) (data : LldData) : Bool :=
  data.metaInfo = 0 &&
    match rule.values.reverse.find? fun dataPtr => dataPtr.itemid = data.itemid with
    | none => false
    | some dataPtr => dataPtr.error = data.error && dataPtr.value = data.value

def lldQueueRequest (manager : LldManager) (hostid : Nat) (data : LldData) :
    Option LldManager :=
  match manager.ruleIndex.lookup hostid with
  | none =>
    let rule := { hostid, valuesNum := 0, head := data, rest := [] : LldRule }
    (lldQueueRule { manager with ruleIndex := manager.ruleIndex.insert hostid rule } hostid).map
      fun manager =>
        { manager with
          ruleIndex := manager.ruleIndex.insert hostid { rule with valuesNum := 0 + 1 }
          queuedNum := manager.queuedNum + 1 }
  | some rule =>
    if skipsRepeating rule data then some manager
    else
      some { manager with
        ruleIndex := manager.ruleIndex.insert hostid
          { rule with rest := rule.rest ++ [data], valuesNum := rule.valuesNum + 1 }
        queuedNum := manager.queuedNum + 1 }

/-- `lld_process_next_request`; `none` is the exit on an empty heap or a null pointer. -/
def lldProcessNextRequest (manager : LldManager) (worker : Nat) : Option (LldManager × Task) :=
  (zbxBinaryHeapFindMin manager.ruleQueue).bind fun elem =>
  (zbxBinaryHeapRemoveMin (ruleElemCompareFunc manager.ruleIndex) manager.ruleQueue).bind
    fun ruleQueue =>
  (manager.ruleIndex.lookup elem.data).bind fun rule =>
  (manager.clientOf worker).map fun client =>
    ({ manager with ruleQueue }.setRule worker (some elem.data), ⟨client, elem.data, rule.head⟩)

/-- The loop of `lld_process_queue` over the free workers. -/
def processFreeWorkers : List Nat → LldManager → Option (LldManager × List Task)
  | [], manager => some (manager, [])
  | worker :: rest, manager =>
    if zbxBinaryHeapEmpty manager.ruleQueue then some (manager, [])
    else
      (lldProcessNextRequest { manager with freeWorkers := rest } worker).bind
        fun (manager, task) =>
      (processFreeWorkers rest manager).map fun (manager, tasks) => (manager, task :: tasks)

def lldProcessQueue (manager : LldManager) : Option (LldManager × List Task) :=
  processFreeWorkers manager.freeWorkers manager

/-- The first part of `lld_process_result`: the worker has no rule, and the rule of the worker
has lost its oldest value. -/
def lldFinishValue (manager : LldManager) (worker hostid : Nat) (rule : LldRule) :
    Option LldManager :=
  let manager := manager.setRule worker none
  match rule.rest with
  | [] => some { manager with ruleIndex := manager.ruleIndex.erase hostid }
  | next :: rest =>
    lldQueueRule
      { manager with
        ruleIndex := manager.ruleIndex.insert hostid
          { rule with head := next, rest, valuesNum := rule.valuesNum - 1 } } hostid

/-- `lld_process_result`; `none` is its exit or a null pointer. -/
def lldProcessResult (manager : LldManager) (client : Nat) : Option (LldManager × List Task) :=
  (lldGetWorkerByClient manager client).bind fun worker =>
  (manager.ruleOf worker).bind fun hostid =>
  (manager.ruleIndex.lookup hostid).bind fun rule =>
  (lldFinishValue manager worker hostid rule).bind fun manager =>
    if zbxBinaryHeapEmpty manager.ruleQueue then
      some ({ manager with freeWorkers := manager.freeWorkers ++ [worker] }, [])
    else
      (lldProcessNextRequest manager worker).map fun (manager, task) => (manager, [task])

/-- The messages of workers and of processes that send discovery values. -/
inductive Message where
  | register (client ppid : Nat)
  | request (hostid : Nat) (data : LldData)
  | done (client : Nat)

/-- One message in the loop of `lld_manager_thread`. -/
def handle (parent : Nat) (manager : LldManager) : Message → Option (LldManager × List Task)
  | .register client ppid =>
    (lldRegisterWorker parent manager client ppid).map fun manager => (manager, [])
  | .request hostid data => (lldQueueRequest manager hostid data).bind lldProcessQueue
  | .done client =>
    (lldProcessResult manager client).map fun (manager, tasks) =>
      ({ manager with queuedNum := manager.queuedNum - 1 }, tasks)

/-! ## Workers and rules -/

variable (manager : LldManager)

theorem ruleOf_setRule {worker : Nat} (inside : worker < manager.workers.length)
    (rule : Option Nat) (other : Nat) :
    (manager.setRule worker rule).ruleOf other =
      if other = worker then rule else manager.ruleOf other := by
  unfold LldManager.ruleOf LldManager.setRule
  rw [getElem?_modify]
  by_cases same : other = worker
  · subst same
    simp [getElem?_eq_getElem inside]
  · simp [Ne.symm same, same]

@[simp]
theorem clientOf_setRule (worker : Nat) (rule : Option Nat) (other : Nat) :
    (manager.setRule worker rule).clientOf other = manager.clientOf other := by
  unfold LldManager.clientOf LldManager.setRule
  rw [getElem?_modify]
  by_cases same : worker = other
  · subst same
    cases manager.workers[worker]? <;> simp
  · simp [same]

@[simp]
theorem length_setRule (worker : Nat) (rule : Option Nat) :
    (manager.setRule worker rule).workers.length = manager.workers.length :=
  length_modify _ _ _

end Zabbix.Lld.Manager
