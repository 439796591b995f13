import Zabbix.Library.Exclusion
import Zabbix.Library.Transition
import Zabbix.Lld.Manager

/-!
# Runs of the low-level discovery manager

Workers register and answer, and values arrive, in any order.  `Correct` says where every
value and every host is.  It holds in all states of a run if and only if no worker
registers while a host waits: only a request sends waiting hosts to free workers.
-/

namespace Zabbix.Lld.Discovery

open Algo.BinaryHeap Library Library.Exclusion Library.KeyedTable Manager List Option

/-- A request, and the values of its host that are held when it arrives. -/
structure Arrival where
  hostid : Nat
  data : LldData
  held : List LldData

/-- The manager, and what it has received and sent so far. -/
structure State where
  manager : LldManager
  registered : List Nat := []
  arrivals : List Arrival := []
  sent : List Task := []
  outstanding : List Task := []

/-- The value carries no meta information, and equals the last held value of its item. -/
def Repeats (held : List LldData) (data : LldData) : Prop :=
  data.metaInfo = 0 ∧ ∃ before last after, held = before ++ last :: after ∧
    last.itemid = data.itemid ∧ (∀ later ∈ after, later.itemid ≠ data.itemid) ∧
    last.error = data.error ∧ last.value = data.value

def valuesOf (manager : LldManager) (hostid : Nat) : List LldData :=
  ((manager.ruleIndex.lookup hostid).map LldRule.values).getD []

/-- The hosts in `rule_queue`. -/
def hosts (manager : LldManager) : List Nat :=
  manager.ruleQueue.elems.map Elem.data

def initial (lldworkerForks : Nat) : State where
  manager := lldManagerInit lldworkerForks

def step (parent : Nat) (state : State) (message : Message) : Option State :=
  (handle parent state.manager message).map fun (manager, tasks) =>
    match message with
    | .register client ppid =>
      { state with
        manager
        registered := if ppid = parent then state.registered ++ [client] else state.registered }
    | .request hostid data =>
      { state with
        manager
        arrivals := state.arrivals ++ [⟨hostid, data, valuesOf state.manager hostid⟩]
        sent := state.sent ++ tasks
        outstanding := state.outstanding ++ tasks }
    | .done client =>
      { state with
        manager
        sent := state.sent ++ tasks
        outstanding :=
          state.outstanding.filter (fun task => task.client ≠ client) ++ tasks }

/-- What the processes around the manager do: a worker registers once, there are no more workers
than configured, and a worker answers only a task it was given. -/
def Allowed (parent : Nat) (state : State) : Message → Prop
  | .register client ppid =>
    ppid = parent → client ∉ state.registered ∧
      state.registered.length < state.manager.workers.length
  | .request _ _ => True
  | .done client => ∃ task ∈ state.outstanding, task.client = client

open scoped Classical in
/-- The values of a host that were not dropped. -/
noncomputable def accepted (arrivals : List Arrival) (hostid : Nat) : List LldData :=
  (arrivals.filter fun arrival =>
    arrival.hostid = hostid ∧ ¬Repeats arrival.held arrival.data).map Arrival.data

/-- The values of a host that were sent, to whichever worker. -/
def sentTo (sent : List Task) (hostid : Nat) : List LldData :=
  (sent.filter fun task => task.hostid = hostid).map Task.data

def working (manager : LldManager) (hostid : Nat) : Bool :=
  manager.workers.any fun worker => worker.rule = some hostid

/-- The held values of a host but for the one that a worker processes. -/
def unsent (manager : LldManager) (hostid : Nat) : List LldData :=
  if working manager hostid then (valuesOf manager hostid).tail else valuesOf manager hostid

structure Correct (state : State) : Prop where
  handled : ∀ hostid,
    accepted state.arrivals hostid = sentTo state.sent hostid ++ unsent state.manager hostid
  located : ∀ hostid, valuesOf state.manager hostid ≠ [] →
    ((hosts state.manager).count hostid = 1 ∧
        ∀ worker, state.manager.ruleOf worker ≠ some hostid) ∨
      (hostid ∉ hosts state.manager ∧ ∃! worker, state.manager.ruleOf worker = some hostid)
  assigned : ∀ task, task ∈ state.outstanding ↔
    ∃ worker, state.manager.ruleOf worker = some task.hostid ∧
      state.manager.clientOf worker = some task.client ∧
        (valuesOf state.manager task.hostid).head? = some task.data
  oneClient : (state.outstanding.map Task.client).Nodup
  oneHost : (state.outstanding.map Task.hostid).Nodup
  counted : state.manager.queuedNum =
    total (fun rule => rule.values.length) state.manager.ruleIndex
  noIdle : ∀ worker client, state.manager.clientOf worker = some client →
    state.manager.ruleOf worker = none → hosts state.manager = []

/-! ## What the manager keeps -/

/-- Where the hosts are: at `none` those in the heap, at a worker the one it processes. -/
def places (manager : LldManager) : Option Nat → List Nat
  | none => hosts manager
  | some worker => (manager.ruleOf worker).toList

structure Stored (manager : LldManager) : Prop where
  plain : manager.ruleQueue.direct = false
  located : Exclusive (places manager) fun hostid => (manager.ruleIndex.lookup hostid).isSome

/-- `registered` are the clients of the workers in use, and `idle` the workers without a rule. -/
structure Staffed (manager : LldManager) (registered idle : List Nat) : Prop where
  next : manager.nextWorkerIndex = registered.length
  room : registered.length ≤ manager.workers.length
  indexed : manager.workersClient = range registered.length
  clients : ∀ worker, manager.clientOf worker = registered[worker]?
  distinct : registered.Nodup
  idleDistinct : idle.Nodup
  idle : ∀ worker, worker ∈ idle ↔
    worker < registered.length ∧ manager.ruleOf worker = none
  busy : ∀ worker hostid, manager.ruleOf worker = some hostid → worker < registered.length

structure Delivered (manager : LldManager) (accepted : Nat → List LldData)
    (sent outstanding : List Task) : Prop where
  handled : ∀ hostid, accepted hostid = sentTo sent hostid ++ unsent manager hostid
  assigned : ∀ task, task ∈ outstanding ↔
    ∃ worker, manager.ruleOf worker = some task.hostid ∧
      manager.clientOf worker = some task.client ∧
        (valuesOf manager task.hostid).head? = some task.data
  oneClient : (outstanding.map Task.client).Nodup

variable {manager next : LldManager} {registered idle : List Nat} {worker hostid : Nat}
variable {taken : Nat → List LldData} {sent outstanding : List Task}

theorem working_iff : working manager hostid = true ↔
    ∃ worker, manager.ruleOf worker = some hostid := by
  simp only [working, List.any_eq_true, decide_eq_true_eq, mem_iff_getElem?,
    LldManager.ruleOf, bind_eq_some_iff]
  constructor
  · rintro ⟨worker, ⟨index, found⟩, busy⟩
    exact ⟨index, worker, found, busy⟩
  · rintro ⟨index, worker, found, busy⟩
    exact ⟨worker, ⟨index, found⟩, busy⟩

theorem unsent_eq_of_working (isBusy : manager.ruleOf worker = some hostid) :
    unsent manager hostid = (valuesOf manager hostid).tail :=
  if_pos (working_iff.mpr ⟨worker, isBusy⟩)

theorem unsent_eq_of_not_working (isFree : ∀ worker, manager.ruleOf worker ≠ some hostid) :
    unsent manager hostid = valuesOf manager hostid :=
  if_neg fun busy => by
    obtain ⟨worker, isBusy⟩ := working_iff.mp busy
    exact isFree worker isBusy

theorem unsent_congr (sameValues : valuesOf next hostid = valuesOf manager hostid)
    (sameWorkers : ∀ worker, next.ruleOf worker = some hostid ↔
      manager.ruleOf worker = some hostid) :
    unsent next hostid = unsent manager hostid := by
  have same : working next hostid = working manager hostid := by
    rw [Bool.eq_iff_iff, working_iff, working_iff]
    exact exists_congr sameWorkers
  rw [unsent, unsent, same, sameValues]

theorem sentTo_append (first second : List Task) (hostid : Nat) :
    sentTo (first ++ second) hostid = sentTo first hostid ++ sentTo second hostid := by
  simp [sentTo]

theorem valuesOf_eq {rule : LldRule} (found : manager.ruleIndex.lookup hostid = some rule) :
    valuesOf manager hostid = rule.values := by
  simp [valuesOf, found]

theorem valuesOf_ne_nil :
    valuesOf manager hostid ≠ [] ↔ (manager.ruleIndex.lookup hostid).isSome := by
  unfold valuesOf
  cases manager.ruleIndex.lookup hostid with
  | none => simp
  | some rule => simp [LldRule.values]

theorem mem_places_some :
    hostid ∈ places manager (some worker) ↔ manager.ruleOf worker = some hostid :=
  mem_toList

theorem places_setRule (manager : LldManager) (inside : worker < manager.workers.length)
    (rule : Option Nat) :
    places (manager.setRule worker rule) =
      Function.update (places manager) (some worker) rule.toList := by
  funext place
  cases place with
  | none => rfl
  | some other =>
    simp only [places, ruleOf_setRule manager inside, Function.update_apply, some.injEq]
    by_cases same : other = worker
    · rw [if_pos same, if_pos same]
    · rw [if_neg same, if_neg same]

theorem places_ruleQueue (manager : LldManager) (ruleQueue : Heap Nat) :
    places { manager with ruleQueue } =
      Function.update (places manager) none (ruleQueue.elems.map Elem.data) := by
  funext place
  cases place with
  | none => rfl
  | some other => rfl

theorem Stored.free_of_waiting (stored : Stored manager) (waiting : hostid ∈ hosts manager)
    (worker : Nat) : manager.ruleOf worker ≠ some hostid := by
  intro busy
  have same := stored.located.apart none (some worker) hostid waiting (mem_places_some.mpr busy)
  cases same

theorem Stored.unique (stored : Stored manager) {other : Nat}
    (first : manager.ruleOf worker = some hostid) (second : manager.ruleOf other = some hostid) :
    worker = other :=
  some.inj (stored.located.apart (some worker) (some other) hostid
    (mem_places_some.mpr first) (mem_places_some.mpr second))

/-! ## Sending the next value -/

theorem next_spec (stored : Stored manager)
    (staffed : Staffed manager registered (worker :: idle))
    (waiting : zbxBinaryHeapEmpty manager.ruleQueue = false) :
    ∃ hostid rule client ruleQueue,
      lldProcessNextRequest manager worker =
        some ({ manager with ruleQueue }.setRule worker (some hostid),
          ⟨client, hostid, rule.head⟩) ∧
      manager.ruleIndex.lookup hostid = some rule ∧
      manager.clientOf worker = some client ∧
      ruleQueue.direct = false ∧
      (hosts manager).Perm (hostid :: ruleQueue.elems.map Elem.data) := by
  have nonempty : manager.ruleQueue.elems ≠ [] := by
    simpa [zbxBinaryHeapEmpty] using waiting
  obtain ⟨minimum, others, shape⟩ := exists_cons_of_ne_nil nonempty
  have found : zbxBinaryHeapFindMin manager.ruleQueue = some minimum := by
    rw [zbxBinaryHeapFindMin, shape]
    rfl
  obtain ⟨ruleQueue, removed⟩ :=
    removeMin_isSome (ruleElemCompareFunc manager.ruleIndex) found
  have permuted := (removeMin_elems_perm found removed).map Elem.data
  have isHost : minimum.data ∈ places manager none :=
    permuted.mem_iff.mpr mem_cons_self
  obtain ⟨rule, isRule⟩ :=
    isSome_iff_exists.mp ((stored.located.exact minimum.data).mpr ⟨none, isHost⟩)
  have inside := ((staffed.idle worker).mp mem_cons_self).1
  have isClient := (staffed.clients worker).trans (getElem?_eq_getElem inside)
  refine ⟨minimum.data, rule, _, ruleQueue, ?_, isRule, isClient, ?_, permuted⟩
  · rw [lldProcessNextRequest, found, bind_some, removed, bind_some, isRule,
      bind_some, isClient, map_some]
  · rw [removeMin_direct removed, stored.plain]

variable {ruleQueue : Heap Nat}

theorem assign_stored (stored : Stored manager)
    (staffed : Staffed manager registered (worker :: idle))
    (plain : ruleQueue.direct = false)
    (permuted : (hosts manager).Perm (hostid :: ruleQueue.elems.map Elem.data)) :
    Stored ({ manager with ruleQueue }.setRule worker (some hostid)) where
  plain := plain
  located := by
    obtain ⟨inside, isFree⟩ := (staffed.idle worker).mp mem_cons_self
    have apart : some worker ≠ none := nofun
    have moved := exclusive_transfer (exclusive_perm stored.located permuted.symm) apart
      (Function.update_self _ _ _)
    rw [Function.update_idem, Function.update_of_ne apart] at moved
    rw [places_setRule { manager with ruleQueue } (inside.trans_le staffed.room), places_ruleQueue]
    have isEmpty : places manager (some worker) = [] := by simp [places, isFree]
    rw [isEmpty] at moved
    exact moved

theorem assign_staffed (staffed : Staffed manager registered (worker :: idle)) :
    Staffed ({ manager with ruleQueue }.setRule worker (some hostid)) registered idle := by
  obtain ⟨inside, isFree⟩ := (staffed.idle worker).mp mem_cons_self
  have ruleOf := ruleOf_setRule { manager with ruleQueue } (inside.trans_le staffed.room)
    (some hostid)
  have notIdle := (nodup_cons.mp staffed.idleDistinct).1
  constructor
  case next => exact staffed.next
  case room => exact staffed.room.trans_eq (length_setRule _ _ _).symm
  case indexed => exact staffed.indexed
  case clients =>
    intro other
    rw [clientOf_setRule]
    exact staffed.clients other
  case distinct => exact staffed.distinct
  case idleDistinct => exact (nodup_cons.mp staffed.idleDistinct).2
  case idle =>
    intro other
    rw [ruleOf]
    by_cases same : other = worker
    · subst same
      simp [notIdle]
    · rw [if_neg same]
      have before := staffed.idle other
      rwa [mem_cons, or_iff_right same] at before
  case busy =>
    intro other host isBusy
    rw [ruleOf] at isBusy
    by_cases same : other = worker
    · exact same ▸ inside
    · rw [if_neg same] at isBusy
      exact staffed.busy other host isBusy

theorem assign_delivered (stored : Stored manager)
    (staffed : Staffed manager registered (worker :: idle))
    (delivered : Delivered manager taken sent outstanding)
    (waiting : hostid ∈ hosts manager) {rule : LldRule} {client : Nat}
    (isRule : manager.ruleIndex.lookup hostid = some rule)
    (isClient : manager.clientOf worker = some client) :
    Delivered ({ manager with ruleQueue }.setRule worker (some hostid)) taken
      (sent ++ [⟨client, hostid, rule.head⟩]) (outstanding ++ [⟨client, hostid, rule.head⟩]) := by
  obtain ⟨inside, isFree⟩ := (staffed.idle worker).mp mem_cons_self
  have ruleOf := ruleOf_setRule { manager with ruleQueue } (inside.trans_le staffed.room)
    (some hostid)
  have values : valuesOf manager hostid = rule.head :: rule.rest := valuesOf_eq isRule
  constructor
  case handled =>
    intro host
    rw [delivered.handled host, sentTo_append, append_assoc]
    congr 1
    by_cases same : host = hostid
    · subst same
      have isBusy : ({ manager with ruleQueue }.setRule worker (some host)).ruleOf worker =
          some host := by rw [ruleOf, if_pos rfl]
      rw [unsent_eq_of_working isBusy, unsent_eq_of_not_working (stored.free_of_waiting waiting)]
      change valuesOf manager host = _ ++ (valuesOf manager host).tail
      simp [values, sentTo]
    · have others : sentTo [⟨client, hostid, rule.head⟩] host = [] := by
        simp [sentTo, Ne.symm same]
      rw [others, nil_append]
      symm
      apply unsent_congr (by rfl)
      intro other
      rw [ruleOf]
      by_cases isWorker : other = worker
      · simp [isWorker, Ne.symm same, isFree]
      · rw [if_neg isWorker]
        rfl
  case assigned =>
    intro task
    rw [mem_append, mem_singleton, delivered.assigned task]
    simp only [clientOf_setRule, ruleOf]
    constructor
    · rintro (⟨other, isBusy, isTheirs, isFirst⟩ | rfl)
      · have different : other ≠ worker := by
          rintro rfl
          rw [isFree] at isBusy
          cases isBusy
        exact ⟨other, by rw [if_neg different]; exact isBusy, isTheirs, isFirst⟩
      · exact ⟨worker, if_pos rfl, isClient, congrArg head? values⟩
    · rintro ⟨other, isBusy, isTheirs, isFirst⟩
      by_cases same : other = worker
      · subst same
        rw [if_pos rfl, some.injEq] at isBusy
        right
        obtain ⟨theirs, host, data⟩ := task
        obtain rfl := isBusy
        obtain rfl := some.inj (isTheirs.symm.trans isClient)
        obtain rfl := some.inj (isFirst.symm.trans (congrArg head? values))
        rfl
      · rw [if_neg same] at isBusy
        exact Or.inl ⟨other, isBusy, isTheirs, isFirst⟩
  case oneClient =>
    rw [map_append, map_singleton, nodup_append]
    refine ⟨delivered.oneClient, nodup_singleton _, ?_⟩
    intro first isFirst second isSecond
    rw [mem_singleton] at isSecond
    subst isSecond
    obtain ⟨task, member, rfl⟩ := List.mem_map.mp isFirst
    obtain ⟨other, isBusy, isTheirs, -⟩ := (delivered.assigned task).mp member
    intro same
    have sameWorker : other = worker := by
      rw [same, ← isClient, staffed.clients, staffed.clients] at isTheirs
      exact (getElem?_inj (staffed.busy other _ isBusy) staffed.distinct).mp isTheirs
    rw [sameWorker, isFree] at isBusy
    cases isBusy

/-- Everything the manager keeps, with `idle` for its free workers. -/
structure Coherent (manager : LldManager) (registered idle : List Nat)
    (taken : Nat → List LldData) (sent outstanding : List Task) : Prop where
  stored : Stored manager
  staffed : Staffed manager registered idle
  delivered : Delivered manager taken sent outstanding

theorem processNextRequest_spec
    (coherent : Coherent manager registered (worker :: idle) taken sent outstanding)
    (waiting : zbxBinaryHeapEmpty manager.ruleQueue = false) :
    ∃ next task, lldProcessNextRequest manager worker = some (next, task) ∧
      Coherent next registered idle taken (sent ++ [task]) (outstanding ++ [task]) ∧
      next.freeWorkers = manager.freeWorkers ∧ next.ruleIndex = manager.ruleIndex ∧
      next.queuedNum = manager.queuedNum ∧
      (hosts manager).length = (hosts next).length + 1 := by
  obtain ⟨stored, staffed, delivered⟩ := coherent
  obtain ⟨hostid, rule, client, ruleQueue, processed, isRule, isClient, plain, permuted⟩ :=
    next_spec stored staffed waiting
  have isHost : hostid ∈ hosts manager := permuted.mem_iff.mpr mem_cons_self
  exact ⟨_, _, processed, ⟨assign_stored stored staffed plain permuted, assign_staffed staffed,
      assign_delivered stored staffed delivered isHost isRule isClient⟩,
    rfl, rfl, rfl, permuted.length_eq⟩

theorem processFreeWorkers_spec {free : List Nat}
    (coherent : Coherent manager registered free taken sent outstanding)
    (isFree : manager.freeWorkers = free) :
    ∃ next tasks, processFreeWorkers free manager = some (next, tasks) ∧
      Coherent next registered next.freeWorkers taken (sent ++ tasks) (outstanding ++ tasks) ∧
      next.ruleIndex = manager.ruleIndex ∧ next.queuedNum = manager.queuedNum ∧
      (next.freeWorkers ≠ [] → hosts next = []) := by
  induction free generalizing manager sent outstanding with
  | nil =>
    refine ⟨manager, [], rfl, ?_, rfl, rfl, fun someFree => absurd isFree someFree⟩
    rwa [isFree, append_nil, append_nil]
  | cons worker rest ih =>
    rw [processFreeWorkers]
    cases waiting : zbxBinaryHeapEmpty manager.ruleQueue with
    | true =>
      refine ⟨manager, [], rfl, ?_, rfl, rfl, fun _ => ?_⟩
      · rwa [isFree, append_nil, append_nil]
      · rw [zbxBinaryHeapEmpty, List.isEmpty_iff] at waiting
        rw [hosts, waiting, map_nil]
    | false =>
      have popped : Coherent { manager with freeWorkers := rest } registered (worker :: rest)
          taken sent outstanding :=
        ⟨⟨coherent.stored.plain, coherent.stored.located⟩,
          { coherent.staffed with }, { coherent.delivered with }⟩
      obtain ⟨middle, task, processed, after, sameFree, sameIndex, sameNum, -⟩ :=
        processNextRequest_spec popped waiting
      obtain ⟨next, tasks, later, final, finalIndex, finalNum, ends⟩ :=
        ih after sameFree
      refine ⟨next, task :: tasks, ?_, ?_, finalIndex.trans sameIndex,
        finalNum.trans sameNum, ends⟩
      · simp only [Bool.false_eq_true, if_false, processed, bind_some, later,
          map_some]
      · simpa only [append_assoc, singleton_append] using final

/-! ## Requests -/

theorem skipsRepeating_iff {rule : LldRule} {data : LldData} :
    skipsRepeating rule data = true ↔ Repeats rule.values data := by
  unfold skipsRepeating Repeats
  rw [Bool.and_eq_true, decide_eq_true_eq]
  refine and_congr_right fun _ => ?_
  cases found : rule.values.reverse.find? fun dataPtr => dataPtr.itemid = data.itemid with
  | none =>
    simp only [Bool.false_eq_true, false_iff, not_exists]
    rintro before last after ⟨held, sameItem, -⟩
    have absent := find?_eq_none.mp found last (by simp [held])
    simp [sameItem] at absent
  | some dataPtr =>
    obtain ⟨isItem, after, before, split, others⟩ := find?_eq_some_iff_append.mp found
    have held : rule.values = before.reverse ++ dataPtr :: after.reverse := by
      rw [← reverse_reverse rule.values, split]
      simp
    simp only [decide_eq_true_eq, Bool.and_eq_true] at isItem ⊢
    constructor
    · rintro ⟨sameError, sameValue⟩
      refine ⟨before.reverse, dataPtr, after.reverse, held, isItem, ?_, sameError, sameValue⟩
      intro later member
      simpa using others later (mem_reverse.mp member)
    · rintro ⟨before', last, after', held', sameItem, others', sameError, sameValue⟩
      obtain rfl : dataPtr = last := by
        have again := found
        rw [held', reverse_append, reverse_cons, append_assoc, find?_append] at again
        have skipped : after'.reverse.find? (fun dataPtr => dataPtr.itemid = data.itemid) =
            none := by
          rw [find?_eq_none]
          intro later member
          simpa using others' later (mem_reverse.mp member)
        rw [skipped] at again
        simpa [sameItem] using again.symm
      exact ⟨sameError, sameValue⟩

theorem queueRule_spec (manager : LldManager) (plain : manager.ruleQueue.direct = false)
    (hostid : Nat) :
    ∃ ruleQueue, lldQueueRule manager hostid = some { manager with ruleQueue } ∧
      ruleQueue.direct = false ∧
      (ruleQueue.elems.map Elem.data).Perm (hosts manager ++ [hostid]) := by
  obtain ⟨ruleQueue, inserted⟩ :=
    insert_isSome (ruleElemCompareFunc manager.ruleIndex) plain ⟨hostid, hostid⟩
  refine ⟨ruleQueue, ?_, ?_, ?_⟩
  · rw [lldQueueRule, inserted, map_some]
  · rw [insert_direct inserted, plain]
  · exact ((insert_elems_perm inserted).map Elem.data).trans
      (perm_append_singleton hostid (hosts manager)).symm

theorem valuesOf_insert (manager : LldManager) (hostid other : Nat) (rule : LldRule) :
    valuesOf { manager with ruleIndex := manager.ruleIndex.insert hostid rule } other =
      if other = hostid then rule.values else valuesOf manager other := by
  unfold valuesOf
  rw [lookup_insert_eq]
  by_cases same : other = hostid
  · rw [if_pos same, if_pos same]
    rfl
  · rw [if_neg same, if_neg same]

theorem isSome_lookup_insert {rules : Table Nat LldRule} {rule : LldRule} (other : Nat) :
    ((rules.insert hostid rule).lookup other).isSome ↔
      (rules.lookup other).isSome ∨ other = hostid := by
  rw [lookup_insert_eq]
  by_cases same : other = hostid
  · simp [same]
  · simp [same]

/-- The values of a host after a new one. -/
def take (taken : Nat → List LldData) (hostid : Nat) (data : LldData) : Nat → List LldData :=
  Function.update taken hostid (taken hostid ++ [data])

theorem take_delivered (delivered : Delivered manager taken sent outstanding) {data : LldData}
    (values : ∀ other, valuesOf next other =
      if other = hostid then valuesOf manager hostid ++ [data] else valuesOf manager other)
    (nonempty : valuesOf manager hostid = [] → ∀ worker, manager.ruleOf worker ≠ some hostid)
    (sameWorkers : next.workers = manager.workers) :
    Delivered next (take taken hostid data) sent outstanding := by
  have sameRules (worker : Nat) : next.ruleOf worker = manager.ruleOf worker := by
    rw [LldManager.ruleOf, LldManager.ruleOf, sameWorkers]
  have sameClients (worker : Nat) : next.clientOf worker = manager.clientOf worker := by
    rw [LldManager.clientOf, LldManager.clientOf, sameWorkers]
  constructor
  case handled =>
    intro other
    by_cases same : other = hostid
    · subst same
      rw [take, Function.update_self, delivered.handled, append_assoc]
      congr 1
      have ownValues := values other
      rw [if_pos rfl] at ownValues
      by_cases busy : ∃ worker, manager.ruleOf worker = some other
      · obtain ⟨worker, isBusy⟩ := busy
        rw [unsent_eq_of_working isBusy,
          unsent_eq_of_working ((sameRules worker).trans isBusy), ownValues]
        cases held : valuesOf manager other with
        | nil => exact absurd isBusy (nonempty held worker)
        | cons first rest => rfl
      · rw [not_exists] at busy
        rw [unsent_eq_of_not_working busy, unsent_eq_of_not_working, ownValues]
        intro worker
        rw [sameRules]
        exact busy worker
    · have sameValues := values other
      rw [if_neg same] at sameValues
      rw [take, Function.update_of_ne same, delivered.handled]
      congr 1
      refine (unsent_congr sameValues fun worker => ?_).symm
      rw [sameRules]
  case assigned =>
    intro task
    rw [delivered.assigned]
    refine exists_congr fun worker => ?_
    rw [sameRules, sameClients, values]
    refine and_congr_right fun isBusy => and_congr_right fun _ => ?_
    by_cases same : task.hostid = hostid
    · rw [if_pos same]
      cases held : valuesOf manager hostid with
      | nil => exact absurd (same ▸ isBusy) (nonempty held worker)
      | cons first rest => rw [same, held]; rfl
    · rw [if_neg same]
  case oneClient => exact delivered.oneClient

theorem not_repeats_nil (data : LldData) : ¬Repeats [] data := by
  rintro ⟨-, before, last, after, held, -⟩
  cases before <;> cases held

/-- The counter of the manager is the number of values it holds. -/
def Counted (manager : LldManager) : Prop :=
  manager.queuedNum = total (fun rule => rule.values.length) manager.ruleIndex

/-- The first value of a host makes a rule and puts it into the heap. -/
theorem queueRequest_new
    (coherent : Coherent manager registered idle taken sent outstanding)
    (absent : manager.ruleIndex.lookup hostid = none) (data : LldData) :
    ∃ next, lldQueueRequest manager hostid data = some next ∧
      Coherent next registered idle (take taken hostid data) sent outstanding ∧
      next.freeWorkers = manager.freeWorkers ∧ (Counted manager → Counted next) := by
  obtain ⟨stored, staffed, delivered⟩ := coherent
  obtain ⟨ruleQueue, queued, plain, permuted⟩ :=
    queueRule_spec { manager with
      ruleIndex := manager.ruleIndex.insert hostid ⟨hostid, 0, data, []⟩ } stored.plain hostid
  have notHeld : ¬∃ place, hostid ∈ places manager place := by
    rw [← stored.located.exact, absent]
    exact Bool.false_ne_true
  have noValues : valuesOf manager hostid = [] := by
    rw [valuesOf, absent]
    rfl
  have marked (other : Nat) :
      ((manager.ruleIndex.insert hostid ⟨hostid, 1, data, []⟩).lookup other).isSome ↔
        (manager.ruleIndex.lookup other).isSome ∨ other ∈ [hostid] := by
    rw [isSome_lookup_insert, mem_singleton]
  have granted := exclusive_grant stored.located none (nodup_singleton hostid)
    (by simp [absent]) marked
  have reordered : (ruleQueue.elems.map Elem.data).Perm
      (Function.update (places manager) none (places manager none ++ [hostid]) none) := by
    rw [Function.update_self]
    exact permuted
  have located := exclusive_perm granted reordered
  rw [Function.update_idem] at located
  refine ⟨{ manager with
      ruleQueue
      ruleIndex := manager.ruleIndex.insert hostid ⟨hostid, 1, data, []⟩
      queuedNum := manager.queuedNum + 1 },
    ?_, ⟨⟨plain, ?_⟩, { staffed with }, take_delivered delivered ?_ ?_ rfl⟩, rfl, ?_⟩
  · unfold lldQueueRequest
    simp only [absent, queued, map_some, AList.insert_insert, zero_add]
  · exact cast (congrArg₂ Exclusive (places_ruleQueue manager ruleQueue).symm rfl) located
  · intro other
    rw [noValues]
    exact valuesOf_insert manager hostid other _
  · intro _ worker isBusy
    exact notHeld ⟨some worker, mem_places_some.mpr isBusy⟩
  · intro counted
    unfold Counted at counted ⊢
    rw [total_insert_of_absent _ _ absent, counted, Nat.add_comm]
    rfl

theorem queueRequest_known
    (coherent : Coherent manager registered idle taken sent outstanding) {rule : LldRule}
    (isRule : manager.ruleIndex.lookup hostid = some rule) {data : LldData}
    (new : ¬Repeats (valuesOf manager hostid) data) :
    ∃ next, lldQueueRequest manager hostid data = some next ∧
      Coherent next registered idle (take taken hostid data) sent outstanding ∧
      next.freeWorkers = manager.freeWorkers ∧ (Counted manager → Counted next) := by
  obtain ⟨stored, staffed, delivered⟩ := coherent
  have values := valuesOf_eq isRule
  rw [values, ← skipsRepeating_iff] at new
  refine ⟨{ manager with
      ruleIndex := manager.ruleIndex.insert hostid
        { rule with rest := rule.rest ++ [data], valuesNum := rule.valuesNum + 1 }
      queuedNum := manager.queuedNum + 1 },
    ?_, ⟨⟨stored.plain, ?_⟩, { staffed with }, take_delivered delivered ?_ ?_ rfl⟩, rfl, ?_⟩
  · unfold lldQueueRequest
    simp only [isRule, if_neg new]
  · refine exclusive_congr stored.located fun other => ?_
    rw [isSome_lookup_insert, or_iff_left_of_imp]
    rintro rfl
    rw [isRule]
    rfl
  · intro other
    rw [values]
    exact valuesOf_insert manager hostid other _
  · intro noValues
    rw [values] at noValues
    cases noValues
  · intro counted
    unfold Counted at counted ⊢
    have changed := total_insert_add (fun rule : LldRule => rule.values.length)
      { rule with rest := rule.rest ++ [data], valuesNum := rule.valuesNum + 1 } isRule
    simp only [LldRule.values, length_cons, length_append, length_nil]
      at changed counted ⊢
    omega

theorem queueRequest_repeating {rule : LldRule} {data : LldData}
    (isRule : manager.ruleIndex.lookup hostid = some rule)
    (old : Repeats (valuesOf manager hostid) data) :
    lldQueueRequest manager hostid data = some manager := by
  rw [valuesOf_eq isRule, ← skipsRepeating_iff] at old
  unfold lldQueueRequest
  simp only [isRule, if_pos old]

theorem queueRequest_spec
    (coherent : Coherent manager registered idle taken sent outstanding) (hostid : Nat)
    (data : LldData) :
    (Repeats (valuesOf manager hostid) data ∧
        lldQueueRequest manager hostid data = some manager) ∨
      (¬Repeats (valuesOf manager hostid) data ∧
        ∃ next, lldQueueRequest manager hostid data = some next ∧
          Coherent next registered idle (take taken hostid data) sent outstanding ∧
          next.freeWorkers = manager.freeWorkers ∧ (Counted manager → Counted next)) := by
  cases isRule : manager.ruleIndex.lookup hostid with
  | none =>
    refine Or.inr ⟨?_, queueRequest_new coherent isRule data⟩
    rw [valuesOf, isRule]
    exact not_repeats_nil data
  | some rule =>
    by_cases old : Repeats (valuesOf manager hostid) data
    · exact Or.inl ⟨old, queueRequest_repeating isRule old⟩
    · exact Or.inr ⟨old, queueRequest_known coherent isRule old⟩

/-! ## Answers -/

theorem finish_staffed (staffed : Staffed manager registered idle)
    (isBusy : manager.ruleOf worker = some hostid) :
    Staffed (manager.setRule worker none) registered (worker :: idle) := by
  have inside := staffed.busy worker hostid isBusy
  have ruleOf := ruleOf_setRule manager (inside.trans_le staffed.room) none
  constructor
  case next => exact staffed.next
  case room => exact staffed.room.trans_eq (length_setRule _ _ _).symm
  case indexed => exact staffed.indexed
  case clients =>
    intro other
    rw [clientOf_setRule]
    exact staffed.clients other
  case distinct => exact staffed.distinct
  case idleDistinct =>
    refine nodup_cons.mpr ⟨fun isIdle => ?_, staffed.idleDistinct⟩
    rw [staffed.idle, isBusy] at isIdle
    cases isIdle.2
  case idle =>
    intro other
    rw [ruleOf, mem_cons, staffed.idle]
    by_cases same : other = worker
    · simp [same, inside]
    · simp [same]
  case busy =>
    intro other host otherBusy
    rw [ruleOf] at otherBusy
    by_cases same : other = worker
    · exact same ▸ inside
    · rw [if_neg same] at otherBusy
      exact staffed.busy other host otherBusy

theorem finish_delivered (coherent : Coherent manager registered idle taken sent outstanding)
    (isBusy : manager.ruleOf worker = some hostid) {client : Nat}
    (isClient : manager.clientOf worker = some client)
    (values : ∀ other, valuesOf next other =
      if other = hostid then (valuesOf manager hostid).tail else valuesOf manager other)
    (sameWorkers : next.workers = (manager.setRule worker none).workers) :
    Delivered next taken sent (outstanding.filter fun task => task.client ≠ client) := by
  obtain ⟨stored, staffed, delivered⟩ := coherent
  have inside := (staffed.busy worker hostid isBusy).trans_le staffed.room
  have ruleOf (other : Nat) :
      next.ruleOf other = if other = worker then none else manager.ruleOf other := by
    rw [← ruleOf_setRule manager inside, LldManager.ruleOf, LldManager.ruleOf, sameWorkers]
  have clientOf (other : Nat) : next.clientOf other = manager.clientOf other := by
    rw [← clientOf_setRule manager worker none, LldManager.clientOf, LldManager.clientOf,
      sameWorkers]
  constructor
  case handled =>
    intro other
    rw [delivered.handled]
    congr 1
    have ownValues := values other
    by_cases same : other = hostid
    · subst same
      rw [if_pos rfl] at ownValues
      rw [unsent_eq_of_working isBusy, unsent_eq_of_not_working, ownValues]
      intro another
      rw [ruleOf]
      by_cases isWorker : another = worker
      · rw [if_pos isWorker]
        nofun
      · rw [if_neg isWorker]
        exact fun alsoBusy => isWorker (stored.unique alsoBusy isBusy)
    · rw [if_neg same] at ownValues
      refine (unsent_congr ownValues fun another => ?_).symm
      rw [ruleOf]
      by_cases isWorker : another = worker
      · simp [isWorker, isBusy, Ne.symm same]
      · rw [if_neg isWorker]
  case assigned =>
    intro task
    rw [mem_filter, delivered.assigned, decide_eq_true_eq]
    constructor
    · rintro ⟨⟨other, otherBusy, isTheirs, isFirst⟩, notClient⟩
      have notWorker : other ≠ worker := by
        rintro rfl
        exact notClient (some.inj (isTheirs.symm.trans isClient))
      have notHost : task.hostid ≠ hostid := by
        intro same
        exact notWorker (stored.unique (same ▸ otherBusy) isBusy)
      exact ⟨other, by rw [ruleOf, if_neg notWorker, otherBusy], by rw [clientOf, isTheirs],
        by rw [values, if_neg notHost, isFirst]⟩
    · rintro ⟨other, otherBusy, isTheirs, isFirst⟩
      rw [ruleOf] at otherBusy
      rw [clientOf] at isTheirs
      by_cases same : other = worker
      · rw [if_pos same] at otherBusy
        cases otherBusy
      · rw [if_neg same] at otherBusy
        have notHost : task.hostid ≠ hostid := by
          intro sameHost
          exact same (stored.unique (sameHost ▸ otherBusy) isBusy)
        rw [values, if_neg notHost] at isFirst
        refine ⟨⟨other, otherBusy, isTheirs, isFirst⟩, fun sameClient => same ?_⟩
        rw [sameClient, ← isClient, staffed.clients, staffed.clients] at isTheirs
        exact (getElem?_inj (staffed.busy other _ otherBusy) staffed.distinct).mp isTheirs
  case oneClient =>
    exact delivered.oneClient.sublist (filter_sublist.map Task.client)

theorem valuesOf_erase (manager : LldManager) (hostid other : Nat) :
    valuesOf { manager with ruleIndex := manager.ruleIndex.erase hostid } other =
      if other = hostid then [] else valuesOf manager other := by
  unfold valuesOf
  rw [lookup_erase_eq]
  by_cases same : other = hostid
  · rw [if_pos same, if_pos same]
    rfl
  · rw [if_neg same, if_neg same]

/-- The processed value is gone, and the host waits again if it has more. -/
theorem finishValue_spec (coherent : Coherent manager registered idle taken sent outstanding)
    (isBusy : manager.ruleOf worker = some hostid) {rule : LldRule}
    (isRule : manager.ruleIndex.lookup hostid = some rule) {client : Nat}
    (isClient : manager.clientOf worker = some client) :
    ∃ next, lldFinishValue manager worker hostid rule = some next ∧
      Coherent next registered (worker :: idle) taken sent
        (outstanding.filter fun task => task.client ≠ client) ∧
      next.freeWorkers = manager.freeWorkers ∧ next.queuedNum = manager.queuedNum ∧
      total (fun rule => rule.values.length) next.ruleIndex + 1 =
        total (fun rule => rule.values.length) manager.ruleIndex ∧
      (hosts next).length ≤ (hosts manager).length + 1 := by
  have staffed := finish_staffed coherent.staffed isBusy
  have inside := (coherent.staffed.busy worker hostid isBusy).trans_le coherent.staffed.room
  have held : places manager (some worker) = [hostid] := by
    rw [places, isBusy]
    rfl
  have values := valuesOf_eq isRule
  have counted := total_eq_add_erase (fun rule : LldRule => rule.values.length) isRule
  unfold lldFinishValue
  cases remaining : rule.rest with
  | nil =>
    have marked (other : Nat) :
        ((manager.ruleIndex.erase hostid).lookup other).isSome ↔
          (manager.ruleIndex.lookup other).isSome ∧ other ≠ hostid := by
      rw [lookup_erase_eq]
      by_cases same : other = hostid
      · simp [same]
      · simp [same]
    have released := exclusive_release coherent.stored.located held marked
    refine ⟨_, rfl, ⟨⟨coherent.stored.plain, ?_⟩, { staffed with },
      finish_delivered coherent isBusy isClient ?_ rfl⟩, rfl, rfl, ?_, ?_⟩
    · exact cast (congrArg₂ Exclusive (places_setRule manager inside none).symm rfl) released
    · intro other
      rw [values, LldRule.values, remaining]
      exact valuesOf_erase (manager.setRule worker none) hostid other
    · rw [counted, LldRule.values, remaining]
      exact Nat.add_comm _ _
    · exact Nat.le_succ _
  | cons first rest =>
    let advanced : LldRule := { rule with head := first, rest, valuesNum := rule.valuesNum - 1 }
    obtain ⟨ruleQueue, queued, plain, permuted⟩ :=
      queueRule_spec { manager.setRule worker none with
        ruleIndex := manager.ruleIndex.insert hostid advanced } coherent.stored.plain hostid
    have moved := exclusive_transfer coherent.stored.located
      (show none ≠ some worker from nofun) held
    have reordered : (ruleQueue.elems.map Elem.data).Perm
        (Function.update (Function.update (places manager) (some worker) []) none
          (places manager none ++ [hostid]) none) := by
      rw [Function.update_self]
      exact permuted
    have located := exclusive_perm moved reordered
    rw [Function.update_idem, ← toList_none, ← places_setRule manager inside,
      ← places_ruleQueue] at located
    refine ⟨_, queued, ⟨⟨plain, exclusive_congr located ?_⟩, { staffed with },
      finish_delivered coherent isBusy isClient ?_ rfl⟩, rfl, rfl, ?_, ?_⟩
    · intro other
      change ((manager.ruleIndex.insert hostid advanced).lookup other).isSome ↔ _
      rw [isSome_lookup_insert, or_iff_left_of_imp]
      rintro rfl
      rw [isRule]
      rfl
    · intro other
      rw [values, LldRule.values, remaining]
      exact valuesOf_insert (manager.setRule worker none) hostid other advanced
    · have changed := total_insert_add (fun rule : LldRule => rule.values.length) advanced isRule
      simp only [LldRule.values, remaining, advanced, length_cons] at changed counted ⊢
      exact Nat.add_right_cancel (m := rest.length + 1) (by omega)
    · have sameLength := permuted.length_eq
      rw [length_append, length_singleton] at sameLength
      exact sameLength.le

/-- The order of the free workers does not matter. -/
theorem Staffed.perm (staffed : Staffed manager registered idle) {other : List Nat}
    (permuted : other.Perm idle) : Staffed manager registered other :=
  { staffed with
    idleDistinct := permuted.nodup_iff.mpr staffed.idleDistinct
    idle := fun worker => permuted.mem_iff.trans (staffed.idle worker) }

theorem getWorkerByClient_spec (staffed : Staffed manager registered idle) {client : Nat}
    (isClient : manager.clientOf worker = some client) :
    lldGetWorkerByClient manager client = some worker := by
  have found := isClient
  rw [staffed.clients] at found
  have inside := (List.getElem?_eq_some_iff.mp found).1
  have only (other : Nat) : manager.clientOf other = some client ↔ other = worker := by
    constructor
    · intro isOther
      rw [← isClient, staffed.clients, staffed.clients] at isOther
      exact ((getElem?_inj inside staffed.distinct).mp isOther.symm).symm
    · rintro rfl
      exact isClient
  rw [lldGetWorkerByClient, staffed.indexed]
  simp only [only]
  rw [find?_range_eq_some]
  refine ⟨by simp, mem_range.mpr inside, fun other below => ?_⟩
  simpa using below.ne

theorem processResult_spec
    (coherent : Coherent manager registered manager.freeWorkers taken sent outstanding)
    {task : Task} (given : task ∈ outstanding) :
    ∃ next tasks, lldProcessResult manager task.client = some (next, tasks) ∧
      Coherent next registered next.freeWorkers taken (sent ++ tasks)
        (outstanding.filter (fun other => other.client ≠ task.client) ++ tasks) ∧
      next.queuedNum = manager.queuedNum ∧
      total (fun rule => rule.values.length) next.ruleIndex + 1 =
        total (fun rule => rule.values.length) manager.ruleIndex ∧
      ((manager.freeWorkers ≠ [] → hosts manager = []) →
        next.freeWorkers ≠ [] → hosts next = []) := by
  obtain ⟨worker, isBusy, isClient, isFirst⟩ := (coherent.delivered.assigned task).mp given
  have isRule : (manager.ruleIndex.lookup task.hostid).isSome := by
    rw [← valuesOf_ne_nil]
    intro noValues
    rw [noValues] at isFirst
    cases isFirst
  obtain ⟨rule, isRule⟩ := isSome_iff_exists.mp isRule
  obtain ⟨middle, finished, after, sameFree, sameNum, counted, atMost⟩ :=
    finishValue_spec coherent isBusy isRule isClient
  unfold lldProcessResult
  simp only [getWorkerByClient_spec coherent.staffed isClient, isBusy, isRule, finished, bind_some]
  cases waiting : zbxBinaryHeapEmpty middle.ruleQueue with
  | true =>
    refine ⟨{ middle with freeWorkers := middle.freeWorkers ++ [worker] }, [], rfl, ?_,
      sameNum, counted, fun _ _ => ?_⟩
    · rw [append_nil, append_nil]
      have freed := after.staffed.perm (perm_append_singleton worker manager.freeWorkers)
      rw [← sameFree] at freed
      exact ⟨⟨after.stored.plain, after.stored.located⟩, { freed with }, { after.delivered with }⟩
    · rw [zbxBinaryHeapEmpty, List.isEmpty_iff] at waiting
      exact congrArg (map Elem.data) waiting
  | false =>
    obtain ⟨next, task, processed, final, nextFree, nextIndex, nextNum, fewer⟩ :=
      processNextRequest_spec after waiting
    refine ⟨next, [task], by simp [processed], ?_, nextNum.trans sameNum, nextIndex ▸ counted,
      fun ready someFree => ?_⟩
    · rwa [nextFree, sameFree]
    · rw [nextFree, sameFree] at someFree
      have none := ready someFree
      rw [none, length_nil] at atMost
      exact length_eq_zero_iff.mp (by omega)

/-! ## Registration -/

theorem register_spec
    (coherent : Coherent manager registered manager.freeWorkers taken sent outstanding)
    {client : Nat} (new : client ∉ registered)
    (room : registered.length < manager.workers.length) (parent : Nat) :
    ∃ next, lldRegisterWorker parent manager client parent = some next ∧
      Coherent next (registered ++ [client]) next.freeWorkers taken sent outstanding ∧
      next.freeWorkers ≠ [] ∧ hosts next = hosts manager ∧
      next.ruleIndex = manager.ruleIndex ∧ next.queuedNum = manager.queuedNum := by
  obtain ⟨stored, staffed, delivered⟩ := coherent
  have unknown : lldGetWorkerByClient manager client = none := by
    rw [lldGetWorkerByClient, find?_eq_none]
    intro worker _ isClient
    rw [decide_eq_true_eq, staffed.clients] at isClient
    exact new (mem_of_getElem? isClient)
  let next : LldManager :=
    { manager with
      nextWorkerIndex := registered.length + 1
      workers := manager.workers.modify registered.length
        fun unused => { unused with client := some client }
      workersClient := manager.workersClient ++ [registered.length]
      freeWorkers := manager.freeWorkers ++ [registered.length] }
  have ruleOf (worker : Nat) : next.ruleOf worker = manager.ruleOf worker := by
    simp only [LldManager.ruleOf, next, getElem?_modify]
    by_cases same : registered.length = worker
    · cases manager.workers[worker]? <;> simp [same]
    · simp [same]
  have clientOf (worker : Nat) :
      next.clientOf worker = (registered ++ [client])[worker]? := by
    simp only [LldManager.clientOf, next, getElem?_modify]
    by_cases same : registered.length = worker
    · subst same
      simp [getElem?_eq_getElem room]
    · have before := staffed.clients worker
      rw [LldManager.clientOf] at before
      simp only [if_neg same, id_map']
      rw [before, getElem?_append]
      by_cases inside : worker < registered.length
      · rw [if_pos inside]
      · rw [if_neg inside, getElem?_eq_none (by omega), getElem?_eq_none]
        rw [length_singleton]
        omega
  have sameRules : places next = places manager := by
    funext place
    cases place with
    | none => rfl
    | some worker => exact congrArg Option.toList (ruleOf worker)
  have unused : manager.ruleOf registered.length = none := by
    rw [eq_none_iff_forall_ne_some]
    intro hostid isBusy
    exact (staffed.busy _ hostid isBusy).false
  refine ⟨next, ?_, ⟨⟨stored.plain, sameRules ▸ stored.located⟩, ?_, ?_⟩,
    append_ne_nil_of_right_ne_nil _ (cons_ne_nil _ _), rfl, rfl, rfl⟩
  · unfold lldRegisterWorker
    rw [if_neg (not_not_intro rfl), staffed.next, if_neg room.ne, unknown]
    rfl
  · constructor
    case next => rw [length_append, length_singleton]
    case room =>
      rw [length_append, length_singleton, length_modify]
      exact room
    case indexed =>
      rw [length_append, length_singleton, range_succ, ← staffed.indexed]
    case clients => exact clientOf
    case distinct =>
      exact nodup_append.mpr ⟨staffed.distinct, nodup_singleton _, by
        rintro first isFirst second isSecond rfl
        exact new (mem_singleton.mp isSecond ▸ isFirst)⟩
    case idleDistinct =>
      refine nodup_append.mpr ⟨staffed.idleDistinct, nodup_singleton _, ?_⟩
      rintro first isFirst second isSecond rfl
      rw [mem_singleton] at isSecond
      exact ((staffed.idle first).mp isFirst).1.ne isSecond
    case idle =>
      intro worker
      rw [ruleOf, mem_append, mem_singleton, staffed.idle, length_append, length_singleton]
      constructor
      · rintro (⟨inside, isFree⟩ | rfl)
        · exact ⟨by omega, isFree⟩
        · exact ⟨by omega, unused⟩
      · rintro ⟨inside, isFree⟩
        by_cases same : worker = registered.length
        · exact Or.inr same
        · exact Or.inl ⟨by omega, isFree⟩
    case busy =>
      intro worker hostid isBusy
      rw [ruleOf] at isBusy
      rw [length_append, length_singleton]
      exact (staffed.busy worker hostid isBusy).trans (Nat.lt_succ_self _)
  · constructor
    case handled =>
      intro hostid
      rw [delivered.handled]
      congr 1
      symm
      apply unsent_congr (by rfl)
      intro worker
      rw [ruleOf]
    case assigned =>
      intro task
      rw [delivered.assigned]
      refine exists_congr fun worker => ?_
      rw [ruleOf, clientOf, staffed.clients]
      refine and_congr_right fun isBusy => ?_
      rw [getElem?_append_left (staffed.busy worker _ isBusy)]
      rfl
    case oneClient => exact delivered.oneClient

/-! ## Runs -/

theorem accepted_append (arrivals : List Arrival) (arrival : Arrival) :
    (Repeats arrival.held arrival.data →
      accepted (arrivals ++ [arrival]) = accepted arrivals) ∧
    (¬Repeats arrival.held arrival.data →
      accepted (arrivals ++ [arrival]) =
        take (accepted arrivals) arrival.hostid arrival.data) := by
  constructor
  · intro old
    funext hostid
    simp [accepted, old]
  · intro new
    funext hostid
    rw [take, Function.update_apply]
    by_cases same : hostid = arrival.hostid
    · subst same
      simp [accepted, new]
    · simp [accepted, same, Ne.symm same]

/-- The invariant of all runs. -/
structure Consistent (state : State) : Prop where
  coherent : Coherent state.manager state.registered state.manager.freeWorkers
    (accepted state.arrivals) state.sent state.outstanding
  counted : Counted state.manager

/-- A free worker means that no host waits. -/
def NoIdle (state : State) : Prop :=
  state.manager.freeWorkers ≠ [] → hosts state.manager = []

variable {parent : Nat} {state final : State} {message : Message}

theorem initial_consistent (lldworkerForks : Nat) : Consistent (initial lldworkerForks) := by
  have unused (worker : Nat) : (lldManagerInit lldworkerForks).clientOf worker = none ∧
      (lldManagerInit lldworkerForks).ruleOf worker = none := by
    unfold LldManager.clientOf LldManager.ruleOf lldManagerInit
    rw [getElem?_replicate]
    by_cases inside : worker < lldworkerForks
    · rw [if_pos inside]
      exact ⟨rfl, rfl⟩
    · rw [if_neg inside]
      exact ⟨rfl, rfl⟩
  have ruleOf (worker : Nat) : (lldManagerInit lldworkerForks).ruleOf worker = none :=
    (unused worker).2
  have nothing (place : Option Nat) : places (lldManagerInit lldworkerForks) place = [] := by
    cases place with
    | none => rfl
    | some worker => exact congrArg Option.toList (ruleOf worker)
  refine ⟨⟨⟨rfl, ?_⟩, ?_, ?_⟩, rfl⟩
  · constructor
    · intro place
      exact (nothing place).symm ▸ nodup_nil
    · intro first second hostid isFirst
      rw [initial, nothing] at isFirst
      cases isFirst
    · intro hostid
      simp only [initial, nothing, not_mem_nil, exists_const, iff_false]
      exact Bool.false_ne_true
  · exact {
      next := rfl
      room := Nat.zero_le _
      indexed := rfl
      clients := fun worker => (unused worker).1
      distinct := nodup_nil
      idleDistinct := nodup_nil
      idle := fun worker => by simp [initial, lldManagerInit]
      busy := fun worker hostid isBusy => by
        rw [initial, ruleOf] at isBusy
        cases isBusy }
  · refine ⟨fun hostid => ?_, fun task => ?_, nodup_nil⟩
    · rw [unsent_eq_of_not_working fun worker => by rw [initial, ruleOf]; nofun]
      rfl
    · refine iff_of_false not_mem_nil ?_
      rintro ⟨worker, isBusy, -⟩
      rw [initial, ruleOf] at isBusy
      cases isBusy

theorem request_spec (consistent : Consistent state) (hostid : Nat) (data : LldData) :
    ∃ middle, lldQueueRequest state.manager hostid data = some middle ∧
      Coherent middle state.registered middle.freeWorkers
        (accepted (state.arrivals ++ [⟨hostid, data, valuesOf state.manager hostid⟩]))
        state.sent state.outstanding ∧
      Counted middle := by
  obtain ⟨coherent, counted⟩ := consistent
  obtain ⟨repeating, dropped⟩ | ⟨new, middle, queued, taken, sameFree, keepsCount⟩ :=
    queueRequest_spec coherent hostid data
  · refine ⟨state.manager, dropped, ?_, counted⟩
    rw [(accepted_append _ _).1 repeating]
    exact coherent
  · refine ⟨middle, queued, ?_, keepsCount counted⟩
    rw [(accepted_append _ _).2 new, sameFree]
    exact taken

/-- A worker that registers finds no host waiting. -/
def FindsNoneWaiting (parent : Nat) (state : State) : Message → Prop
  | .register _ ppid => ppid = parent → hosts state.manager = []
  | _ => True

variable (consistent : Consistent state)

include consistent

/-- The manager never exits on an allowed message, and keeps what it keeps. -/
theorem step_spec (allowed : Allowed parent state message) :
    ∃ next, step parent state message = some next ∧ Consistent next ∧
      (NoIdle state → FindsNoneWaiting parent state message → NoIdle next) := by
  obtain ⟨coherent, counted⟩ := consistent
  cases message with
  | register client ppid =>
    by_cases own : ppid = parent
    · subst own
      obtain ⟨new, room⟩ := allowed rfl
      obtain ⟨next, registered, after, -, sameHosts, sameIndex, sameNum⟩ :=
        register_spec coherent new room ppid
      refine ⟨{ state with manager := next, registered := state.registered ++ [client] }, ?_,
        ⟨after, ?_⟩, fun _ noneWaiting _ => sameHosts.trans (noneWaiting rfl)⟩
      · simp only [step, handle, registered, map_some, if_true]
      · rw [Counted, sameNum, sameIndex]
        exact counted
    · refine ⟨state, ?_, ⟨coherent, counted⟩, fun noIdle _ => noIdle⟩
      simp only [step, handle, lldRegisterWorker, ne_eq, own, not_false_eq_true, if_true,
        map_some, if_false]
  | request hostid data =>
    obtain ⟨middle, queued, before, middleCounted⟩ :=
      request_spec ⟨coherent, counted⟩ hostid data
    obtain ⟨next, tasks, processed, after, sameIndex, sameNum, ends⟩ :=
      processFreeWorkers_spec before rfl
    refine ⟨{ state with
        manager := next
        arrivals := state.arrivals ++ [⟨hostid, data, valuesOf state.manager hostid⟩]
        sent := state.sent ++ tasks
        outstanding := state.outstanding ++ tasks },
      ?_, ⟨after, ?_⟩, fun _ _ => ends⟩
    · simp only [step, handle, queued, bind_some, lldProcessQueue, processed,
        map_some]
    · exact sameNum.trans (middleCounted.trans (congrArg _ sameIndex).symm)
  | done client =>
    obtain ⟨task, given, rfl⟩ := allowed
    obtain ⟨next, tasks, processed, after, sameNum, fewer, ends⟩ :=
      processResult_spec coherent given
    refine ⟨{ state with
        manager := { next with queuedNum := next.queuedNum - 1 }
        sent := state.sent ++ tasks
        outstanding :=
          state.outstanding.filter (fun other => other.client ≠ task.client) ++ tasks },
      ?_, ⟨⟨⟨after.stored.plain, after.stored.located⟩, { after.staffed with },
        { after.delivered with }⟩, ?_⟩, fun noIdle _ => ends noIdle⟩
    · simp only [step, handle, processed, map_some]
    · rw [Counted] at counted
      change next.queuedNum - 1 = total _ next.ruleIndex
      omega

theorem idle_of_register {client : Nat} {next : State}
    (allowed : Allowed parent state (.register client parent))
    (executed : step parent state (.register client parent) = some next)
    (noIdle : NoIdle next) : hosts state.manager = [] := by
  obtain ⟨new, room⟩ := allowed rfl
  obtain ⟨manager, registered, -, someFree, sameHosts, -⟩ :=
    register_spec consistent.coherent new room parent
  simp only [step, handle, registered, map_some, some.injEq] at executed
  subst executed
  exact sameHosts.symm.trans (noIdle someFree)

theorem correct_of_consistent (noIdle : NoIdle state) :
    Correct state := by
  obtain ⟨⟨stored, staffed, delivered⟩, counted⟩ := consistent
  constructor
  case handled => exact delivered.handled
  case located =>
    intro hostid hasValues
    obtain ⟨place, isThere, only⟩ :=
      (flagged_iff_unique stored.located hostid).mp (valuesOf_ne_nil.mp hasValues)
    cases place with
    | none =>
      refine Or.inl ⟨count_eq_one_of_mem (stored.located.distinct none) isThere, ?_⟩
      exact stored.free_of_waiting isThere
    | some worker =>
      refine Or.inr ⟨fun waiting => ?_, worker, mem_places_some.mp isThere, fun other busy => ?_⟩
      · exact absurd (only none waiting) nofun
      · exact some.inj (only (some other) (mem_places_some.mpr busy))
  case assigned => exact delivered.assigned
  case oneClient => exact delivered.oneClient
  case oneHost =>
    rw [List.Nodup, pairwise_map]
    refine (pairwise_map.mp delivered.oneClient).imp_of_mem ?_
    intro first second isFirst isSecond different same
    obtain ⟨worker, isBusy, isTheirs, -⟩ := (delivered.assigned first).mp isFirst
    obtain ⟨other, otherBusy, otherTheirs, -⟩ := (delivered.assigned second).mp isSecond
    obtain rfl := stored.unique isBusy (same ▸ otherBusy)
    exact different (some.inj (isTheirs.symm.trans otherTheirs))
  case counted => exact counted
  case noIdle =>
    intro worker client isClient isFree
    apply noIdle
    rw [staffed.clients] at isClient
    have isIdle := (staffed.idle worker).mpr ⟨(List.getElem?_eq_some_iff.mp isClient).1, isFree⟩
    exact ne_nil_of_mem isIdle

theorem noIdle_of_correct (correct : Correct state) :
    NoIdle state := by
  intro someFree
  obtain ⟨worker, rest, shape⟩ := exists_cons_of_ne_nil someFree
  obtain ⟨inside, isFree⟩ :=
    (consistent.coherent.staffed.idle worker).mp (shape ▸ mem_cons_self)
  have isClient := (consistent.coherent.staffed.clients worker).trans
    (getElem?_eq_getElem inside)
  exact correct.noIdle worker _ isClient isFree

/-- All states of a run are correct exactly when no accepted registration finds a host waiting. -/
theorem correct_iff_of_consistent {messages : List Message} (noIdle : NoIdle state)
    (allowed : Transition.Guarded (step parent) (Allowed parent) state messages) :
    (∀ before after, messages = before ++ after →
      ∃ reached, Transition.run (step parent) state before = some reached ∧ Correct reached) ↔
    Transition.Guarded (step parent) (FindsNoneWaiting parent) state messages := by
  induction messages generalizing state with
  | nil =>
    refine ⟨fun _ => trivial, fun _ before after split => ?_⟩
    obtain ⟨rfl, rfl⟩ := append_eq_nil_iff.mp split.symm
    exact ⟨state, rfl, correct_of_consistent consistent noIdle⟩
  | cons message rest ih =>
    obtain ⟨next, executed, after, keepsNoIdle⟩ := step_spec consistent allowed.1
    have later (stays : NoIdle next) := ih after stays (allowed.2 next executed)
    constructor
    · intro correct
      have nextCorrect : Correct next := by
        obtain ⟨reached, ran, isCorrect⟩ := correct [message] rest rfl
        rw [Transition.run, executed, bind_some, Transition.run_nil] at ran
        exact some.inj ran ▸ isCorrect
      have stays := noIdle_of_correct after nextCorrect
      refine Transition.guarded_cons ?_ executed ((later stays).mp ?_)
      · cases message with
        | register client ppid =>
          rintro rfl
          exact idle_of_register consistent allowed.1 executed stays
        | request hostid data => trivial
        | done client => trivial
      · intro before after' split
        obtain ⟨reached, ran, isCorrect⟩ :=
          correct (message :: before) after' (by rw [split, cons_append])
        rw [Transition.run, executed, bind_some] at ran
        exact ⟨reached, ran, isCorrect⟩
    · rintro ⟨noneWaiting, restNoneWaiting⟩ before after' split
      have stays := keepsNoIdle noIdle noneWaiting
      cases before with
      | nil => exact ⟨state, rfl, correct_of_consistent consistent noIdle⟩
      | cons first before =>
        rw [cons_append, cons.injEq] at split
        obtain ⟨rfl, split⟩ := split
        obtain ⟨reached, ran, isCorrect⟩ :=
          (later stays).mpr (restNoneWaiting next executed) before after' split
        refine ⟨reached, ?_, isCorrect⟩
        rw [Transition.run, executed, bind_some, ran]

omit consistent

theorem lldManager_correct_iff (lldworkerForks parent : Nat) (messages : List Message)
    (allowed : Transition.Guarded (step parent) (Allowed parent) (initial lldworkerForks)
      messages) :
    (∀ before after, messages = before ++ after →
      ∃ reached, Transition.run (step parent) (initial lldworkerForks) before = some reached ∧
        Correct reached) ↔
    Transition.Guarded (step parent) (FindsNoneWaiting parent) (initial lldworkerForks)
      messages :=
  correct_iff_of_consistent (initial_consistent lldworkerForks) (fun _ => rfl) allowed

/-- A discovery value of item 100. -/
def sampleValue (value : String) : LldData :=
  ⟨100, some value, none, ⟨1, 0⟩, 0, 0, 0⟩

/-- A worker registers, two values of one host arrive, and the worker answers. -/
def sampleRun : List Message :=
  [.register 5 1, .request 10 (sampleValue "a"), .request 10 (sampleValue "b"), .done 5]

theorem lldManager_correct_sampleRun :
    (∀ before after, sampleRun = before ++ after →
      ∃ reached, Transition.run (step 1) (initial 1) before = some reached ∧ Correct reached) ↔
      Transition.Guarded (step 1) (FindsNoneWaiting 1) (initial 1) sampleRun := by
  refine lldManager_correct_iff 1 1 sampleRun ?_
  refine Transition.guarded_cons (fun _ => by decide) rfl ?_
  refine Transition.guarded_cons trivial rfl ?_
  refine Transition.guarded_cons trivial rfl ?_
  exact Transition.guarded_cons ⟨⟨5, 10, sampleValue "a"⟩, by decide, rfl⟩ rfl trivial

/-- A value arrives before the only worker registers. -/
def lateRun : List Message :=
  [.request 10 (sampleValue "a"), .register 5 1]

/-- The worker stays idle although the host waits. -/
theorem lateRun_not_correct :
    ¬∀ (lldworkerForks parent : Nat) (messages : List Message),
      Transition.Guarded (step parent) (Allowed parent) (initial lldworkerForks) messages →
      ∀ before after, messages = before ++ after →
        ∃ reached, Transition.run (step parent) (initial lldworkerForks) before = some reached ∧
          Correct reached := by
  intro always
  have allowed : Transition.Guarded (step 1) (Allowed 1) (initial 1) lateRun := by
    refine Transition.guarded_cons trivial rfl (Transition.guarded_cons (fun _ => ?_) rfl trivial)
    decide
  obtain ⟨reached, ran, correct⟩ := always 1 1 lateRun allowed lateRun [] rfl
  have waits : hosts reached.manager = [10] ∧ reached.manager.clientOf 0 = some 5 ∧
      reached.manager.ruleOf 0 = none := by
    cases ran
    exact ⟨rfl, rfl, rfl⟩
  rw [correct.noIdle 0 5 waits.2.1 waits.2.2] at waits
  cases waits.1

end Zabbix.Lld.Discovery
