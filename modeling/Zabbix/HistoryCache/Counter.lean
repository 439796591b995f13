import Zabbix.HistoryCache.Consistency

/-!
# The history counter

`cache->history_num` is raised by the size of a flushed batch and lowered by the
size of a processed one.  A record that `hc_add_item_values` drops is part of
the batch but never reaches the queue, so the counter exceeds the number of
queued values by the number of records dropped so far, and it is exact in runs
which drop nothing.
-/

namespace Zabbix.HistoryCache.Counter

open Option

open Common.History Records Queue HistoryCache.System Operations Consistency Library.KeyedTable
open Library

variable {program : ProgramType} {state next : State}

/-- No flush and no round is in progress. -/
def Quiescent (state : State) : Prop :=
  (∀ collector, state.flushes.lookup collector = none) ∧
    ∀ syncer, state.rounds.lookup syncer = none

theorem quiescent_of_entries
    (flushes : state.flushes.entries = []) (rounds : state.rounds.entries = []) :
    Quiescent state := by
  constructor
  · intro collector
    rw [AList.lookup, flushes, List.dlookup_nil]
  · intro syncer
    rw [AList.lookup, rounds, List.dlookup_nil]

/-- The number of records in the lists of `history_items`. -/
def queuedTotal (cache : ZbxDcCache) : Nat :=
  total (fun item => item.values.length) cache.historyItems

theorem valuesTotal_eq_queuedTotal (consistent : Consistent program state) :
    valuesTotal state.cache = queuedTotal state.cache := by
  have cast (entries : List (Sigma fun _ : ItemId => HcItem))
      (counted : ∀ entry ∈ entries, entry.2.valuesNum = entry.2.values.length) :
      (entries.map fun entry => entry.2.valuesNum).sum =
        ((entries.map fun entry => entry.2.values.length).sum : Nat) := by
    induction entries with
    | nil => rfl
    | cons entry rest ih =>
      simp only [List.map_cons, List.sum_cons, Nat.cast_add, counted entry List.mem_cons_self,
        ih fun other member => counted other (List.mem_cons_of_mem _ member)]
  apply cast
  intro entry member
  have found : hcGetItem state.cache entry.1 = some entry.2 :=
    AList.mem_lookup_iff.mpr (by simpa using member)
  exact (consistent.sound.items entry.1).counted entry.2 found

theorem historyNum_drift (consistent : Consistent program state)
    (quiescent : Quiescent state) :
    state.cache.historyNum = queuedTotal state.cache + droppedCount state.log := by
  have balanced := consistent.balanced
  have finished : finishedNum state.flushes = 0 :=
    total_eq_zero_of_isEmpty quiescent.1
  rw [finished, add_zero, valuesTotal_eq_queuedTotal consistent] at balanced
  exact balanced

theorem queuedTotal_eq_zero_iff (cache : ZbxDcCache) :
    queuedTotal cache = 0 ↔ ∀ itemid, hcGetItem cache itemid = none := by
  constructor
  · intro zero itemid
    by_contra present
    obtain ⟨item, found⟩ := ne_none_iff_exists'.mp present
    have share := le_total (fun item : HcItem => item.values.length) found
    have zero' : total (fun item : HcItem => item.values.length) cache.historyItems = 0 :=
      zero
    simp only [HcItem.values, List.length_cons] at share zero'
    omega
  · exact total_eq_zero_of_isEmpty

/-! ## Runs that drop nothing -/

/--
The records from here on are all queued: none of them has meta data and no value
while two or more values of its item are queued.
-/
def QueuesAll : ZbxDcCache → List DcItemValue → Mem → Prop
  | _, [], _ => True
  | cache, itemValue :: rest, mem =>
    mergeTarget cache itemValue = none ∧
      let clone := hcCloneHistoryData cache.stats none itemValue mem
      ∀ data next, clone.done = true → clone.data = some data →
        hcAppendData { cache with stats := clone.stats } itemValue.itemid data = some next →
          QueuesAll next rest clone.mem

def SectionQueuesAll (state : State) : Label → Prop
  | .flushHistory _ itemValues mem => QueuesAll state.cache itemValues mem
  | .wakeUp collector mem =>
    ∀ waiting, state.flushes.lookup collector = some waiting →
      let clone := hcCloneHistoryData state.cache.stats waiting.data waiting.itemValue mem
      ∀ data next, clone.done = true → clone.data = some data →
        hcAppendData { state.cache with stats := clone.stats }
            waiting.itemValue.itemid data = some next →
          QueuesAll next waiting.rest clone.mem
  | _ => True

theorem queuesAll_of_valued {itemValues : List DcItemValue} (cache : ZbxDcCache)
    (valued : ∀ itemValue ∈ itemValues, hasFlag zbxDcFlagNovalue itemValue.flags = false)
    (mem : Mem) :
    QueuesAll cache itemValues mem := by
  induction itemValues generalizing cache mem with
  | nil => trivial
  | cons itemValue rest ih =>
    refine ⟨?_, fun _ next _ _ _ =>
      ih next (fun other member => valued other (List.mem_cons_of_mem _ member)) _⟩
    unfold mergeTarget
    split
    · rfl
    · simp [valued itemValue List.mem_cons_self]

theorem hcAddItemValues_droppedCount {collector : Nat} {itemValues : List DcItemValue}
    {cache : ZbxDcCache} {log : Log} {mem : Mem} {result : AddResult}
    (queuesAll : QueuesAll cache itemValues mem)
    (added : hcAddItemValues collector cache log itemValues mem = some result) :
    droppedCount result.log = droppedCount log := by
  induction itemValues generalizing cache log mem with
  | nil =>
    simp only [hcAddItemValues, some.injEq] at added
    rw [← added]
  | cons itemValue rest ih =>
    obtain ⟨target, later⟩ := queuesAll
    rw [hcAddItemValues, target] at added
    dsimp only at added
    split_ifs at added with done
    · obtain ⟨data, cloned, appending⟩ := bind_eq_some_iff.mp added
      obtain ⟨next, appended, remaining⟩ := bind_eq_some_iff.mp appending
      rw [ih (later data next done cloned appended) remaining]
      simp [droppedCount, isDropped]
    · rw [some.injEq] at added
      rw [← added]

theorem resumeItemValues_droppedCount {collector : Nat} {waiting : WaitingFlush}
    {cache : ZbxDcCache} {log : Log} {mem : Mem} {result : AddResult}
    (queuesAll :
      let clone := hcCloneHistoryData cache.stats waiting.data waiting.itemValue mem
      ∀ data next, clone.done = true → clone.data = some data →
        hcAppendData { cache with stats := clone.stats }
            waiting.itemValue.itemid data = some next →
          QueuesAll next waiting.rest clone.mem)
    (added : resumeItemValues collector cache log waiting mem = some result) :
    droppedCount result.log = droppedCount log := by
  unfold resumeItemValues at added
  dsimp only at added
  split_ifs at added with done
  · obtain ⟨data, cloned, appending⟩ := bind_eq_some_iff.mp added
    obtain ⟨next, appended, remaining⟩ := bind_eq_some_iff.mp appending
    rw [hcAddItemValues_droppedCount (queuesAll data next done cloned appended) remaining]
    simp [droppedCount, isDropped]
  · rw [some.injEq] at added
    rw [← added]

theorem step_droppedCount {label : Label}
    (queuesAll : SectionQueuesAll state label)
    (executed : step program state label = some next) :
    droppedCount next.log = droppedCount state.log := by
  have finish (collector itemValuesNum : Nat) (result : AddResult) :
      (state.finishFlush collector itemValuesNum result).log = result.log := by
    unfold State.finishFlush
    split
    · rfl
    · rfl
  by_cases isSyncer : IsSyncer label
  · obtain ⟨events, log, fromSyncer⟩ := syncer_log isSyncer executed
    rw [log, droppedCount_append, Nat.add_eq_left]
    refine List.countP_eq_zero.mpr fun event member => ?_
    have own := fromSyncer event member
    cases event <;> simp_all [FromSyncer, isDropped]
  · cases label with
    | flushHistory collector itemValues mem =>
      cases idle : state.flushes.lookup collector with
      | some waiting => simp [step, stepFlush, idle] at executed
      | none =>
        simp only [step, stepFlush, idle] at executed
        obtain ⟨result, added, rfl⟩ := map_eq_some_iff.mp executed
        rw [finish, hcAddItemValues_droppedCount queuesAll added]
        simp [droppedCount, isDropped]
    | wakeUp collector mem =>
      cases asleep : state.flushes.lookup collector with
      | none => simp [step, stepWakeUp, asleep] at executed
      | some waiting =>
        simp only [step, stepWakeUp, asleep] at executed
        obtain ⟨result, added, rfl⟩ := map_eq_some_iff.mp executed
        rw [finish, resumeItemValues_droppedCount (queuesAll waiting asleep) added]
    | popItems syncer => exact absurd trivial isSyncer
    | lockTriggers syncer locked => exact absurd trivial isSyncer
    | getItemValue syncer => exact absurd trivial isSyncer
    | pushItems syncer => exact absurd trivial isSyncer

/--
In a run whose sections queue all their records, the counter is the number of
queued values whenever no flush and no round is in progress, and it is zero
exactly when the cache is empty.
-/
theorem historyNum_exact
    (program : ProgramType) (labels : List Label) (state : State)
    (guarded : Transition.Guarded (step program) SectionQueuesAll initial labels)
    (executed : Transition.run (step program) initial labels = some state)
    (quiescent : Quiescent state) :
    state.cache.historyNum = valuesTotal state.cache ∧
      state.cache.historyNum = queuedTotal state.cache ∧
      (state.cache.historyNum = 0 ↔ ∀ itemid, hcGetItem state.cache itemid = none) := by
  have consistent := run_consistent executed
  have preserved (state : State) (label : Label) (next : State)
      (none : droppedCount state.log = 0) (queuesAll : SectionQueuesAll state label)
      (executed : step program state label = some next) : droppedCount next.log = 0 :=
    (step_droppedCount queuesAll executed).trans none
  have none : droppedCount state.log = 0 :=
    Transition.guarded_run_invariant preserved rfl guarded executed
  have exact : state.cache.historyNum = queuedTotal state.cache := by
    simpa [none] using historyNum_drift consistent quiescent
  refine ⟨?_, exact, ?_⟩
  · rw [exact, valuesTotal_eq_queuedTotal consistent]
  · rw [← queuedTotal_eq_zero_iff, exact, Nat.cast_eq_zero]

/-- A batch of two values, and any further records, in one flush. -/
def flushOf (more : List DcItemValue) : List Label :=
  [.flushHistory 0 ([logRecord 1 0x01, logRecord 2 0x01] ++ more)
    [true, true, true, true, true, true]]

theorem historyNum_exact_flushOf_nil :
    ∃ state, Transition.run (step .proxy) initial (flushOf []) = some state ∧
      state.cache.historyNum = valuesTotal state.cache ∧
      state.cache.historyNum = queuedTotal state.cache ∧
      (state.cache.historyNum = 0 ↔ ∀ itemid, hcGetItem state.cache itemid = none) := by
  have computed :
      (Transition.run (step .proxy) initial (flushOf [])).map
        (fun state => (state.flushes.entries, state.rounds.entries)) =
        some ([], []) := by rfl
  have guarded :
      Transition.Guarded (step .proxy) SectionQueuesAll initial (flushOf []) :=
    ⟨queuesAll_of_valued _ (by decide) _, fun _ _ => trivial⟩
  obtain ⟨state, executed, idle⟩ := map_eq_some_iff.mp computed
  rw [Prod.mk.injEq] at idle
  exact ⟨state, executed, historyNum_exact .proxy _ state guarded executed
    (quiescent_of_entries idle.1 idle.2)⟩

/-- A record without value is counted although it is dropped. -/
theorem historyNum_ahead :
    ∃ state,
      Transition.run (step .proxy) initial (flushOf [logRecord 3 0x03]) = some state ∧
        Quiescent state ∧
        state.cache.historyNum = 3 ∧ valuesTotal state.cache = 2 := by
  have computed :
      (Transition.run (step .proxy) initial (flushOf [logRecord 3 0x03])).map
        (fun state => (state.flushes.entries, state.rounds.entries,
          state.cache.historyNum, valuesTotal state.cache)) =
        some ([], [], 3, 2) := by rfl
  obtain ⟨state, executed, observed⟩ := map_eq_some_iff.mp computed
  simp only [Prod.mk.injEq] at observed
  exact ⟨state, executed, quiescent_of_entries observed.1 observed.2.1, observed.2.2⟩

end Zabbix.HistoryCache.Counter
