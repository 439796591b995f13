import Zabbix.HistoryCache.Consistency

/-!
# History cache queueing

The properties of the queue in every interleaving of collectors and syncers: no
record is lost or duplicated, the records of an item leave it in the order they
entered it, no item is held twice, and the syncers can always drain the cache.
-/

namespace Zabbix.HistoryCache.Fifo

open Common.History Records Queue HistoryCache.System Invariant Operations Consistency List Option
open Library.KeyedTable
open Algo.BinaryHeap Library

variable {program : ProgramType} {state next : State}

/-! ## Where an item is -/

def Holds (state : State) (syncer : Nat) (itemid : ItemId) : Prop :=
  ∃ round, state.rounds.lookup syncer = some round ∧ itemid ∈ round.historyItems

theorem heldBy_ne_zero_iff {itemid : ItemId} :
    heldBy state.rounds itemid ≠ 0 ↔ ∃ syncer, Holds state syncer itemid := by
  constructor
  · intro isHeld
    obtain ⟨syncer, round, found, share⟩ := exists_of_total_ne_zero isHeld
    exact ⟨syncer, round, found, count_pos_iff.mp (Nat.pos_of_ne_zero share)⟩
  · rintro ⟨syncer, round, found, member⟩
    have share := count_pos_iff.mpr member
    rw [heldBy_eq found]
    omega

theorem holder_unique (consistent : Consistent program state)
    {syncer other : Nat} {itemid : ItemId}
    (mine : Holds state syncer itemid) (others : Holds state other itemid) :
    other = syncer := by
  obtain ⟨round, found, member⟩ := mine
  obtain ⟨otherRound, foundOther, memberOther⟩ := others
  by_contra different
  exact consistent.disjoint different found foundOther memberOther member

theorem placed (consistent : Consistent program state) {itemid : ItemId}
    (present : (hcGetItem state.cache itemid).isSome) :
    queueCount state.cache itemid = 1 ∧ (∀ syncer, ¬Holds state syncer itemid) ∨
      queueCount state.cache itemid = 0 ∧ ∃! syncer, Holds state syncer itemid := by
  have balanced := (consistent.sound.items itemid).balanced
  simp only [viewOf, present, if_true] at balanced
  by_cases isHeld : heldBy state.rounds itemid = 0
  · refine Or.inl ⟨by omega, fun syncer holds => ?_⟩
    exact heldBy_ne_zero_iff.mpr ⟨syncer, holds⟩ isHeld
  · obtain ⟨syncer, holds⟩ := heldBy_ne_zero_iff.mp isHeld
    exact Or.inr ⟨by omega, syncer, holds, fun other others =>
      holder_unique consistent holds others⟩

/-! ## Syncers accept nothing -/

theorem acceptedOf_append_of_fromSyncer (itemid : ItemId) (log : Log) {events : Log}
    (fromSyncer : ∀ event ∈ events, FromSyncer event) :
    acceptedOf itemid (log ++ events) = acceptedOf itemid log := by
  induction events generalizing log with
  | nil => rw [append_nil]
  | cons event rest ih =>
    rw [← singleton_append, ← append_assoc,
      ih _ fun other member => fromSyncer other (mem_cons_of_mem _ member),
      acceptedOf_concat]
    cases event with
    | returned syncer history => rfl
    | removed syncer itemid data => rfl
    | offered collector itemValues => exact absurd (fromSyncer _ mem_cons_self) id
    | queued collector itemValue data => exact absurd (fromSyncer _ mem_cons_self) id
    | dropped collector itemValue head => exact absurd (fromSyncer _ mem_cons_self) id

theorem syncer_accepted {label : Label} (isSyncer : IsSyncer label)
    (executed : step program state label = some next) (itemid : ItemId) :
    acceptedOf itemid next.log = acceptedOf itemid state.log := by
  obtain ⟨events, log, fromSyncer⟩ := syncer_log isSyncer executed
  rw [log, acceptedOf_append_of_fromSyncer itemid state.log fromSyncer]

/-! ## The cache can be drained -/

def SyncersReach (program : ProgramType) (state next : State) : Prop :=
  ∃ labels, (∀ label ∈ labels, IsSyncer label) ∧
    Transition.run (step program) state labels = some next

theorem SyncersReach.refl (program : ProgramType) (state : State) :
    SyncersReach program state state :=
  ⟨[], by simp, rfl⟩

theorem SyncersReach.head {middle : State} (label : Label)
    (isSyncer : IsSyncer label)
    (first : step program state label = some middle)
    (later : SyncersReach program middle next) :
    SyncersReach program state next := by
  obtain ⟨labels, syncers, executed⟩ := later
  refine ⟨label :: labels, ?_, Transition.run_cons_eq_some.mpr ⟨middle, first, executed⟩⟩
  simpa [isSyncer] using syncers

theorem SyncersReach.trans {middle : State}
    (before : SyncersReach program state middle)
    (after : SyncersReach program middle next) :
    SyncersReach program state next := by
  obtain ⟨labels, syncers, executed⟩ := before
  obtain ⟨labelsAfter, syncersAfter, executedAfter⟩ := after
  refine ⟨labels ++ labelsAfter, fun label member => ?_,
    Transition.run_append_eq_some.mpr ⟨middle, executed, executedAfter⟩⟩
  rcases mem_append.mp member with member | member
  · exact syncers label member
  · exact syncersAfter label member

theorem SyncersReach.accepted (reached : SyncersReach program state next)
    (itemid : ItemId) :
    acceptedOf itemid next.log = acceptedOf itemid state.log := by
  obtain ⟨labels, syncers, executed⟩ := reached
  induction labels generalizing state with
  | nil =>
    simp only [Transition.run_nil, some.injEq] at executed
    rw [executed]
  | cons label rest ih =>
    obtain ⟨middle, first, later⟩ := Transition.run_cons_eq_some.mp executed
    rw [ih (fun other member => syncers other (mem_cons_of_mem _ member)) later]
    exact syncer_accepted (syncers label mem_cons_self) first itemid

theorem erase_insert_erase (rounds : Table Nat SyncRound) (syncer : Nat)
    (round : SyncRound) :
    (rounds.insert syncer round).erase syncer = rounds.erase syncer := by
  apply AList.ext
  change kerase syncer (rounds.insert syncer round).entries = kerase syncer rounds.entries
  rw [AList.entries_insert]
  exact kerase_cons_eq rfl

variable (consistent : Consistent program state)

include consistent

theorem finish_reading {syncer : Nat} {round : SyncRound}
    (found : state.rounds.lookup syncer = some round) (mayRead : round.mayRead program) :
    ∃ next, SyncersReach program state next ∧ Consistent program next ∧
      next.rounds = state.rounds.erase syncer ∧
      valuesTotal next.cache + round.historyNum = valuesTotal state.cache := by
  obtain ⟨left, length⟩ : ∃ left, round.historyItems.length - round.readNum = left :=
    ⟨_, rfl⟩
  have bound := (consistent.rounds syncer round found).bound
  induction left generalizing state round with
  | zero =>
    obtain ⟨next, pushed, nextConsistent, values, rounds⟩ :=
      stepPush_consistent consistent found (Or.inl ⟨mayRead, by omega⟩)
    exact ⟨next, SyncersReach.head (.pushItems syncer) trivial pushed
      (SyncersReach.refl _ _), nextConsistent, rounds, values⟩
  | succ left ih =>
    obtain ⟨middle, copied, middleConsistent, cache, rounds⟩ :=
      stepGet_consistent consistent found mayRead (by omega)
    have advanced : middle.rounds.lookup syncer =
        some { round with readNum := round.readNum + 1 } := by
      rw [rounds, AList.lookup_insert]
    obtain ⟨next, reached, nextConsistent, erased, values⟩ :=
      ih middleConsistent advanced mayRead (by dsimp only; omega)
        (by dsimp only; omega)
    refine ⟨next, SyncersReach.head (.getItemValue syncer) trivial copied reached,
      nextConsistent, ?_, ?_⟩
    · rw [erased, rounds, erase_insert_erase]
    · rw [← cache]
      exact values

theorem finish_round {syncer : Nat} {round : SyncRound}
    (found : state.rounds.lookup syncer = some round) :
    ∃ next, SyncersReach program state next ∧ Consistent program next ∧
      next.rounds = state.rounds.erase syncer ∧
      valuesTotal next.cache ≤ valuesTotal state.cache ∧
      (round.stage = .popped → valuesTotal next.cache < valuesTotal state.cache) := by
  have ok := consistent.rounds syncer round found
  have natural := ok.counted
  have positive (stage : round.stage = .popped) : 0 < round.historyNum := by
    have length := length_pos_iff.mpr ok.nonempty
    rw [ok.fresh stage]
    omega
  by_cases mayRead : round.mayRead program
  · obtain ⟨next, reached, nextConsistent, rounds, values⟩ :=
      finish_reading consistent found mayRead
    refine ⟨next, reached, nextConsistent, rounds, by omega, fun stage => ?_⟩
    have removes := positive stage
    omega
  · cases program with
    | proxy => exact absurd rfl mayRead
    | server =>
      cases stage : round.stage with
      | locked =>
        have none : round.historyNum = 0 := by
          simpa [SyncRound.mayRead, stage] using mayRead
        obtain ⟨next, pushed, nextConsistent, values, rounds⟩ :=
          stepPush_consistent consistent found (Or.inr ⟨rfl, stage, none⟩)
        exact ⟨next, SyncersReach.head (.pushItems syncer) trivial pushed
          (SyncersReach.refl _ _), nextConsistent, rounds, by omega,
          fun popped => by cases popped⟩
      | popped =>
        obtain ⟨middle, locked, middleConsistent, same, lockedRound, rounds,
          lockedStage, num⟩ := stepLock_consistent consistent [] found stage
        have removes := positive stage
        have sameNum := num rfl
        have foundLocked : middle.rounds.lookup syncer = some lockedRound := by
          rw [rounds, AList.lookup_insert]
        have nonzero : lockedRound.historyNum ≠ 0 := by omega
        obtain ⟨next, reached, nextConsistent, erased, values⟩ :=
          finish_reading middleConsistent foundLocked
            (by simp [SyncRound.mayRead, lockedStage, nonzero])
        refine ⟨next, SyncersReach.head (.lockTriggers syncer []) trivial
          locked reached, nextConsistent, ?_, by omega, fun _ => by omega⟩
        rw [erased, rounds, erase_insert_erase]

theorem finish_rounds :
    ∃ next, SyncersReach program state next ∧ Consistent program next ∧
      (∀ syncer, next.rounds.lookup syncer = none) := by
  obtain ⟨rounds, count⟩ : ∃ rounds, total (fun _ => 1) state.rounds = rounds := ⟨_, rfl⟩
  induction rounds generalizing state with
  | zero =>
    refine ⟨state, SyncersReach.refl _ _, consistent, fun syncer => ?_⟩
    by_contra present
    obtain ⟨round, found⟩ := ne_none_iff_exists'.mp present
    have share := le_total (fun _ => 1) found
    omega
  | succ rounds ih =>
    have nonzero : total (fun _ : SyncRound => 1) state.rounds ≠ 0 := by omega
    obtain ⟨syncer, round, found, -⟩ := exists_of_total_ne_zero nonzero
    obtain ⟨middle, reached, middleConsistent, erased, -⟩ := finish_round consistent found
    obtain ⟨next, reachedNext, nextConsistent, idle⟩ :=
      ih middleConsistent (by
        have split := total_eq_add_erase (fun _ => 1) found
        rw [erased]
        omega)
    exact ⟨next, reached.trans reachedNext, nextConsistent, idle⟩

theorem valuesTotal_nonneg :
    0 ≤ valuesTotal state.cache := by
  apply sum_nonneg
  intro amount member
  obtain ⟨entry, entryMember, rfl⟩ := List.mem_map.mp member
  have found : hcGetItem state.cache entry.1 = some entry.2 :=
    AList.mem_lookup_iff.mpr (by simpa using entryMember)
  have counted := (consistent.sound.items entry.1).counted entry.2 found
  omega

theorem absent_of_empty (idle : ∀ syncer, state.rounds.lookup syncer = none)
    (empty : zbxBinaryHeapEmpty state.cache.historyQueue) (itemid : ItemId) :
    hcGetItem state.cache itemid = none := by
  have unheld : heldBy state.rounds itemid = 0 := total_eq_zero_of_isEmpty idle
  have unqueued : queueCount state.cache itemid = 0 := by
    rw [queueCount, List.isEmpty_iff.mp empty]
    rfl
  have balanced := (consistent.sound.items itemid).balanced
  simp only [viewOf, unheld, unqueued] at balanced
  cases found : hcGetItem state.cache itemid with
  | none => rfl
  | some item => simp [found] at balanced

theorem drain_idle (idle : ∀ syncer, state.rounds.lookup syncer = none) :
    ∃ next, SyncersReach program state next ∧ Consistent program next ∧
      ∀ itemid, hcGetItem next.cache itemid = none := by
  obtain ⟨values, bound⟩ : ∃ values : Nat, valuesTotal state.cache ≤ values :=
    ⟨(valuesTotal state.cache).toNat, by omega⟩
  induction values generalizing state with
  | zero =>
    by_cases empty : zbxBinaryHeapEmpty state.cache.historyQueue
    · exact ⟨state, SyncersReach.refl _ _, consistent,
        absent_of_empty consistent idle empty⟩
    · obtain ⟨middle, -, middleConsistent, same, popped⟩ :=
        stepPop_consistent consistent (idle 0)
      obtain ⟨round, rounds, stage⟩ := popped empty
      have found : middle.rounds.lookup 0 = some round := by
        rw [rounds, AList.lookup_insert]
      obtain ⟨next, -, nextConsistent, -, -, removes⟩ := finish_round middleConsistent found
      have nonnegative := valuesTotal_nonneg nextConsistent
      have smaller := removes stage
      omega
  | succ values ih =>
    by_cases empty : zbxBinaryHeapEmpty state.cache.historyQueue
    · exact ⟨state, SyncersReach.refl _ _, consistent,
        absent_of_empty consistent idle empty⟩
    · obtain ⟨middle, first, middleConsistent, same, popped⟩ :=
        stepPop_consistent consistent (idle 0)
      obtain ⟨round, rounds, stage⟩ := popped empty
      have found : middle.rounds.lookup 0 = some round := by
        rw [rounds, AList.lookup_insert]
      obtain ⟨later, reached, laterConsistent, erased, -, removes⟩ :=
        finish_round middleConsistent found
      have smaller := removes stage
      have laterIdle (syncer : Nat) : later.rounds.lookup syncer = none := by
        rw [erased, rounds, erase_insert_erase, lookup_erase_eq, idle syncer]
        split_ifs
        · rfl
        · rfl
      obtain ⟨next, reachedNext, nextConsistent, absent⟩ :=
        ih laterConsistent laterIdle (by omega)
      exact ⟨next, SyncersReach.head (.popItems 0) trivial first
        (reached.trans reachedNext), nextConsistent, absent⟩

/-- From every reachable state the syncers alone can empty the cache. -/
theorem drain :
    ∃ next, SyncersReach program state next ∧ Consistent program next ∧
      ∀ itemid, hcGetItem next.cache itemid = none := by
  obtain ⟨middle, reached, middleConsistent, idle⟩ := finish_rounds consistent
  obtain ⟨next, reachedNext, nextConsistent, absent⟩ := drain_idle middleConsistent idle
  exact ⟨next, reached.trans reachedNext, nextConsistent, absent⟩

omit consistent

/-! ## Queueing -/

/-- What the history cache promises about its queue in a state. -/
structure Queueing (program : ProgramType) (state : State) : Prop where
  /-- Records leave an item in the order they were accepted, each of them once. -/
  fifo : ∀ itemid,
    acceptedOf itemid state.log =
      removedOf itemid state.log ++ queuedValues state.cache itemid
  /-- Every removed record was returned before, once and in order. -/
  answered : ∀ itemid,
    returnedOf itemid state.log =
      (removedOf itemid state.log).map (hcCopyHistoryData itemid) ++
        inFlight itemid (hcGetItem state.cache itemid) (readBy state.rounds itemid)
  /-- The records of a collector are queued or dropped in order, each of them once. -/
  delivered : ∀ collector,
    handledBy collector state.log ++ unfinished state.flushes collector =
      offeredBy collector state.log
  /-- A queued record is a complete clone, and only meta data is ever dropped. -/
  recorded : Recorded state.log
  /-- No item is held by two syncers. -/
  exclusive : ∀ itemid syncer other,
    Holds state syncer itemid → Holds state other itemid → other = syncer
  /-- An item of the index is in the queue once, or held by one syncer. -/
  placed : ∀ itemid, (hcGetItem state.cache itemid).isSome →
    queueCount state.cache itemid = 1 ∧ (∀ syncer, ¬Holds state syncer itemid) ∨
      queueCount state.cache itemid = 0 ∧ ∃! syncer, Holds state syncer itemid
  /-- No section of a collector exits. -/
  collecting : ∀ collector itemValues mem,
    if (state.flushes.lookup collector).isSome then
      (step program state (.wakeUp collector mem)).isSome
    else
      (step program state (.flushHistory collector itemValues mem)).isSome
  /-- The syncers can always go on until everything accepted so far is removed. -/
  drained : ∃ final, SyncersReach program state final ∧
    ∀ itemid, removedOf itemid final.log = acceptedOf itemid state.log ∧
      returnedOf itemid final.log =
        (acceptedOf itemid state.log).map (hcCopyHistoryData itemid)

theorem queueing_of_consistent (consistent : Consistent program state) :
    Queueing program state where
  fifo itemid := by
    have fifo := (consistent.sound.items itemid).fifo
    rw [queuedValues]
    cases found : hcGetItem state.cache itemid <;>
      simpa [viewOf, found, itemValues] using fifo
  answered itemid := (consistent.sound.items itemid).answered
  delivered := consistent.delivered
  recorded := consistent.recorded
  exclusive _ _ _ mine others := holder_unique consistent mine others
  placed _ present := placed consistent present
  collecting collector itemValues mem := by
    cases found : state.flushes.lookup collector with
    | none =>
      obtain ⟨next, executed, -⟩ := stepFlush_consistent consistent itemValues mem found
      simp [step, executed]
    | some waiting =>
      obtain ⟨next, executed, -⟩ := stepWakeUp_consistent consistent mem found
      simp [step, executed]
  drained := by
    obtain ⟨final, reached, finalConsistent, absent⟩ := drain consistent
    refine ⟨final, reached, fun itemid => ?_⟩
    have fifo := (finalConsistent.sound.items itemid).fifo
    have answered := (finalConsistent.sound.items itemid).answered
    simp only [viewOf, absent itemid, itemValues, inFlight, map_none,
      getD_none, append_nil, reached.accepted itemid] at fifo answered
    exact ⟨fifo.symm, fifo ▸ answered⟩

/-- The queue keeps its promises in every reachable state. -/
theorem historyCache_queueing
    (program : ProgramType) (labels : List Label) (state : State)
    (executed : Transition.run (step program) initial labels = some state) :
    Queueing program state :=
  queueing_of_consistent (run_consistent executed)

/--
A collector runs out of memory with its second value and goes on after a sleep;
its third record is dropped; then a syncer takes the first value away.
-/
def sampleRun : List Label :=
  [ .flushHistory 0 [logRecord 100 0x01, logRecord 200 0x01, logRecord 300 0x03]
      [true, true, true, true, true],
    .popItems 1,
    .wakeUp 0 [true],
    .getItemValue 1,
    .pushItems 1 ]

theorem historyCache_queueing_sampleRun :
    ∃ state, Transition.run (step .proxy) initial sampleRun = some state ∧
      Queueing .proxy state ∧
      (acceptedOf 7 state.log).map HcData.lastlogsize = [100, 300] ∧
      (returnedOf 7 state.log).map ZbxDcHistory.lastlogsize = [100] := by
  have computed :
      (Transition.run (step .proxy) initial sampleRun).map (fun state =>
        ((acceptedOf 7 state.log).map HcData.lastlogsize,
          (returnedOf 7 state.log).map ZbxDcHistory.lastlogsize)) =
        some ([100, 300], [100]) := by rfl
  obtain ⟨state, executed, observed⟩ := map_eq_some_iff.mp computed
  rw [Prod.mk.injEq] at observed
  exact ⟨state, executed, historyCache_queueing .proxy sampleRun state executed, observed⟩

end Zabbix.HistoryCache.Fifo
