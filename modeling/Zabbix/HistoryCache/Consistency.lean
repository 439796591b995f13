import Zabbix.HistoryCache.Operations

/-!
# Every step keeps the history cache consistent

`Consistent` is the invariant of the whole system: the item views are sound for
the references that the rounds in progress hold, every round agrees with the
status of its items, every interrupted clone can be completed, every collector
has its records in the log or still pending, and the counter of the cache is
accounted for.
-/

namespace Zabbix.HistoryCache.Consistency

open Option List

open Common.History Records Queue HistoryCache.System Invariant Operations Library.KeyedTable
open Algo.BinaryHeap
open Library

/-! ## What the log says about collectors -/

def offer (collector : Nat) : Event → List DcItemValue
  | .offered other itemValues => if other = collector then itemValues else []
  | _ => []

def handle (collector : Nat) : Event → Option DcItemValue
  | .queued other itemValue _ => if other = collector then some itemValue else none
  | .dropped other itemValue _ => if other = collector then some itemValue else none
  | _ => none

/-- The records a collector has passed to `dc_flush_history`, in order. -/
def offeredBy (collector : Nat) (log : Log) : List DcItemValue :=
  log.flatMap (offer collector)

/-- The records of a collector that were queued or dropped, in order. -/
def handledBy (collector : Nat) (log : Log) : List DcItemValue :=
  log.filterMap (handle collector)

def isDropped : Event → Bool
  | .dropped _ _ _ => true
  | _ => false

/-- How many records were dropped. -/
def droppedCount (log : Log) : Nat :=
  log.countP isDropped

@[simp]
theorem offeredBy_append (collector : Nat) (before after : Log) :
    offeredBy collector (before ++ after) =
      offeredBy collector before ++ offeredBy collector after := by
  simp [offeredBy]

@[simp]
theorem handledBy_append (collector : Nat) (before after : Log) :
    handledBy collector (before ++ after) =
      handledBy collector before ++ handledBy collector after := by
  simp [handledBy]

@[simp]
theorem droppedCount_append (before after : Log) :
    droppedCount (before ++ after) = droppedCount before + droppedCount after := by
  simp [droppedCount]

/--
What an event says about its record, after the given part of the log.  A queued
record is the complete clone of the local one.  A dropped record has meta data
and no value, two values of its item were queued, and the last record accepted
for the item carries its `lastlogsize` and `mtime` from then on.
-/
def Accounted (before : Log) : Event → Prop
  | .queued _ itemValue data => data = clonedData itemValue
  | .dropped collector itemValue head =>
    hasFlag zbxDcFlagNovalue itemValue.flags ∧ hasFlag zbxDcFlagMeta itemValue.flags ∧
      (removedOf itemValue.itemid before).length + 2 ≤
        (acceptedOf itemValue.itemid before).length ∧
      (acceptedOf itemValue.itemid
          (before ++ [.dropped collector itemValue head])).getLast? = some head ∧
      head.lastlogsize = itemValue.lastlogsize ∧ head.mtime = itemValue.mtime ∧
      hasFlag zbxDcFlagMeta head.flags
  | _ => True

/-- Every event of the log is accounted for. -/
def Recorded (log : Log) : Prop :=
  ∀ before event, before ++ [event] <+: log → Accounted before event

theorem Recorded.concat {log : Log} (recorded : Recorded log) {event : Event}
    (accounted : Accounted log event) :
    Recorded (log ++ [event]) := by
  intro before other isPrefix
  rcases prefix_concat_iff.mp isPrefix with same | earlier
  · obtain ⟨rfl, sameEvent⟩ := append_inj' same rfl
    rw [List.cons.injEq] at sameEvent
    exact sameEvent.1 ▸ accounted
  · exact recorded before other earlier

theorem Recorded.append {log events : Log} (recorded : Recorded log)
    (trivialEvents : ∀ event ∈ events, ∀ before, Accounted before event) :
    Recorded (log ++ events) := by
  induction events generalizing log with
  | nil => simpa using recorded
  | cons event rest ih =>
    rw [← singleton_append, ← append_assoc]
    exact ih
      (recorded.concat (trivialEvents event mem_cons_self log))
      (fun other member => trivialEvents other (mem_cons_of_mem _ member))

/-! ## The loop of a collector -/

/-- The records which a section of a collector leaves unfinished. -/
def pendingRecords (result : AddResult) : List DcItemValue :=
  match result.blocked with
  | none => []
  | some (_, itemValue, rest) => itemValue :: rest

/-- The clone that a section of a collector leaves can be completed. -/
def Resumable (result : AddResult) : Prop :=
  ∀ data itemValue rest, result.blocked = some (data, itemValue, rest) →
    PartialClone itemValue data

section Loop

variable {collector : Nat} {P : ZbxDcCache → Log → List DcItemValue → Prop}

/-- The three things a collector does to the cache keep `P`. -/
structure LoopInvariant (collector : Nat)
    (P : ZbxDcCache → Log → List DcItemValue → Prop) : Prop where
  stats : ∀ cache log rest stats, P cache log rest → P { cache with stats } log rest
  queue : ∀ cache log itemValue rest, P cache log (itemValue :: rest) →
    ∃ next, hcAppendData cache itemValue.itemid (clonedData itemValue) = some next ∧
      P next (log ++ [.queued collector itemValue (clonedData itemValue)]) rest
  drop : ∀ cache log itemValue rest item, P cache log (itemValue :: rest) →
    mergeTarget cache itemValue = some item →
    P (cache.setItem (item.merge itemValue))
      (log ++ [.dropped collector itemValue (item.merge itemValue).head]) rest

theorem hcAddItemValues_rule (kept : LoopInvariant collector P)
    {cache : ZbxDcCache} {log : Log} {itemValues : List DcItemValue} (mem : Mem)
    (start : P cache log itemValues) :
    ∃ result, hcAddItemValues collector cache log itemValues mem = some result ∧
      P result.cache result.log (pendingRecords result) ∧
        Resumable result := by
  induction itemValues generalizing cache log mem with
  | nil =>
    exact ⟨_, rfl, start, fun data itemValue rest blocked => by cases blocked⟩
  | cons itemValue rest ih =>
    cases target : mergeTarget cache itemValue with
    | some item =>
      rw [hcAddItemValues, target]
      exact ih mem (kept.drop cache log itemValue rest item start target)
    | none =>
      have progress :
          CloneProgress itemValue (hcCloneHistoryData cache.stats none itemValue mem) :=
        hcCloneHistoryData_progress cache.stats mem trivial
      rw [hcAddItemValues, target]
      dsimp only
      generalize hcCloneHistoryData cache.stats none itemValue mem = clone at progress ⊢
      have counted := kept.stats cache log (itemValue :: rest) clone.stats start
      unfold CloneProgress at progress
      split_ifs at progress ⊢ with done
      · obtain ⟨next, appended, queued⟩ := kept.queue _ log itemValue rest counted
        rw [progress, bind_some, appended, bind_some]
        exact ih clone.mem queued
      · refine ⟨_, rfl, counted, ?_⟩
        rintro data value later ⟨⟩
        exact progress

theorem resumeItemValues_rule (kept : LoopInvariant collector P)
    {cache : ZbxDcCache} {log : Log} {waiting : WaitingFlush} (mem : Mem)
    (earlier : PartialClone waiting.itemValue waiting.data)
    (start : P cache log (waiting.itemValue :: waiting.rest)) :
    ∃ result, resumeItemValues collector cache log waiting mem = some result ∧
      P result.cache result.log (pendingRecords result) ∧
        Resumable result := by
  have progress := hcCloneHistoryData_progress cache.stats mem earlier
  unfold resumeItemValues
  dsimp only
  generalize hcCloneHistoryData cache.stats waiting.data waiting.itemValue mem = clone
    at progress ⊢
  have counted := kept.stats cache log _ clone.stats start
  unfold CloneProgress at progress
  split_ifs at progress ⊢ with done
  · obtain ⟨next, appended, queued⟩ := kept.queue _ log _ _ counted
    rw [progress, bind_some, appended, bind_some]
    exact hcAddItemValues_rule kept clone.mem queued
  · refine ⟨_, rfl, counted, ?_⟩
    rintro data value later ⟨⟩
    exact progress

end Loop

/-! ## What a collector's section does to the system -/

structure SectionOk (held read : ItemId → Nat) (collector : Nat)
    (start : ZbxDcCache) (unfinished : Nat → List DcItemValue) (balance : Int)
    (cache : ZbxDcCache) (log : Log) (rest : List DcItemValue) : Prop where
  sound : Sound held read cache log
  status : StatusKept start cache
  num : cache.historyNum = start.historyNum
  recorded : Recorded log
  delivered : ∀ other,
    handledBy other log ++ (if other = collector then rest else unfinished other) =
      offeredBy other log
  balanced : valuesTotal cache + droppedCount log + rest.length = balance

theorem merge_head {item : HcItem} (several : item.later ≠ []) (itemValue : DcItemValue) :
    (item.merge itemValue).head = mergeMeta itemValue item.head := by
  obtain ⟨front, last, shape⟩ := (eq_nil_or_concat' item.later).resolve_left several
  simp [HcItem.merge, HcItem.head, shape]

theorem getLast_updateLast {item : HcItem} (several : item.later ≠ [])
    (itemValue : DcItemValue) (before : List HcData) :
    (updateLast (mergeMeta itemValue) (before ++ item.later)).getLast? =
      some (item.merge itemValue).head := by
  obtain ⟨front, last, shape⟩ := (eq_nil_or_concat' item.later).resolve_left several
  rw [updateLast_append _ _ several, merge_head several]
  simp [HcItem.head, shape]

theorem sectionOk_kept (held read : ItemId → Nat) (collector : Nat)
    (start : ZbxDcCache) (unfinished : Nat → List DcItemValue) (balance : Int) :
    LoopInvariant collector
      (SectionOk held read collector start unfinished balance) where
  stats cache log rest stats ok :=
    { ok with sound := ok.sound.congr rfl fun _ => rfl }
  queue cache log itemValue rest ok := by
    obtain ⟨next, appended, sound, num, values, status⟩ :=
      append_sound ok.sound collector itemValue (clonedData itemValue)
    refine ⟨next, appended, sound, ok.status.trans status, num.trans ok.num,
      ok.recorded.concat rfl, fun other => ?_, ?_⟩
    · have delivered := ok.delivered other
      by_cases same : other = collector
      · subst same
        simp only [if_true] at delivered ⊢
        simpa [handledBy, offeredBy, handle, offer] using delivered
      · simp only [if_neg same] at delivered ⊢
        simpa [handledBy, offeredBy, handle, offer, Ne.symm same] using delivered
    · have balanced := ok.balanced
      simp only [length_cons, droppedCount_append, values] at balanced ⊢
      simp only [droppedCount, countP_singleton, isDropped]
      push_cast at balanced ⊢
      simp only [droppedCount] at balanced
      omega
  drop cache log itemValue rest item ok target := by
    obtain ⟨sound, values, status⟩ :=
      merge_sound ok.sound collector (item.merge itemValue).head target
    obtain ⟨found, noValue, hasMeta, several⟩ := mergeTarget_eq_some target
    have fifo : acceptedOf itemValue.itemid log =
        (removedOf itemValue.itemid log ++ [item.tail]) ++ item.later := by
      have fifo := (ok.sound.items itemValue.itemid).fifo
      simpa [viewOf, found, itemValues, HcItem.values] using fifo
    refine ⟨sound, ok.status.trans status, ok.num, ok.recorded.concat ?_,
      fun other => ?_, ?_⟩
    · refine ⟨noValue, hasMeta, ?_, ?_, ?_, ?_, ?_⟩
      · have laterLength := length_pos_iff.mpr several
        rw [fifo]
        simp only [length_append, length_cons, length_nil]
        omega
      · rw [acceptedOf_concat, accept, if_pos rfl, fifo]
        exact getLast_updateLast several itemValue _
      · rw [merge_head several]
        rfl
      · rw [merge_head several]
        rfl
      · rw [merge_head several]
        exact hasFlag_or_right _ _ (by decide)
    · have delivered := ok.delivered other
      by_cases same : other = collector
      · subst same
        simp only [if_true] at delivered ⊢
        simpa [handledBy, offeredBy, handle, offer] using delivered
      · simp only [if_neg same] at delivered ⊢
        simpa [handledBy, offeredBy, handle, offer, Ne.symm same] using delivered
    · have balanced := ok.balanced
      rw [droppedCount_append, values]
      simp only [length_cons, droppedCount, countP_singleton, isDropped,
        if_true] at balanced ⊢
      push_cast at balanced ⊢
      omega

/-! ## Rounds -/

/-- How many references the rounds in progress hold to an item. -/
def heldBy (rounds : Table Nat SyncRound) (itemid : ItemId) : Nat :=
  total (fun round => round.historyItems.count itemid) rounds

/-- In how many rounds an item was passed by the loop of `hc_get_item_values`. -/
def readBy (rounds : Table Nat SyncRound) (itemid : ItemId) : Nat :=
  total (fun round => (round.historyItems.take round.readNum).count itemid) rounds

/-- A round agrees with the status of the items it holds. -/
structure RoundOk (program : ProgramType) (cache : ZbxDcCache) (round : SyncRound) :
    Prop where
  counted : round.historyNum = round.historyItems.countP (available cache)
  fresh : round.stage = .popped → round.historyNum = round.historyItems.length
  nonempty : round.historyItems ≠ []
  bound : round.readNum ≤ round.historyItems.length
  unread : round.mayRead program = false → round.readNum = 0

theorem RoundOk.congr {program : ProgramType} {cache next : ZbxDcCache}
    {round : SyncRound} (ok : RoundOk program cache round)
    (same : ∀ itemid ∈ round.historyItems,
      available next itemid = available cache itemid) :
    RoundOk program next round :=
  { ok with
    counted := by
      rw [ok.counted]
      congr 1
      exact countP_congr fun itemid member => by rw [same itemid member] }

/-- The records which a collector has not finished yet. -/
def unfinished (flushes : Table Nat WaitingFlush) (collector : Nat) : List DcItemValue :=
  match flushes.lookup collector with
  | none => []
  | some waiting => waiting.itemValue :: waiting.rest

/-- How many records of the flushes in progress have been finished already. -/
def finishedNum (flushes : Table Nat WaitingFlush) : Int :=
  total (fun waiting => (waiting.itemValuesNum : Int) - (waiting.rest.length + 1)) flushes

/-- The invariant of the history cache. -/
structure Consistent (program : ProgramType) (state : State) : Prop where
  sound : Sound (heldBy state.rounds) (readBy state.rounds) state.cache state.log
  rounds : ∀ syncer round, state.rounds.lookup syncer = some round →
    RoundOk program state.cache round
  resumable : ∀ collector waiting, state.flushes.lookup collector = some waiting →
    PartialClone waiting.itemValue waiting.data
  recorded : Recorded state.log
  delivered : ∀ collector,
    handledBy collector state.log ++ unfinished state.flushes collector =
      offeredBy collector state.log
  balanced :
    state.cache.historyNum + finishedNum state.flushes =
      valuesTotal state.cache + droppedCount state.log

theorem consistent_initial (program : ProgramType) : Consistent program initial where
  sound :=
    { plain := rfl
      items := fun itemid =>
        { balanced := rfl
          readHeld := le_rfl
          keyed := by simp [viewOf, hcGetItem, initial]
          counted := by simp [viewOf, hcGetItem, initial]
          busyHeld := by simp [viewOf, hcGetItem, initial]
          fifo := rfl
          answered := rfl } }
  rounds := by simp [initial]
  resumable := by simp [initial]
  recorded := by
    intro before event isPrefix
    simp [initial] at isPrefix
  delivered _ := rfl
  balanced := rfl

/-! ## Steps of a collector -/

variable {program : ProgramType} {state next : State}

theorem finishFlush_consistent (consistent : Consistent program state)
    {collector itemValuesNum : Nat} {result : AddResult} {balance : Int}
    (ok : SectionOk (heldBy state.rounds) (readBy state.rounds) collector state.cache
      (unfinished state.flushes) balance result.cache result.log (pendingRecords result))
    (resumable : Resumable result)
    (start : state.cache.historyNum + finishedNum (state.flushes.erase collector) +
      itemValuesNum = balance) :
    Consistent program (state.finishFlush collector itemValuesNum result) := by
  have rounds (syncer : Nat) (round : SyncRound)
      (found : state.rounds.lookup syncer = some round) :
      RoundOk program result.cache round := by
    refine (consistent.rounds syncer round found).congr (fun itemid member => ?_)
    have isHeld : heldBy state.rounds itemid ≠ 0 := by
      have share := le_total (fun round => round.historyItems.count itemid) found
      have positive := count_pos_iff.mpr member
      rw [heldBy]
      omega
    obtain ⟨item, present⟩ := (consistent.sound.items itemid).found_of_held isHeld
    exact (ok.status itemid (isSome_iff_exists.mpr ⟨item, present⟩)).2
  have balanced := ok.balanced
  unfold State.finishFlush
  cases blocked : result.blocked with
  | none =>
    have finished : pendingRecords result = [] := by rw [pendingRecords, blocked]
    refine
      { sound := ok.sound.congr rfl fun _ => rfl
        rounds := fun syncer round found => (rounds syncer round found).congr
          fun _ _ => rfl
        resumable := fun other waiting found => ?_
        recorded := ok.recorded
        delivered := fun other => ?_
        balanced := ?_ }
    · rw [lookup_erase_eq] at found
      split_ifs at found
      exact consistent.resumable other waiting found
    · rw [← ok.delivered other, unfinished, lookup_erase_eq, finished]
      split_ifs
      · rfl
      · rfl
    · have num := ok.num
      simp only [finished, length_nil] at balanced
      change result.cache.historyNum + itemValuesNum +
          finishedNum (state.flushes.erase collector) =
        valuesTotal result.cache + droppedCount result.log
      push_cast at balanced
      omega
  | some rest =>
    obtain ⟨data, itemValue, rest⟩ := rest
    have left : pendingRecords result = itemValue :: rest := by
      rw [pendingRecords, blocked]
    refine
      { sound := ok.sound
        rounds := rounds
        resumable := fun other waiting found => ?_
        recorded := ok.recorded
        delivered := fun other => ?_
        balanced := ?_ }
    · rw [lookup_insert_eq] at found
      split_ifs at found with same
      · cases found
        exact resumable data itemValue rest blocked
      · exact consistent.resumable other waiting found
    · rw [← ok.delivered other, unfinished, lookup_insert_eq, left]
      split_ifs
      · rfl
      · rfl
    · have num := ok.num
      simp only [left, length_cons] at balanced
      change result.cache.historyNum + finishedNum (state.flushes.insert collector _) =
        valuesTotal result.cache + droppedCount result.log
      rw [finishedNum, total_insert]
      rw [finishedNum] at start
      push_cast at balanced ⊢
      omega

theorem stepFlush_consistent (consistent : Consistent program state)
    {collector : Nat} (itemValues : List DcItemValue) (mem : Mem)
    (idle : state.flushes.lookup collector = none) :
    ∃ next, stepFlush state collector itemValues mem = some next ∧
      Consistent program next := by
  have start :
      SectionOk (heldBy state.rounds) (readBy state.rounds) collector state.cache
        (unfinished state.flushes)
        (valuesTotal state.cache + droppedCount state.log + itemValues.length)
        state.cache (state.log ++ [.offered collector itemValues]) itemValues :=
    { sound := consistent.sound.congr rfl fun itemid => by
        simp [viewOf, accept, removal, answer]
      status := StatusKept.refl state.cache
      num := rfl
      recorded := consistent.recorded.concat trivial
      delivered := fun other => by
        have delivered := consistent.delivered other
        by_cases same : other = collector
        · subst same
          rw [unfinished, idle] at delivered
          simpa [handledBy, offeredBy, handle, offer, filterMap_cons] using delivered
        · simpa [handledBy, offeredBy, handle, offer, filterMap_cons, same,
            Ne.symm same] using delivered
      balanced := by simp [droppedCount, isDropped] }
  obtain ⟨result, added, ok, resumable⟩ :=
    hcAddItemValues_rule (sectionOk_kept _ _ _ _ _ _) mem start
  refine ⟨_, by rw [stepFlush, idle, added]; rfl, finishFlush_consistent consistent ok resumable ?_⟩
  rw [erase_of_lookup_eq_none idle]
  have balanced := consistent.balanced
  omega

theorem stepWakeUp_consistent (consistent : Consistent program state)
    {collector : Nat} {waiting : WaitingFlush} (mem : Mem)
    (asleep : state.flushes.lookup collector = some waiting) :
    ∃ next, stepWakeUp state collector mem = some next ∧
      Consistent program next := by
  have start :
      SectionOk (heldBy state.rounds) (readBy state.rounds) collector state.cache
        (unfinished state.flushes)
        (valuesTotal state.cache + droppedCount state.log + (waiting.rest.length + 1))
        state.cache state.log (waiting.itemValue :: waiting.rest) :=
    { sound := consistent.sound
      status := StatusKept.refl state.cache
      num := rfl
      recorded := consistent.recorded
      delivered := fun other => by
        have delivered := consistent.delivered other
        split_ifs with same
        · subst same
          rw [unfinished, asleep] at delivered
          exact delivered
        · exact delivered
      balanced := by simp }
  obtain ⟨result, added, ok, resumable⟩ :=
    resumeItemValues_rule (sectionOk_kept _ _ _ _ _ _) mem
      (consistent.resumable collector waiting asleep) start
  refine ⟨_, by simp only [stepWakeUp, asleep, added]; rfl,
    finishFlush_consistent consistent ok resumable ?_⟩
  have balanced := consistent.balanced
  rw [finishedNum, total_eq_add_erase _ asleep] at balanced
  rw [finishedNum]
  omega

/-! ## Steps of a syncer -/

theorem heldBy_eq {rounds : Table Nat SyncRound} {syncer : Nat} {round : SyncRound}
    (found : rounds.lookup syncer = some round) (itemid : ItemId) :
    heldBy rounds itemid =
      round.historyItems.count itemid + heldBy (rounds.erase syncer) itemid :=
  total_eq_add_erase _ found

theorem readBy_eq {rounds : Table Nat SyncRound} {syncer : Nat} {round : SyncRound}
    (found : rounds.lookup syncer = some round) (itemid : ItemId) :
    readBy rounds itemid =
      (round.historyItems.take round.readNum).count itemid +
        readBy (rounds.erase syncer) itemid :=
  total_eq_add_erase _ found

theorem heldBy_insert (rounds : Table Nat SyncRound) (syncer : Nat) (round : SyncRound)
    (itemid : ItemId) :
    heldBy (rounds.insert syncer round) itemid =
      round.historyItems.count itemid + heldBy (rounds.erase syncer) itemid :=
  total_insert _ _ _ _

theorem readBy_insert (rounds : Table Nat SyncRound) (syncer : Nat) (round : SyncRound)
    (itemid : ItemId) :
    readBy (rounds.insert syncer round) itemid =
      (round.historyItems.take round.readNum).count itemid +
        readBy (rounds.erase syncer) itemid :=
  total_insert _ _ _ _

theorem Consistent.disjoint (consistent : Consistent program state)
    {syncer other : Nat} {round otherRound : SyncRound} (different : other ≠ syncer)
    (found : state.rounds.lookup syncer = some round)
    (foundOther : state.rounds.lookup other = some otherRound)
    {itemid : ItemId} (member : itemid ∈ otherRound.historyItems) :
    itemid ∉ round.historyItems := by
  intro shared
  have once := (consistent.sound.items itemid).once
  have remaining : (state.rounds.erase syncer).lookup other = some otherRound := by
    rw [lookup_erase_eq, if_neg different, foundOther]
  have share := le_total (fun round => round.historyItems.count itemid) remaining
  have mine := count_pos_iff.mpr shared
  have others := count_pos_iff.mpr member
  simp only [viewOf, heldBy_eq found] at once
  rw [heldBy] at once
  omega

theorem Consistent.round_held (consistent : Consistent program state)
    {syncer : Nat} {round : SyncRound}
    (found : state.rounds.lookup syncer = some round) :
    round.historyItems.Nodup ∧
      ∀ itemid ∈ round.historyItems,
        heldBy state.rounds itemid ≠ 0 ∧
        heldBy (state.rounds.erase syncer) itemid = 0 ∧
        readBy (state.rounds.erase syncer) itemid = 0 := by
  have counts (itemid : ItemId) :
      round.historyItems.count itemid + heldBy (state.rounds.erase syncer) itemid ≤ 1 := by
    have once := (consistent.sound.items itemid).once
    simp only [viewOf, heldBy_eq found] at once
    omega
  constructor
  · exact nodup_iff_count_le_one.mpr fun itemid =>
      (Nat.le_add_right _ _).trans (counts itemid)
  · intro itemid member
    have mine := count_pos_iff.mpr member
    have count := counts itemid
    have readHeld : readBy (state.rounds.erase syncer) itemid ≤
        heldBy (state.rounds.erase syncer) itemid :=
      total_mono (fun round => (take_sublist _ _).count_le itemid) _
    have held := heldBy_eq found itemid
    omega

theorem stepPop_consistent (consistent : Consistent program state)
    {syncer : Nat} (idle : state.rounds.lookup syncer = none) :
    ∃ next, stepPop state syncer = some next ∧ Consistent program next ∧
      valuesTotal next.cache = valuesTotal state.cache ∧
      (¬zbxBinaryHeapEmpty state.cache.historyQueue →
        ∃ round, next.rounds = state.rounds.insert syncer round ∧
          round.stage = .popped) := by
  obtain ⟨taken, cache, popped, sound, items, num, isAvailable, exhausted⟩ :=
    popItemsLoop_sound consistent.sound zbxHcSyncMax []
  rw [nil_append] at popped
  have getItem (itemid : ItemId) :
      hcGetItem cache itemid = hcGetItem state.cache itemid := by
    rw [hcGetItem, items, hcGetItem]
  have rounds (other : Nat) (round : SyncRound)
      (found : state.rounds.lookup other = some round) : RoundOk program cache round :=
    (consistent.rounds other round found).congr fun itemid _ =>
      available_congr (getItem itemid)
  have total : valuesTotal cache = valuesTotal state.cache := by
    rw [valuesTotal, items, valuesTotal]
  have balanced : cache.historyNum + finishedNum state.flushes =
      valuesTotal cache + droppedCount state.log := by
    rw [num, total]
    exact consistent.balanced
  cases taken with
  | nil =>
    refine ⟨{ state with cache }, by simp [stepPop, idle, hcPopItems, popped], ?_,
      total, fun nonempty => ?_⟩
    · exact
        { consistent with
          sound := by simpa using sound
          rounds := rounds
          balanced := balanced }
    · exact absurd ((exhausted rfl).resolve_left (by decide)) nonempty
  | cons itemid rest =>
    have round : RoundOk program cache
        { historyItems := itemid :: rest, historyNum := (itemid :: rest).length } := by
      refine ⟨?_, fun _ => rfl, by simp, Nat.zero_le _, fun _ => rfl⟩
      have all : (itemid :: rest).countP (available cache) = (itemid :: rest).length := by
        rw [countP_eq_length]
        intro other member
        rw [available_congr (getItem other)]
        exact isAvailable other member
      exact congrArg Nat.cast all.symm
    refine ⟨{ state with
      cache
      rounds := state.rounds.insert syncer
        { historyItems := itemid :: rest, historyNum := (itemid :: rest).length } },
      by simp only [stepPop, idle, hcPopItems, popped, map_some], ?_, total,
      fun _ => ⟨_, rfl, rfl⟩⟩
    refine
      { consistent with
        sound := sound.congr rfl fun other => ?_
        rounds := fun other otherRound found => ?_
        balanced := balanced }
    · simp only [viewOf, heldBy_insert, readBy_insert, erase_of_lookup_eq_none idle]
      simp [Nat.add_comm]
    · dsimp only at found
      rw [lookup_insert_eq] at found
      split_ifs at found with same
      · cases found
        exact round
      · exact rounds other otherRound found

theorem stepLock_consistent (consistent : Consistent .server state)
    {syncer : Nat} {round : SyncRound} (locked : List ItemId)
    (found : state.rounds.lookup syncer = some round) (stage : round.stage = .popped) :
    ∃ next, stepLock .server state syncer locked = some next ∧
      Consistent .server next ∧
      valuesTotal next.cache = valuesTotal state.cache ∧
      ∃ lockedRound, next.rounds = state.rounds.insert syncer lockedRound ∧
        lockedRound.stage = .locked ∧
        (locked = [] → lockedRound.historyNum = round.historyNum) := by
  have ok := consistent.rounds syncer round found
  obtain ⟨nodup, heldRound⟩ := consistent.round_held found
  have unread : round.readNum = 0 := ok.unread (by simp [SyncRound.mayRead, stage])
  have allAvailable : ∀ itemid ∈ round.historyItems, available state.cache itemid := by
    have counted := ok.counted
    rw [ok.fresh stage] at counted
    exact countP_eq_length.mp (Int.ofNat.inj counted.symm)
  obtain ⟨cache, lockedNum, marked, sound, values, num, others, count⟩ :=
    lockTriggers_sound locked consistent.sound nodup
      (fun itemid member => (heldRound itemid member).1)
      (fun itemid member => by
        rw [readBy_eq found, unread, take_zero, count_nil, Nat.zero_add]
        exact (heldRound itemid member).2.2)
      allAvailable
  let historyNum : Int := round.historyItems.length - lockedNum
  let historyItems :=
    if historyNum = 0 then round.historyItems else round.historyItems.mergeSort (· ≤ ·)
  have permuted : historyItems.Perm round.historyItems := by
    simp only [historyItems]
    split_ifs
    · exact List.Perm.refl _
    · exact mergeSort_perm _ _
  refine ⟨{ state with
    cache
    rounds := state.rounds.insert syncer
      { round with stage := .locked, historyItems, historyNum } },
    by simp only [stepLock, found, stage, marked]; rfl, ?_, values, _, rfl, rfl,
    fun unlocked => ?_⟩
  on_goal 2 =>
    subst unlocked
    have unmarked := lockTriggers_nil marked
    rw [ok.fresh stage]
    simp only [historyNum, unmarked]
    omega
  refine
    { consistent with
      sound := sound.congr rfl fun itemid => ?_
      rounds := fun other otherRound foundOther => ?_
      balanced := ?_ }
  · simp only [viewOf, heldBy_insert, readBy_insert, permuted.count_eq, heldBy_eq found,
      readBy_eq found, unread, take_zero]
  · dsimp only at foundOther
    rw [lookup_insert_eq] at foundOther
    split_ifs at foundOther with same
    · cases foundOther
      refine ⟨?_, (fun popped => by cases popped), ?_, ?_, fun _ => unread⟩
      · simp only [permuted.countP_eq, historyNum]
        omega
      · exact fun empty => ok.nonempty (perm_nil.mp (empty ▸ permuted.symm))
      · dsimp only
        rw [unread]
        exact Nat.zero_le _
    · refine (consistent.rounds other otherRound foundOther).congr fun itemid member => ?_
      exact available_congr
        (others itemid (consistent.disjoint same found foundOther member))
  · change cache.historyNum + _ = valuesTotal cache + _
    rw [values, num]
    exact consistent.balanced

@[simp]
theorem hcCopyHistoryData_itemid (itemid : ItemId) (data : HcData) :
    (hcCopyHistoryData itemid data).itemid = itemid := by
  unfold hcCopyHistoryData
  split_ifs <;> rfl

theorem stepGet_consistent (consistent : Consistent program state)
    {syncer : Nat} {round : SyncRound}
    (found : state.rounds.lookup syncer = some round)
    (mayRead : round.mayRead program) (more : round.readNum < round.historyItems.length) :
    ∃ next, stepGet program state syncer = some next ∧ Consistent program next ∧
      next.cache = state.cache ∧
      next.rounds =
        state.rounds.insert syncer { round with readNum := round.readNum + 1 } := by
  have ok := consistent.rounds syncer round found
  obtain ⟨nodup, heldRound⟩ := consistent.round_held found
  let itemid := round.historyItems[round.readNum]
  have position : round.historyItems[round.readNum]? = some itemid :=
    getElem?_eq_getElem more
  have member : itemid ∈ round.historyItems := getElem_mem more
  obtain ⟨isHeld, -, unreadOthers⟩ := heldRound itemid member
  have split : round.historyItems.take (round.readNum + 1) =
      round.historyItems.take round.readNum ++ [itemid] := by
    rw [take_add_one, position]
    rfl
  have fresh : itemid ∉ round.historyItems.take round.readNum := by
    have prefixNodup : (round.historyItems.take (round.readNum + 1)).Nodup :=
      nodup.sublist (take_sublist _ _)
    rw [split, nodup_append] at prefixNodup
    intro earlier
    exact prefixNodup.2.2 itemid earlier itemid mem_cons_self rfl
  have unread : readBy state.rounds itemid = 0 := by
    rw [readBy_eq found, count_eq_zero_of_not_mem fresh, unreadOthers]
  obtain ⟨item, foundItem⟩ := (consistent.sound.items itemid).found_of_held isHeld
  have foundItem' : hcGetItem state.cache itemid = some item := foundItem
  let log := if item.status = .busy then state.log
    else state.log ++ [.returned syncer (hcCopyHistoryData itemid item.tail)]
  refine ⟨{ state with
    rounds := state.rounds.insert syncer { round with readNum := round.readNum + 1 }
    log },
    by simp only [stepGet, found, mayRead, if_true, position, bind_some,
      foundItem', map_some, log], ?_, rfl, rfl⟩
  have counts (other : ItemId) :
      heldBy (state.rounds.insert syncer { round with readNum := round.readNum + 1 })
          other = heldBy state.rounds other ∧
        readBy (state.rounds.insert syncer { round with readNum := round.readNum + 1 })
          other = readBy state.rounds other + if other = itemid then 1 else 0 := by
    rw [heldBy_insert, readBy_insert, heldBy_eq found, readBy_eq found, split,
      count_append, count_singleton]
    refine ⟨rfl, ?_⟩
    simp only [beq_iff_eq, eq_comm (a := itemid)]
    omega
  -- the log says nothing about records of a collector
  have events : log = state.log ∨
      log = state.log ++ [.returned syncer (hcCopyHistoryData itemid item.tail)] := by
    simp only [log]
    split_ifs
    · exact Or.inl rfl
    · exact Or.inr rfl
  refine
    { consistent with
      sound := ?_
      rounds := fun other otherRound foundOther => ?_
      recorded := ?_
      delivered := fun collector => ?_
      balanced := ?_ }
  · refine consistent.sound.change itemid rfl (fun other different => ?_) ?_
    · rcases events with same | same
      · simp [viewOf, counts, different, same]
      · simp [viewOf, counts, different, different.symm, same, accept, removal, answer]
    · have copied := (consistent.sound.items itemid).get foundItem isHeld unread
      simp only [viewOf, counts, unread, if_true, Nat.zero_add] at copied ⊢
      cases status : item.status with
      | busy => simpa [log, status] using copied
      | normal => simpa [log, status, accept, removal, answer] using copied
  · dsimp only at foundOther
    rw [lookup_insert_eq] at foundOther
    split_ifs at foundOther with same
    · cases foundOther
      exact
        { counted := ok.counted
          fresh := ok.fresh
          nonempty := ok.nonempty
          bound := more
          unread := fun locked => by
            have refused : round.mayRead program = false := locked
            rw [mayRead] at refused
            cases refused }
    · exact consistent.rounds other otherRound foundOther
  · rcases events with same | same
    · exact same ▸ consistent.recorded
    · exact same ▸ consistent.recorded.concat trivial
  · rcases events with same | same
    · exact same ▸ consistent.delivered collector
    · have delivered := consistent.delivered collector
      dsimp only
      rw [same]
      simpa [handledBy, offeredBy, handle, offer, filterMap_cons] using delivered
  · rcases events with same | same
    · exact same ▸ consistent.balanced
    · have balanced := consistent.balanced
      dsimp only
      rw [same]
      simpa [droppedCount, isDropped] using balanced

def SyncRound.mayPush (program : ProgramType) (round : SyncRound) : Prop :=
  round.mayRead program ∧ round.readNum = round.historyItems.length ∨
    program = .server ∧ round.stage = .locked ∧ round.historyNum = 0

theorem stepPush_consistent (consistent : Consistent program state)
    {syncer : Nat} {round : SyncRound}
    (found : state.rounds.lookup syncer = some round)
    (mayPush : SyncRound.mayPush program round) :
    ∃ next, stepPush program state syncer = some next ∧ Consistent program next ∧
      valuesTotal next.cache + round.historyNum = valuesTotal state.cache ∧
      next.rounds = state.rounds.erase syncer := by
  have ok := consistent.rounds syncer round found
  obtain ⟨nodup, heldRound⟩ := consistent.round_held found
  have processed : ∀ itemid ∈ round.historyItems,
      available state.cache itemid → readBy state.rounds itemid ≠ 0 := by
    intro itemid member isAvailable
    rcases mayPush with ⟨-, complete⟩ | ⟨-, -, none⟩
    · have share := count_pos_iff.mpr member
      rw [readBy_eq found, complete, take_length]
      omega
    · have counted := ok.counted
      rw [none] at counted
      have zero : round.historyItems.countP (available state.cache) = 0 := by omega
      exact absurd isAvailable (countP_eq_zero.mp zero itemid member)
  obtain ⟨cache, events, pushed, sound, num, values, others, shape⟩ :=
    pushItems_sound syncer nodup consistent.sound
      (fun itemid member => (heldRound itemid member).1) processed
  refine ⟨{ state with
    cache := { cache with historyNum := cache.historyNum - round.historyNum }
    rounds := state.rounds.erase syncer
    log := state.log ++ events },
    by
      rw [SyncRound.mayPush] at mayPush
      simp only [stepPush, found, if_pos mayPush, pushed, map_some], ?_,
    by rw [ok.counted]; exact values, rfl⟩
  have silent (P : Event → Prop) (removals : ∀ itemid data, P (.removed syncer itemid data)) :
      ∀ event ∈ events, P event := by
    intro event member
    obtain ⟨itemid, data, rfl⟩ := shape event member
    exact removals itemid data
  refine
    { consistent with
      sound := sound.congr rfl fun itemid => ?_
      rounds := fun other otherRound foundOther => ?_
      recorded := consistent.recorded.append
        (silent _ fun itemid data before => trivial)
      delivered := fun collector => ?_
      balanced := ?_ }
  · have erased : heldBy (state.rounds.erase syncer) itemid =
          (if itemid ∈ round.historyItems then 0 else heldBy state.rounds itemid) ∧
        readBy (state.rounds.erase syncer) itemid =
          if itemid ∈ round.historyItems then 0 else readBy state.rounds itemid := by
      split_ifs with member
      · exact (heldRound itemid member).2
      · have absent (elements : List ItemId) (part : elements ⊆ round.historyItems) :
            elements.count itemid = 0 :=
          count_eq_zero_of_not_mem fun inside => member (part inside)
        rw [heldBy_eq found, readBy_eq found, absent _ (List.Subset.refl _),
          absent _ (take_subset _ _)]
        exact ⟨(Nat.zero_add _).symm, (Nat.zero_add _).symm⟩
    simp only [viewOf, erased]
    rfl
  · dsimp only at foundOther
    rw [lookup_erase_eq] at foundOther
    split_ifs at foundOther with same
    refine (consistent.rounds other otherRound foundOther).congr fun itemid member => ?_
    exact available_congr
      (others itemid (consistent.disjoint same found foundOther member))
  · have quiet : handledBy collector events = [] ∧ offeredBy collector events = [] := by
      constructor
      · exact filterMap_eq_nil_iff.mpr (silent _ fun itemid data => rfl)
      · exact flatMap_eq_nil_iff.mpr (silent _ fun itemid data => rfl)
    dsimp only
    rw [handledBy_append, offeredBy_append, quiet.1, quiet.2, append_nil, append_nil]
    exact consistent.delivered collector
  · have none : droppedCount events = 0 :=
      countP_eq_zero.mpr (silent _ fun itemid data => by simp [isDropped])
    have balanced := consistent.balanced
    have counted := ok.counted
    change cache.historyNum - round.historyNum + _ =
      valuesTotal cache + droppedCount (state.log ++ events)
    rw [droppedCount_append, none]
    push_cast
    omega

/-! ## What syncers write to the log -/

def IsSyncer : Label → Prop
  | .flushHistory _ _ _ => False
  | .wakeUp _ _ => False
  | _ => True

def FromSyncer : Event → Prop
  | .returned _ _ => True
  | .removed _ _ _ => True
  | _ => False

theorem hcPushItems_log {syncer : Nat} {batch : List ItemId}
    {cache after : ZbxDcCache} {log logAfter : Log}
    (pushed : hcPushItems syncer cache log batch = some (after, logAfter)) :
    ∃ events, logAfter = log ++ events ∧ ∀ event ∈ events, FromSyncer event := by
  induction batch generalizing cache log with
  | nil =>
    simp only [hcPushItems, some.injEq, Prod.mk.injEq] at pushed
    exact ⟨[], by simp [pushed.2], by simp⟩
  | cons head rest ih =>
    rw [hcPushItems, bind_eq_some_iff] at pushed
    obtain ⟨⟨middle, removed⟩, -, later⟩ := pushed
    obtain ⟨events, shape, fromSyncer⟩ := ih later
    refine ⟨(removed.map (Event.removed syncer head)).toList ++ events, ?_, ?_⟩
    · rw [shape, append_assoc]
    · intro event member
      rcases mem_append.mp member with member | member
      · cases removed with
        | none => simp at member
        | some data =>
          rw [show event = .removed syncer head data by simpa using member]
          trivial
      · exact fromSyncer event member

theorem syncer_log {label : Label} (isSyncer : IsSyncer label)
    (executed : step program state label = some next) :
    ∃ events, next.log = state.log ++ events ∧ ∀ event ∈ events, FromSyncer event := by
  have nothing : ∃ events, state.log = state.log ++ events ∧
      ∀ event ∈ events, FromSyncer event :=
    ⟨[], by simp, by simp⟩
  cases label with
  | flushHistory collector itemValues mem => exact absurd isSyncer id
  | wakeUp collector mem => exact absurd isSyncer id
  | popItems syncer =>
    simp only [step, stepPop] at executed
    split at executed
    next => cases executed
    next =>
      obtain ⟨popped, -, rfl⟩ := map_eq_some_iff.mp executed
      split
      · exact nothing
      · exact nothing
  | lockTriggers syncer locked =>
    simp only [step, stepLock] at executed
    split at executed
    next => cases executed
    next =>
      split_ifs at executed
      obtain ⟨result, -, rfl⟩ := map_eq_some_iff.mp executed
      exact nothing
  | getItemValue syncer =>
    simp only [step, stepGet] at executed
    split at executed
    next => cases executed
    next =>
      split_ifs at executed
      obtain ⟨other, -, copied⟩ := bind_eq_some_iff.mp executed
      obtain ⟨item, -, rfl⟩ := map_eq_some_iff.mp copied
      dsimp only
      split_ifs
      · exact nothing
      · refine ⟨_, rfl, fun event member => ?_⟩
        rw [mem_singleton.mp member]
        trivial
  | pushItems syncer =>
    simp only [step, stepPush] at executed
    split at executed
    next => cases executed
    next =>
      split_ifs at executed
      obtain ⟨pushed, done, rfl⟩ := map_eq_some_iff.mp executed
      exact hcPushItems_log done

/-! ## Every step and every run -/

theorem step_consistent (consistent : Consistent program state)
    {label : Label} (executed : step program state label = some next) :
    Consistent program next := by
  have determined {outcome : Option State}
      (good : ∃ next, outcome = some next ∧ Consistent program next)
      (same : outcome = some next) : Consistent program next := by
    obtain ⟨other, isOther, otherConsistent⟩ := good
    rw [isOther] at same
    exact some.inj same ▸ otherConsistent
  cases label with
  | flushHistory collector itemValues mem =>
    cases idle : state.flushes.lookup collector with
    | none => exact determined (stepFlush_consistent consistent itemValues mem idle) executed
    | some waiting => simp [step, stepFlush, idle] at executed
  | wakeUp collector mem =>
    cases asleep : state.flushes.lookup collector with
    | none => simp [step, stepWakeUp, asleep] at executed
    | some waiting => exact determined (stepWakeUp_consistent consistent mem asleep) executed
  | popItems syncer =>
    cases idle : state.rounds.lookup syncer with
    | none =>
      obtain ⟨other, isOther, otherConsistent, -⟩ := stepPop_consistent consistent idle
      exact determined ⟨other, isOther, otherConsistent⟩ executed
    | some round => simp [step, stepPop, idle] at executed
  | lockTriggers syncer locked =>
    cases found : state.rounds.lookup syncer with
    | none => simp [step, stepLock, found] at executed
    | some round =>
      by_cases enabled : program = .server ∧ round.stage = .popped
      · obtain ⟨rfl, stage⟩ := enabled
        obtain ⟨other, isOther, otherConsistent, -⟩ :=
          stepLock_consistent consistent locked found stage
        exact determined ⟨other, isOther, otherConsistent⟩ executed
      · simp [step, stepLock, found, enabled] at executed
  | getItemValue syncer =>
    cases found : state.rounds.lookup syncer with
    | none => simp [step, stepGet, found] at executed
    | some round =>
      by_cases mayRead : round.mayRead program
      · by_cases more : round.readNum < round.historyItems.length
        · obtain ⟨other, isOther, otherConsistent, -⟩ :=
            stepGet_consistent consistent found mayRead more
          exact determined ⟨other, isOther, otherConsistent⟩ executed
        · simp [step, stepGet, found, getElem?_eq_none (Nat.le_of_not_lt more)]
            at executed
      · simp [step, stepGet, found, mayRead] at executed
  | pushItems syncer =>
    cases found : state.rounds.lookup syncer with
    | none => simp [step, stepPush, found] at executed
    | some round =>
      by_cases mayPush : SyncRound.mayPush program round
      · obtain ⟨other, isOther, otherConsistent, -⟩ :=
          stepPush_consistent consistent found mayPush
        exact determined ⟨other, isOther, otherConsistent⟩ executed
      · rw [SyncRound.mayPush] at mayPush
        simp [step, stepPush, found, if_neg mayPush] at executed

/-- The invariant holds in every reachable state of the history cache. -/
theorem run_consistent {labels : List Label}
    (executed : Transition.run (step program) initial labels = some state) :
    Consistent program state :=
  Transition.run_invariant
    (fun _ _ _ consistent executed => step_consistent consistent executed)
    (consistent_initial program) executed

end Zabbix.HistoryCache.Consistency
