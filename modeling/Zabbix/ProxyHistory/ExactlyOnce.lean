import Zabbix.ProxyHistory.Upload

/-!
# The history of a proxy is processed once

The data sender and the server overlap only at the ids: a request starts at the stored last
id and leaves out nothing that counts up to its own last id, and the server takes what is
above its last value id.  So the server is never ahead of what it has processed, and the
data sender stores nothing that the server has not been given.
-/

namespace Zabbix.ProxyHistory.ExactlyOnce

open Library Library.Transition Records Gathering Coverage Receiving Upload List Option

variable {Content : Type} {packet : Nat → Nat → ZbxHistoryData Content → Nat} {proxyid : Nat}
variable {state next final : State Content} {event : Event Content}
variable {events : List (Event Content)} {steady : ZbxHistoryData Content → Prop} {start : Nat}

/-! ## The invariant -/

/-- A record of the session that has to be processed. -/
structure Due (steady : ZbxHistoryData Content → Prop) (start : Nat)
    (table : List (ZbxHistoryData Content)) (record : ZbxHistoryData Content) : Prop where
  isRecord : record ∈ table
  isSteady : steady record
  hasTime : record.HasTime
  notSuperseded : ¬ Superseded table record
  above : start < record.id

/-- What the requests of the session hold, and what has been processed of them. -/
structure Sound (steady : ZbxHistoryData Content → Prop) (start : Nat) (state : State Content) :
    Prop where
  begun : start ≤ state.lastid
  ordered : OrderedLog.Ordered ZbxHistoryData.id state.table
  positive : ∀ record ∈ state.table, 0 < record.id
  holds : ∀ message ∈ state.sent, ∃ low, low ≤ state.lastid ∧ Holds state.table steady low message
  current : ∀ index answered, state.outstanding = some (index, answered) →
    ∃ message, state.sent[index]? = some message ∧
      Holds state.table steady state.lastid message ∧
        (answered = true → ∀ record, Due steady start state.table record →
          record.id ≤ message.lastid → agentValue record ∈ state.processed)
  passed : ∀ record, Due steady start state.table record →
    record.id ≤ state.lastid ∨ record.id ≤ state.lastValueid →
      agentValue record ∈ state.processed
  increasing : state.processed.Pairwise fun first second => first.id < second.id
  upTo : ∀ value ∈ state.processed, value.id ≤ state.lastValueid
  seen : state.lastValueid ≤ state.lastid ∨
    ∃ record ∈ state.table, state.lastValueid ≤ record.id

theorem sound_start (begin : Start Content) (steady : ZbxHistoryData Content → Prop) :
    Sound steady begin.lastid (State.start begin) where
  begun := Nat.le_refl _
  ordered := begin.ordered
  positive := begin.positive
  holds := nofun
  current := nofun
  passed := fun record due passed => by
    have above := due.above
    simp only [State.start] at passed
    omega
  increasing := List.Pairwise.nil
  upTo := nofun
  seen := Or.inl (Nat.zero_le _)

/-! ## Steps -/

variable (sound : Sound steady start state)

include sound

theorem Sound.append {record : ZbxHistoryData Content}
    (isPositive : 0 < record.id) (above : state.lastid < record.id)
    (aboveAll : ∀ old ∈ state.table, old.id < record.id) :
    Sound steady start { state with table := state.table ++ [record] } := by
  have isOld : ∀ {other : ZbxHistoryData Content},
      Due steady start (state.table ++ [record]) other → other.id < record.id →
        Due steady start state.table other := by
    intro other due below
    refine ⟨?_, due.isSteady, due.hasTime, ?_, due.above⟩
    · refine (mem_append.mp due.isRecord).resolve_right fun isNew => ?_
      rw [mem_singleton.mp isNew] at below
      exact Nat.lt_irrefl _ below
    · exact fun superseded => due.notSuperseded
        (superseded.mono fun later => mem_append_left [record])
  have seenBelow : state.lastValueid < record.id := by
    rcases sound.seen with below | ⟨old, isIn, below⟩
    · exact Nat.lt_of_le_of_lt below above
    · exact Nat.lt_of_le_of_lt below (aboveAll old isIn)
  refine ⟨sound.begun, sound.ordered.concat aboveAll, ?_, ?_, ?_, ?_, sound.increasing,
    sound.upTo, ?_⟩
  · intro other isIn
    rcases mem_append.mp isIn with isIn | isNew
    · exact sound.positive other isIn
    · rwa [mem_singleton.mp isNew]
  · intro message isSent
    obtain ⟨low, forward, holds⟩ := sound.holds message isSent
    exact ⟨low, forward, holds.append (Nat.lt_of_le_of_lt forward above) aboveAll⟩
  · intro index answered isCurrent
    obtain ⟨message, isSent, holds, given⟩ := sound.current index answered isCurrent
    refine ⟨message, isSent, holds.append above aboveAll, fun isAnswered other due below => ?_⟩
    have reached : message.lastid < record.id := by
      rcases holds with ⟨isZero, -⟩ | covers
      · omega
      · rcases covers.visible with same | ⟨old, isIn, same⟩
        · exact same ▸ above
        · exact same ▸ aboveAll old isIn
    exact given isAnswered other (isOld due (Nat.lt_of_le_of_lt below reached)) below
  · intro other due passed
    refine sound.passed other (isOld due ?_) passed
    dsimp only at passed
    omega
  · exact sound.seen.imp_right fun ⟨old, isIn, below⟩ =>
      ⟨old, mem_append_left _ isIn, below⟩

theorem Sound.send {offset : Nat} {batches : List Batch}
    {request : Request Content} {more : Bool}
    (accepted : ∀ record, steady record → ∀ batch ∈ batches, isAdded batch.dcItems record = true)
    (gathered : proxyGetHistData packet state.table state.lastid offset batches =
      some (request, more)) :
    Sound steady start
      { state with
        sent := state.sent ++ [⟨request.lastid, request.rows⟩]
        outstanding := some (state.sent.length, false) } := by
  have holds : Holds state.table steady state.lastid ⟨request.lastid, request.rows⟩ :=
    proxyGetHistData_covers sound.ordered
      (fun batch isBatch record isSteady => accepted record isSteady batch isBatch) gathered
  refine ⟨sound.begun, sound.ordered, sound.positive, ?_, ?_, sound.passed, sound.increasing,
    sound.upTo, sound.seen⟩
  · intro message isSent
    rcases mem_append.mp isSent with isOld | isNew
    · exact sound.holds message isOld
    · exact ⟨state.lastid, Nat.le_refl _, mem_singleton.mp isNew ▸ holds⟩
  · intro index answered isCurrent
    obtain ⟨rfl, rfl⟩ := Prod.mk.inj (some.inj isCurrent)
    exact ⟨_, getElem?_concat_length, holds, nofun⟩

theorem Sound.process {index : Nat} {chunks : Nat → RecvItems}
    {message : Message Content} {outcome : List (ZbxAgentValue Content) × Nat}
    (accepted : ∀ record, steady record →
      ∀ chunk, isTaken proxyid (chunks chunk) (agentValue record) = true)
    (isSent : state.sent[index]? = some message)
    (advances : Advances proxyid chunks (parsedValues message.rows) state.lastValueid outcome) :
    Sound steady start
      { state with
        lastValueid := outcome.2
        processed := state.processed ++ outcome.1
        outstanding := state.outstanding.map fun (current, answered) =>
          (current, answered || current == index) } := by
  obtain ⟨low, low_le, holds⟩ := sound.holds message (mem_of_getElem? isSent)
  have isAbove : ∀ value ∈ outcome.1, state.lastValueid < value.id := by
    intro value isIn
    have inside := holds.value_inside (advances.part.subset isIn)
    exact (isNew_iff (Nat.zero_lt_of_lt inside.1)).mp (advances.new value isIn)
  -- A record above the session that the request covers is processed now.
  have isProcessed : ∀ record, Due steady start state.table record → state.lastid < record.id →
      record.id ≤ message.lastid → agentValue record ∈ state.processed ++ outcome.1 := by
    intro record due above below
    by_cases isOld : record.id ≤ state.lastValueid
    · exact mem_append_left _ (sound.passed record due (Or.inr isOld))
    · refine mem_append_right _ (advances.complete _ ?_ ?_ (accepted record due.isSteady))
      · exact holds.value_mem due.isRecord due.isSteady due.hasTime due.notSuperseded
          (Nat.lt_of_le_of_lt low_le above) below
      · exact (isNew_iff (sound.positive record due.isRecord)).mpr (Nat.lt_of_not_le isOld)
  have passedLater : ∀ record, Due steady start state.table record → record.id ≤ state.lastid →
      agentValue record ∈ state.processed ++ outcome.1 := fun record due below =>
    mem_append_left _ (sound.passed record due (Or.inl below))
  refine ⟨sound.begun, sound.ordered, sound.positive, sound.holds, ?_, ?_, ?_, ?_, ?_⟩
  · intro index' answered isCurrent
    obtain ⟨⟨current, before⟩, isBefore, same⟩ := map_eq_some_iff.mp isCurrent
    obtain ⟨rfl, rfl⟩ := Prod.mk.inj same
    obtain ⟨outstanding, isOutstanding, covers, given⟩ := sound.current current before isBefore
    refine ⟨outstanding, isOutstanding, covers, fun isAnswered record due below => ?_⟩
    rcases Bool.or_eq_true_iff.mp isAnswered with already | isThis
    · exact mem_append_left _ (given already record due below)
    · rw [beq_iff_eq.mp isThis] at isOutstanding
      obtain rfl := some.inj (isSent.symm.trans isOutstanding)
      by_cases isPassed : record.id ≤ state.lastid
      · exact passedLater record due isPassed
      · exact isProcessed record due (Nat.lt_of_not_le isPassed) below
  · intro record due passed
    by_cases isPassed : record.id ≤ state.lastid
    · exact passedLater record due isPassed
    · have below := passed.resolve_left isPassed
      dsimp only at below
      rcases advances.last with same | ⟨value, isValue, same⟩
      · exact mem_append_left _ (sound.passed record due (Or.inr (same ▸ below)))
      · refine isProcessed record due (Nat.lt_of_not_le isPassed) ?_
        exact (same ▸ below).trans (holds.value_inside isValue).2
  · refine pairwise_append.mpr ⟨sound.increasing, ?_, ?_⟩
    · exact holds.values_ordered.sublist advances.part
    · intro old isOld new isNew
      exact Nat.lt_of_le_of_lt (sound.upTo old isOld) (isAbove new isNew)
  · intro value isIn
    rcases mem_append.mp isIn with isOld | isNew
    · exact (sound.upTo value isOld).trans advances.forward
    · exact holds.value_le proxyid advances (advances.part.subset isNew)
  · rcases advances.last with same | ⟨value, isValue, same⟩
    · exact same ▸ sound.seen
    · have below := (holds.value_inside isValue).2
      rcases holds with ⟨isZero, -⟩ | covers
      · exact Or.inl (by dsimp only; omega)
      · rcases covers.visible with isLow | ⟨record, isRecord, isLast⟩
        · exact Or.inl (by dsimp only; omega)
        · exact Or.inr ⟨record, isRecord, by dsimp only; omega⟩

theorem Sound.fail :
    Sound steady start { state with outstanding := none } :=
  ⟨sound.begun, sound.ordered, sound.positive, sound.holds, nofun, sound.passed,
    sound.increasing, sound.upTo, sound.seen⟩

theorem Sound.succeed {index : Nat} {message : Message Content}
    (isCurrent : state.outstanding = some (index, true))
    (isSent : state.sent[index]? = some message) :
    Sound steady start
      { state with
        lastid := if message.lastid ≠ 0 then message.lastid else state.lastid
        outstanding := none } := by
  obtain ⟨outstanding, isOutstanding, holds, given⟩ := sound.current index true isCurrent
  obtain rfl := some.inj (isSent.symm.trans isOutstanding)
  split
  next notZero =>
    have forward := holds.forward notZero
    refine ⟨sound.begun.trans forward, sound.ordered, sound.positive, ?_, nofun, ?_,
      sound.increasing, sound.upTo, sound.seen.imp_left fun below => below.trans forward⟩
    · intro other isOther
      obtain ⟨low, low_le, covers⟩ := sound.holds other isOther
      exact ⟨low, low_le.trans forward, covers⟩
    · intro record due passed
      rcases passed with below | below
      · exact given rfl record due below
      · exact sound.passed record due (Or.inr below)
  next => exact sound.fail

/-- Every step keeps the invariant, if its checks let the steady records through. -/
theorem sound_step (accepted : ∀ record, steady record → event.accepts proxyid record)
    (executed : step packet proxyid state event = some next) :
    Sound steady start next := by
  cases event with
  | append record =>
    simp only [step] at executed
    split at executed
    next guards =>
      obtain rfl := some.inj executed
      exact sound.append guards.1 guards.2.1 guards.2.2
    next => cases executed
  | send offset batches =>
    simp only [step] at executed
    split at executed
    · obtain ⟨⟨request, more⟩, gathered, rfl⟩ := map_eq_some_iff.mp executed
      exact sound.send accepted gathered
    · cases executed
  | process index chunks =>
    obtain ⟨message, isSent, rfl⟩ := map_eq_some_iff.mp executed
    exact sound.process accepted isSent
      (processHistoryDataByItemids_advances proxyid chunks message.rows state.lastValueid)
  | succeed =>
    simp only [step] at executed
    split at executed
    next index isCurrent =>
      obtain ⟨message, isSent, rfl⟩ := map_eq_some_iff.mp executed
      exact sound.succeed isCurrent isSent
    next => cases executed
  | fail =>
    obtain rfl := some.inj executed
    exact sound.fail

/-! ## Runs -/

theorem sound_run
    (accepted : ∀ event ∈ events, ∀ record, steady record → event.accepts proxyid record)
    (executed : run (step packet proxyid) state events = some final) :
    Sound steady start final := by
  induction events generalizing state with
  | nil =>
    obtain rfl := some.inj executed
    exact sound
  | cons event events ih =>
    obtain ⟨next, first, later⟩ := run_cons_eq_some.mp executed
    exact ih (sound_step sound (accepted event mem_cons_self) first)
      (fun other isOther => accepted other (mem_cons_of_mem event isOther)) later

omit sound

def emptyStart : Start Unit :=
  ⟨[], 0, List.Pairwise.nil, nofun⟩

/-- A record with its cached items, uploaded without a loss. -/
def oneRecord (record : ZbxHistoryData Unit) (dcItem : DcItem) (item : ZbxHistoryRecvItem) :
    List (Event Unit) :=
  [.append record, .send 200 [⟨fun _ => 1, fun _ => some dcItem⟩],
    .process 0 fun _ _ => some item, .succeed]

theorem oneRecord_run (packet : Nat → Nat → ZbxHistoryData Unit → Nat)
    (record : ZbxHistoryData Unit) (dcItem : DcItem) (item : ZbxHistoryRecvItem)
    (request : Request Unit) {more : Bool}
    {processed : List (ZbxAgentValue Unit)} {lastValueid : Nat}
    (positive : 0 < record.id) (notZero : request.lastid ≠ 0)
    (gathered : proxyGetHistData packet [record] 0 200 [⟨fun _ => 1, fun _ => some dcItem⟩] =
      some (request, more))
    (taken : processHistoryDataByItemids proxyid (fun _ _ => some item) request.rows 0 =
      (processed, lastValueid)) :
    run (step packet proxyid) (State.start emptyStart) (oneRecord record dcItem item) =
      some ⟨[record], request.lastid, [⟨request.lastid, request.rows⟩], none, lastValueid,
        processed⟩ := by
  have appended : step packet proxyid (State.start emptyStart) (.append record) =
      some ⟨[record], 0, [], none, 0, []⟩ := by
    rw [step, if_pos ⟨positive, positive, nofun⟩]
    rfl
  have sent : step packet proxyid ⟨[record], 0, [], none, 0, []⟩
      (.send 200 [⟨fun _ => 1, fun _ => some dcItem⟩]) =
        some ⟨[record], 0, [⟨request.lastid, request.rows⟩], some (0, false), 0, []⟩ := by
    simp [step, gathered]
  have received : step packet proxyid
      ⟨[record], 0, [⟨request.lastid, request.rows⟩], some (0, false), 0, []⟩
      (.process 0 fun _ _ => some item) =
        some ⟨[record], 0, [⟨request.lastid, request.rows⟩], some (0, true), lastValueid,
          processed⟩ := by
    simp [step, taken]
  refine run_cons_eq_some.mpr ⟨_, appended, run_cons_eq_some.mpr ⟨_, sent,
    run_cons_eq_some.mpr ⟨_, received, run_cons_eq_some.mpr ⟨_, ?_, rfl⟩⟩⟩⟩
  simp [step, notZero]

theorem oneRecord_accepts {record : ZbxHistoryData Unit} {dcItem : DcItem}
    {item : ZbxHistoryRecvItem} (added : isAdded (fun _ => some dcItem) record = true)
    (taken : isTaken proxyid (fun _ => some item) (agentValue record) = true) :
    ∀ event ∈ oneRecord record dcItem item, event.accepts proxyid record := by
  intro event isEvent
  rcases mem_cons.mp isEvent with rfl | isEvent
  · exact trivial
  rcases mem_cons.mp isEvent with rfl | isEvent
  · exact forall_mem_singleton.mpr added
  rcases mem_cons.mp isEvent with rfl | isEvent
  · exact fun _ => taken
  · obtain rfl := mem_singleton.mp isEvent
    exact trivial

theorem not_superseded_singleton (record : ZbxHistoryData Content) :
    ¬ Superseded [record] record := by
  rintro ⟨-, later, isLater, above, -⟩
  rw [mem_singleton.mp isLater] at above
  exact Nat.lt_irrefl _ above

end Zabbix.ProxyHistory.ExactlyOnce
