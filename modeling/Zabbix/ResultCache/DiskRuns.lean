import Zabbix.Library.Transition
import Zabbix.ResultCache.Records
import Mathlib.Data.List.Infix
import Mathlib.Data.List.Nodup
import Mathlib.Data.List.Pairwise

/-!
# Runs of the disk cache

What the disk cache delivers over every sequence of writes and uploads.  A row is
inserted into the table that the persistent flag chooses and deleted from the table
that its log size chooses, and absent fields are stored as values that a result may
have as well; the runs below are those in which neither makes a difference.
-/

namespace Zabbix.ResultCache.DiskRuns

open Library.Transition Records List
open MemoryCache (Attempt)
open DiskCache

/-- No field that is present is stored as an absent one. -/
structure Storable (r : Result) : Prop where
  lastLogsize : r.lastLogsize ≠ some (-1)
  mtime : r.mtime ≠ some dbVariableNotSet
  eventSource : r.eventSource ≠ some ""
  eventID : r.eventID ≠ some dbVariableNotSet
  eventSeverity : r.eventSeverity ≠ some dbVariableNotSet
  eventTimestamp : r.eventTimestamp ≠ some dbVariableNotSet
  error : r.error ≠ some ""
  value : r.error = none → r.value ≠ some ""

/-- An upload that deletes up to the maxima deletes every row that it has read. -/
def Covered (cache : DiskCache) : Prop :=
  let batch := selectRows cache
  (∀ row ∈ batch, row ∈ cache.data →
      ∃ other ∈ batch, row.id ≤ other.id ∧ other.lastlogsize = -1) ∧
    ∀ row ∈ batch, row ∈ cache.log →
      ∃ other ∈ batch, row.id ≤ other.id ∧ other.lastlogsize ≠ -1

/-- A table whose rows are all of its kind is deleted as it was filled. -/
theorem covered_of_kinds {cache : DiskCache} (data : ∀ row ∈ cache.data, row.lastlogsize = -1)
    (log : ∀ row ∈ cache.log, row.lastlogsize ≠ -1) : Covered cache :=
  ⟨fun row isBatch member => ⟨row, isBatch, Nat.le_refl _, data row member⟩,
    fun row isBatch member => ⟨row, isBatch, Nat.le_refl _, log row member⟩⟩

/-- The rows are young enough, and the identifier fits into a column of the table. -/
def Fits (state : State) : Input → Prop
  | .result now r =>
    Storable r ∧ state.cache.lastDataID + 1 < 2 ^ 63 ∧
      (r.persistent = false →
        ∀ row ∈ state.cache.data, now - state.cache.storagePeriod ≤ row.clock)
  | .uploader success => success = true → Covered state.cache

/-- The results of the uploads that have succeeded, in their order. -/
def delivered (attempts : List Attempt) : List AgentData :=
  (attempts.filter Attempt.success).flatMap Attempt.data

/-- What was delivered comes first among what was written, every result once, and in order. -/
structure InOrder (state : State) : Prop where
  first : delivered state.attempts <+: state.written
  ascending : state.written.Pairwise fun older newer => older.id < newer.id
  attempts :
    ∀ attempt ∈ state.attempts, attempt.data.Pairwise fun older newer => older.id < newer.id

def succeeds : Input → Bool
  | .result _ _ => false
  | .uploader success => success

/-! ## Fields -/

theorem unlessNotSet_getD {field : Option Int} (isSet : field ≠ some dbVariableNotSet) :
    unlessNotSet (field.getD dbVariableNotSet) = field := by
  cases field with
  | none => rfl
  | some value => exact if_pos fun same => isSet (congrArg some same)

theorem unlessEmpty_getD {field : Option String} (isSet : field ≠ some "") :
    unlessEmpty (field.getD "") = field := by
  cases field with
  | none => rfl
  | some value => exact if_pos fun same => isSet (congrArg some same)

theorem fetched_lastLogsize {size : UInt64} (isSet : size ≠ -1) :
    (if size.toInt64 ≠ -1 then some size.toInt64.toUInt64 else none) = some size := by
  have isSize : size.toInt64.toUInt64 = size := rfl
  rw [if_pos, isSize]
  intro same
  apply isSet
  rw [← isSize, same]
  rfl

theorem resultFetch_rowOf {r : Result} (storable : Storable r) (id : Nat) (now : Int) :
    resultFetch (rowOf id now r) = record id r := by
  have value : unlessEmpty (rowOf id now r).value = (record id r).value := by
    cases isError : r.error with
    | none =>
      simp only [rowOf, record, agentData, isError]
      exact unlessEmpty_getD (storable.value isError)
    | some errmsg =>
      simp only [rowOf, record, agentData, isError]
      exact if_pos fun same => storable.error (by rw [isError, same])
  have state : unlessNotSet (rowOf id now r).state = (record id r).state := by
    cases isError : r.error with
    | none => simp only [rowOf, record, agentData, isError]; rfl
    | some errmsg => simp only [rowOf, record, agentData, isError]; rfl
  have lastLogsize :
      (if (rowOf id now r).lastlogsize ≠ -1 then
        some (rowOf id now r).lastlogsize.toUInt64 else none) = r.lastLogsize := by
    cases isSize : r.lastLogsize with
    | none => simp only [rowOf, isSize]; rfl
    | some size =>
      simp only [rowOf, isSize]
      exact fetched_lastLogsize fun same => storable.lastLogsize (by rw [isSize, same])
  rw [resultFetch, value, state, lastLogsize]
  simp only [rowOf, unlessNotSet_getD storable.mtime, unlessEmpty_getD storable.eventSource,
    unlessNotSet_getD storable.eventID, unlessNotSet_getD storable.eventSeverity,
    unlessNotSet_getD storable.eventTimestamp]
  rfl

/-! ## Selecting and deleting -/

variable {cache : DiskCache} {rows batch rest : List Row}

/-- The rows of both tables in ascending order. -/
structure Rows (cache : DiskCache) (rows : List Row) : Prop where
  perm : rows.Perm (cache.data ++ cache.log)
  ascending : rows.Pairwise fun older newer => older.id < newer.id
  positive : ∀ row ∈ rows, 0 < row.id
  fresh : ∀ row ∈ rows, row.id ≤ cache.lastDataID

theorem eq_of_id (ascending : rows.Pairwise fun older newer => older.id < newer.id)
    {row other : Row} (isRow : row ∈ rows) (isOther : other ∈ rows) (same : row.id = other.id) :
    row = other := by
  have distinct : (rows.map Row.id).Nodup := by
    rw [List.Nodup, pairwise_map]
    exact ascending.imp fun smaller => Nat.ne_of_lt smaller
  exact inj_on_of_nodup_map distinct isRow isOther same

theorem selectRows_eq (isRows : Rows cache rows) : selectRows cache = rows.take dataLimit := by
  have sorted :
      ((cache.data ++ cache.log).mergeSort fun row other => decide (row.id ≤ other.id)).Pairwise
        fun row other => decide (row.id ≤ other.id) = true := by
    apply pairwise_mergeSort
    · intro first second third
      simp only [decide_eq_true_eq]
      exact Nat.le_trans
    · intro first second
      simp only [Bool.or_eq_true, decide_eq_true_eq]
      exact Nat.le_total _ _
  have same :
      ((cache.data ++ cache.log).mergeSort fun row other => decide (row.id ≤ other.id)) = rows := by
    refine List.Perm.eq_of_pairwise ?_ sorted ?_ ?_
    · intro row other isRow isOther smaller larger
      apply eq_of_id isRows.ascending _ isOther
      · exact Nat.le_antisymm (by simpa using smaller) (by simpa using larger)
      · exact isRows.perm.mem_iff.mpr (mem_mergeSort.mp isRow)
    · exact isRows.ascending.imp fun smaller => by simpa using Nat.le_of_lt smaller
    · exact (mergeSort_perm _ _).trans isRows.perm.symm
  rw [selectRows, same]

theorem maxIds_append (results : List AgentData) (last : AgentData) :
    maxIds (results ++ [last]) =
      if last.lastLogsize = none then (last.id, (maxIds results).2)
      else ((maxIds results).1, last.id) := by
  simp only [maxIds, foldl_append, foldl_cons, foldl_nil]

theorem lastLogsize_none_iff (row : Row) :
    (resultFetch row).lastLogsize = none ↔ row.lastlogsize = -1 := by
  simp only [resultFetch]
  split_ifs with isSet
  · exact ⟨fun impossible => (nomatch impossible), fun same => absurd same isSet⟩
  · exact ⟨fun _ => not_not.mp isSet, fun _ => rfl⟩

/-- A maximum is the identifier of a row of its kind, and not below any other of them. -/
structure IsMax (batch : List Row) (kind : Row → Prop) (maxId : Nat) : Prop where
  isBatch : maxId ≠ 0 → ∃ row ∈ batch, row.id = maxId
  upper : ∀ row ∈ batch, kind row → row.id ≤ maxId

theorem IsMax.cons_last {kind : Row → Prop} {maxId : Nat} (isMax : IsMax batch kind maxId)
    {last : Row} (other : ¬kind last) : IsMax (batch ++ [last]) kind maxId where
  isBatch nonzero := by
    obtain ⟨row, member, same⟩ := isMax.isBatch nonzero
    exact ⟨row, mem_append_left _ member, same⟩
  upper row member isKind := by
    rcases mem_append.mp member with isBefore | isLast
    · exact isMax.upper row isBefore isKind
    · rw [mem_singleton.mp isLast] at isKind
      exact absurd isKind other

theorem IsMax.last {last : Row} (kind : Row → Prop)
    (ascending : (batch ++ [last]).Pairwise fun older newer => older.id < newer.id) :
    IsMax (batch ++ [last]) kind last.id where
  isBatch _ := ⟨last, mem_append_right _ (mem_singleton_self _), rfl⟩
  upper row member _ := by
    rcases mem_append.mp member with isBefore | isLast
    · exact Nat.le_of_lt
        ((pairwise_append.mp ascending).2.2 row isBefore last (mem_singleton_self _))
    · rw [mem_singleton.mp isLast]

theorem maxIds_isMax (ascending : batch.Pairwise fun older newer => older.id < newer.id) :
    IsMax batch (fun row => row.lastlogsize = -1) (maxIds (batch.map resultFetch)).1 ∧
      IsMax batch (fun row => row.lastlogsize ≠ -1) (maxIds (batch.map resultFetch)).2 := by
  induction batch using reverseRecOn with
  | nil =>
    refine ⟨⟨fun nonzero => absurd rfl nonzero, ?_⟩, ⟨fun nonzero => absurd rfl nonzero, ?_⟩⟩
    · exact fun row member => (nomatch member)
    · exact fun row member => (nomatch member)
  | append_singleton before last ih =>
    obtain ⟨isDataMax, isLogMax⟩ := ih (pairwise_append.mp ascending).1
    rw [map_append, map_singleton, maxIds_append]
    split_ifs with isNone
    · rw [lastLogsize_none_iff] at isNone
      exact ⟨IsMax.last _ ascending, isLogMax.cons_last fun isSet => isSet isNone⟩
    · rw [lastLogsize_none_iff] at isNone
      exact ⟨isDataMax.cons_last isNone, IsMax.last _ ascending⟩

theorem deleteUpTo_eq {table : List Row} {kind : Row → Prop} {maxId : Nat}
    (ascending : (batch ++ rest).Pairwise fun older newer => older.id < newer.id)
    (positive : ∀ row ∈ batch ++ rest, 0 < row.id)
    (isMax : IsMax batch kind maxId) (isTable : ∀ row ∈ table, row ∈ batch ++ rest)
    (covered : ∀ row ∈ batch, row ∈ table → ∃ other ∈ batch, row.id ≤ other.id ∧ kind other) :
    (if maxId ≠ 0 then deleteUpTo maxId table else table) =
      table.filter fun row => decide (row ∉ batch) := by
  have below : ∀ row ∈ table, row.id ≤ maxId ↔ row ∈ batch := by
    intro row member
    have isPositive := positive row (isTable row member)
    constructor
    · intro isBelow
      obtain ⟨last, isLast, same⟩ := isMax.isBatch (by omega)
      rcases mem_append.mp (isTable row member) with isBatch | isRest
      · exact isBatch
      · have isAfter := (pairwise_append.mp ascending).2.2 last isLast row isRest
        omega
    · intro isBatch
      obtain ⟨other, isOther, before, isKind⟩ := covered row isBatch member
      exact Nat.le_trans before (isMax.upper other isOther isKind)
  have filtered : deleteUpTo maxId table = table.filter fun row => decide (row ∉ batch) := by
    apply filter_congr
    intro row member
    rw [decide_not, decide_eq_decide.mpr (below row member)]
  split_ifs with isZero
  · exact filtered
  · rw [← filtered, not_not.mp isZero]
    refine (filter_eq_self.mpr fun row member => ?_).symm
    have isPositive := positive row (isTable row member)
    simp only [Bool.not_eq_true', decide_eq_false_iff_not]
    omega

theorem filter_notMem
    (ascending : (batch ++ rest).Pairwise fun older newer => older.id < newer.id) :
    (batch ++ rest).filter (fun row => decide (row ∉ batch)) = rest := by
  rw [filter_append, filter_eq_nil_iff.mpr, nil_append, filter_eq_self.mpr]
  · intro row isRest
    rw [decide_eq_true_eq]
    intro isBatch
    exact Nat.lt_irrefl row.id ((pairwise_append.mp ascending).2.2 row isBatch row isRest)
  · intro row isBatch
    simpa using isBatch

theorem deleteUploaded_data (maxDataId maxLogId : Nat) (cache : DiskCache) :
    (deleteUploaded maxDataId maxLogId cache).data =
      if maxDataId ≠ 0 then deleteUpTo maxDataId cache.data else cache.data := by
  unfold deleteUploaded
  split_ifs <;> rfl

theorem deleteUploaded_log (maxDataId maxLogId : Nat) (cache : DiskCache) :
    (deleteUploaded maxDataId maxLogId cache).log =
      if maxLogId ≠ 0 then deleteUpTo maxLogId cache.log else cache.log := by
  unfold deleteUploaded
  split_ifs <;> rfl

theorem deleteUploaded_lastDataID (maxDataId maxLogId : Nat) (cache : DiskCache) :
    (deleteUploaded maxDataId maxLogId cache).lastDataID = cache.lastDataID := by
  unfold deleteUploaded
  split_ifs <;> rfl

theorem rows_deleteUploaded (isRows : Rows cache rows) (covered : Covered cache) :
    let maxima := maxIds ((rows.take dataLimit).map resultFetch)
    Rows (deleteUploaded maxima.1 maxima.2 cache) (rows.drop dataLimit) := by
  dsimp only
  unfold Covered at covered
  rw [selectRows_eq isRows] at covered
  have split := take_append_drop dataLimit rows
  have ascending := isRows.ascending
  have positive := isRows.positive
  rw [← split] at ascending positive
  obtain ⟨isDataMax, isLogMax⟩ := maxIds_isMax (pairwise_append.mp ascending).1
  have isTable : ∀ row ∈ cache.data ++ cache.log,
      row ∈ rows.take dataLimit ++ rows.drop dataLimit := by
    intro row member
    rw [split]
    exact isRows.perm.mem_iff.mpr member
  have left : (rows.drop dataLimit).Perm
      ((cache.data ++ cache.log).filter fun row => decide (row ∉ rows.take dataLimit)) := by
    have filtered := isRows.perm.filter fun row => decide (row ∉ rows.take dataLimit)
    rwa [← filter_notMem ascending, split]
  refine ⟨?_, ?_, ?_, ?_⟩
  · rw [deleteUploaded_data, deleteUploaded_log,
      deleteUpTo_eq ascending positive isDataMax
        (fun row member => isTable row (mem_append_left _ member)) covered.1,
      deleteUpTo_eq ascending positive isLogMax
        (fun row member => isTable row (mem_append_right _ member)) covered.2,
      ← filter_append]
    exact left
  · exact (pairwise_append.mp ascending).2.1
  · exact fun row member => positive row (mem_append_right _ member)
  · rw [deleteUploaded_lastDataID]
    exact fun row member => isRows.fresh row (mem_of_mem_drop member)

/-! ## The invariant -/

variable {state next : State}

/-- What was written is what was delivered, and then the rows of the tables. -/
structure Invariant (state : State) (rows : List Row) : Prop where
  isRows : Rows state.cache rows
  split : state.written = delivered state.attempts ++ rows.map resultFetch
  ascending : state.written.Pairwise fun older newer => older.id < newer.id
  fresh : ∀ r ∈ state.written, r.id ≤ state.cache.lastDataID
  attempts :
    ∀ attempt ∈ state.attempts, attempt.data.Pairwise fun older newer => older.id < newer.id

theorem Invariant.inOrder (invariant : Invariant state rows) : InOrder state where
  first := by
    rw [invariant.split]
    exact prefix_append _ _
  ascending := invariant.ascending
  attempts := invariant.attempts

theorem invariant_start (storagePeriod : Int) : Invariant (start storagePeriod) [] where
  isRows := ⟨List.Perm.refl [], List.Pairwise.nil, fun _ member => (nomatch member),
    fun _ member => (nomatch member)⟩
  split := rfl
  ascending := List.Pairwise.nil
  fresh := fun _ member => (nomatch member)
  attempts := fun _ member => (nomatch member)

theorem delivered_append (attempts : List Attempt) (attempt : Attempt) :
    delivered (attempts ++ [attempt]) =
      delivered attempts ++ if attempt.success then attempt.data else [] := by
  cases isSuccess : attempt.success with
  | true => simp [delivered, filter_append, isSuccess]
  | false => simp [delivered, filter_append, isSuccess]

theorem fetched_ascending (ascending : rows.Pairwise fun older newer => older.id < newer.id) :
    (rows.map resultFetch).Pairwise fun older newer => older.id < newer.id := by
  rw [pairwise_map]
  exact ascending

theorem deleteOld_eq {now clock : Int}
    (young : ∀ row ∈ cache.data, now - cache.storagePeriod ≤ row.clock) :
    (deleteOld now clock cache).data = cache.data ∧ (deleteOld now clock cache).log = cache.log ∧
      (deleteOld now clock cache).lastDataID = cache.lastDataID := by
  have kept :
      cache.data.filter (fun row => !decide (row.clock < now - cache.storagePeriod)) =
        cache.data := by
    rw [filter_eq_self]
    intro row member
    have isYoung := young row member
    simp only [Bool.not_eq_true', decide_eq_false_iff_not]
    omega
  unfold deleteOld
  dsimp only
  split_ifs
  · exact ⟨kept, rfl, rfl⟩
  · exact ⟨rfl, rfl, rfl⟩
  · exact ⟨kept, rfl, rfl⟩
  · exact ⟨rfl, rfl, rfl⟩

/-- A row with the next identifier comes behind the others, whichever table it is in. -/
theorem rows_insert (isRows : Rows cache rows) {after : DiskCache} {row : Row}
    (isNext : row.id = cache.lastDataID + 1) (isLast : after.lastDataID = row.id)
    (inserted : (rows ++ [row]).Perm (after.data ++ after.log)) : Rows after (rows ++ [row]) where
  perm := inserted
  ascending := by
    rw [pairwise_append]
    refine ⟨isRows.ascending, pairwise_singleton _ _, fun old isOld new isNew => ?_⟩
    have isFresh := isRows.fresh old isOld
    rw [mem_singleton.mp isNew]
    omega
  positive other member := by
    rcases mem_append.mp member with isOld | isNew
    · exact isRows.positive other isOld
    · rw [mem_singleton.mp isNew]
      omega
  fresh other member := by
    rcases mem_append.mp member with isOld | isNew
    · have isFresh := isRows.fresh other isOld
      omega
    · rw [mem_singleton.mp isNew, isLast]

theorem invariant_write (invariant : Invariant state rows) {now : Int} {r : Result}
    (fits : Fits state (.result now r)) :
    Invariant (write now r state) (rows ++ [rowOf (state.cache.lastDataID + 1) now r]) := by
  obtain ⟨storable, identified, young⟩ := fits
  have isNext : nextID state.cache.lastDataID = state.cache.lastDataID + 1 :=
    nextID_eq (by omega)
  have isRows :
      Rows (write now r state).cache (rows ++ [rowOf (state.cache.lastDataID + 1) now r]) := by
    cases isPersistent : r.persistent with
    | true =>
      simp only [write, isNext, isPersistent, if_true]
      apply rows_insert invariant.isRows rfl rfl
      rw [← append_assoc]
      exact invariant.isRows.perm.append_right _
    | false =>
      obtain ⟨data, log, lastDataID⟩ := @deleteOld_eq
        { state.cache with lastDataID := state.cache.lastDataID + 1 } now
        (rowOf (state.cache.lastDataID + 1) now r).clock (young isPersistent)
      simp only [write, isNext, isPersistent, Bool.false_eq_true, if_false]
      apply rows_insert invariant.isRows rfl lastDataID
      rw [data, log]
      refine (invariant.isRows.perm.append_right _).trans ?_
      rw [append_assoc, append_assoc]
      exact perm_append_comm.append_left _
  refine ⟨isRows, ?_, ?_, ?_, invariant.attempts⟩
  · simp only [write, isNext, map_append, map_singleton,
      resultFetch_rowOf storable, invariant.split, append_assoc]
  · simp only [write, isNext]
    rw [pairwise_append]
    refine ⟨invariant.ascending, pairwise_singleton _ _, fun old isOld new isNew => ?_⟩
    have isFresh := invariant.fresh old isOld
    rw [mem_singleton.mp isNew]
    exact Nat.lt_succ_of_le isFresh
  · have isLast := isRows.fresh _ (mem_append_right _ (mem_singleton_self _))
    intro other member
    simp only [write, isNext] at member
    rcases mem_append.mp member with isOld | isNew
    · exact Nat.le_trans (Nat.le_succ_of_le (invariant.fresh other isOld)) isLast
    · rw [mem_singleton.mp isNew]
      exact isLast

theorem invariant_upload (invariant : Invariant state rows) {success : Bool}
    (fits : Fits state (.uploader success)) :
    Invariant (upload success state) (if success then rows.drop dataLimit else rows) := by
  have ascending := fetched_ascending
    (invariant.isRows.ascending.sublist (take_sublist dataLimit rows))
  have selected := selectRows_eq invariant.isRows
  by_cases isEmpty : (rows.take dataLimit).map resultFetch = []
  · have noRows : rows = [] := by
      have limited : dataLimit ≠ 0 := by decide
      simpa [limited] using isEmpty
    subst noRows
    have same : upload success state = state := by
      simp only [upload, resultsGet, selected, take_nil, map_nil, if_true]
    rw [same, drop_nil, ite_self]
    exact invariant
  · have attemptsAscend : ∀ attempt ∈
        state.attempts ++ [⟨(rows.take dataLimit).map resultFetch, success⟩],
        attempt.data.Pairwise fun older newer => older.id < newer.id := by
      intro attempt member
      rcases mem_append.mp member with isOld | isNew
      · exact invariant.attempts attempt isOld
      · rw [mem_singleton.mp isNew]
        exact ascending
    cases success with
    | false =>
      simp only [upload, resultsGet, selected, if_neg isEmpty, Bool.false_eq_true, if_false]
      refine ⟨invariant.isRows, ?_, invariant.ascending, invariant.fresh, attemptsAscend⟩
      rw [delivered_append, if_neg Bool.false_ne_true, append_nil]
      exact invariant.split
    | true =>
      simp only [upload, resultsGet, selected, if_neg isEmpty, if_true]
      refine ⟨rows_deleteUploaded invariant.isRows (fits rfl), ?_, invariant.ascending, ?_,
        attemptsAscend⟩
      · rw [delivered_append, if_pos rfl, append_assoc, ← map_append,
          take_append_drop]
        exact invariant.split
      · rw [deleteUploaded_lastDataID]
        exact invariant.fresh

theorem upload_written (success : Bool) (state : State) :
    (upload success state).written = state.written := by
  unfold upload
  dsimp only
  split_ifs <;> rfl

theorem Invariant.length_eq (invariant : Invariant state rows) :
    state.written.length = (delivered state.attempts).length + rows.length := by
  rw [invariant.split, length_append, length_map]

theorem invariant_step {input : Input} (invariant : Invariant state rows)
    (fits : Fits state input) (executed : step state input = some next) :
    ∃ left, Invariant next left ∧ state.written <+: next.written ∧
      min state.written.length
          ((delivered state.attempts).length + if succeeds input then dataLimit else 0) ≤
        (delivered next.attempts).length := by
  have before := invariant.length_eq
  cases input with
  | result now r =>
    obtain rfl := Option.some.inj executed
    refine ⟨_, invariant_write invariant fits, prefix_append _ _, ?_⟩
    exact Nat.min_le_right _ _
  | uploader success =>
    obtain rfl := Option.some.inj executed
    have uploaded := invariant_upload invariant fits
    have after := uploaded.length_eq
    rw [upload_written] at after
    refine ⟨_, uploaded, ?_, ?_⟩
    · rw [upload_written]
    · cases success with
      | false =>
        simp only [Bool.false_eq_true, if_false, succeeds] at after ⊢
        omega
      | true =>
        simp only [if_true, length_drop, succeeds] at after ⊢
        omega

theorem run_progress {inputs : List Input} {final : State} {count : Nat}
    (invariant : Invariant state rows) (guarded : Guarded step Fits state inputs)
    (executed : run step state inputs = some final) (isWritten : count ≤ state.written.length)
    (enough : count ≤ (delivered state.attempts).length + dataLimit * inputs.countP succeeds) :
    (∃ left, Invariant final left) ∧ state.written <+: final.written ∧
      count ≤ (delivered final.attempts).length := by
  induction inputs generalizing state rows with
  | nil =>
    obtain rfl := Option.some.inj executed
    exact ⟨⟨rows, invariant⟩, prefix_rfl, enough⟩
  | cons input rest ih =>
    obtain ⟨next, first, later⟩ := run_cons_eq_some.mp executed
    obtain ⟨left, kept, extended, progress⟩ := invariant_step invariant guarded.1 first
    have longer := extended.length_le
    rw [countP_cons] at enough
    have fewer : count ≤
        (delivered next.attempts).length + dataLimit * rest.countP succeeds := by
      split_ifs at enough progress
      · rw [Nat.mul_succ] at enough
        omega
      · rw [Nat.add_zero] at enough
        omega
    obtain ⟨isInvariant, extendedAgain, isDelivered⟩ :=
      ih kept (guarded.2 next first) later (Nat.le_trans isWritten longer) fewer
    exact ⟨isInvariant, extended.trans extendedAgain, isDelivered⟩

/--
In every run of such steps the cache delivers the records of the memory cache, each
once and in the order of the identifiers; and what was written before enough uploads
succeed has been delivered after them.
-/
theorem run_delivers {storagePeriod : Int} {earlier later : List Input} {final : State}
    (guarded : Guarded step Fits (start storagePeriod) earlier)
    (executed : run step (start storagePeriod) earlier = some state)
    (guardedLater : Guarded step Fits state later)
    (executedLater : run step state later = some final) :
    InOrder final ∧
      (state.written.length ≤ (delivered state.attempts).length +
          dataLimit * later.countP succeeds →
        state.written <+: delivered final.attempts) := by
  obtain ⟨⟨rows, invariant⟩, -, -⟩ :=
    @run_progress _ _ _ _ 0 (invariant_start storagePeriod) guarded executed (Nat.zero_le _)
      (Nat.zero_le _)
  obtain ⟨⟨left, isFinal⟩, -, -⟩ :=
    @run_progress _ _ _ _ 0 invariant guardedLater executedLater (Nat.zero_le _) (Nat.zero_le _)
  refine ⟨isFinal.inOrder, fun enough => ?_⟩
  obtain ⟨-, extended, isDelivered⟩ :=
    run_progress invariant guardedLater executedLater (Nat.le_refl _) enough
  exact prefix_of_prefix_length_le extended isFinal.inOrder.first isDelivered

def valueResult (value : String) (persistent : Bool) : Result where
  itemid := 1
  value := some value
  ts := some (100, 0)
  error := none
  lastLogsize := none
  mtime := none
  eventSource := none
  eventID := none
  eventSeverity := none
  eventTimestamp := none
  persistent := persistent

theorem storable_value : Storable (valueResult "value" false) where
  lastLogsize := by decide
  mtime := by decide
  eventSource := by decide
  eventID := by decide
  eventSeverity := by decide
  eventTimestamp := by decide
  error := by decide
  value := by decide

theorem run_delivers_value :
    ∃ state final,
      run step (start 3600) [.result 100 (valueResult "value" false)] = some state ∧
        run step state [.uploader true] = some final ∧
          state.written <+: delivered final.attempts := by
  have guarded :
      Guarded step Fits (start 3600) [.result 100 (valueResult "value" false)] := by
    refine guarded_cons ⟨storable_value, by decide, fun _ row member => ?_⟩ rfl trivial
    cases member
  have guardedLater :
      Guarded step Fits (write 100 (valueResult "value" false) (start 3600))
        [.uploader true] := by
    refine guarded_cons (fun _ => ?_) rfl trivial
    apply covered_of_kinds
    · decide
    · decide
  exact ⟨_, _, rfl, rfl, (run_delivers guarded rfl guardedLater rfl).2 (by decide)⟩

/--
An empty value is uploaded as an absent one, and a persistent result without a log
size is uploaded again after it was delivered.
-/
theorem not_inOrder_value :
    (∃ state,
      run step (start 3600) [.result 100 (valueResult "" false), .uploader true] = some state ∧
        ¬InOrder state) ∧
    ∃ state,
      run step (start 3600)
        [.result 100 (valueResult "value" true), .uploader true, .uploader true] = some state ∧
        ¬InOrder state := by
  refine ⟨⟨_, rfl, fun inOrder => ?_⟩, ⟨_, rfl, fun inOrder => ?_⟩⟩
  · have first := inOrder.first
    simp [upload, resultsGet, delivered, selectRows, write, start, valueResult, deleteOld, rowOf,
      storageTolerance, dataLimit, nextID, resultFetch, record, agentData, unlessEmpty] at first
  · have first := inOrder.first
    simp [upload, resultsGet, delivered, selectRows, write, start, valueResult, rowOf, dataLimit,
      nextID, resultFetch, record, agentData, unlessEmpty, maxIds, deleteUploaded, unlessNotSet,
      dbVariableNotSet, deleteUpTo] at first

end Zabbix.ResultCache.DiskRuns
