import Zabbix.ProxyHistory.ChangingTable
import Zabbix.ProxyHistory.SimpleTables

/-!
# When there is no more data

The request of a proxy tells the server whether there is more data.  It must not say
that there is none while the table has rows that have not come into the request.
-/

namespace Zabbix.ProxyHistory.MoreData

open Library.OrderedLog
open List hiding after

/-! ## The simple tables -/

namespace Simple

open Gathering SimpleTables

variable {packet : Nat → Nat → List Member → Nat} {ht : ZbxHistoryTable}
variable {shown : Nat → Log TableRow.id} {progress : Progress}

/-- When there is no more data, the rows of the last read are not above `*lastid`, and not
above the stored id if no row has been added. -/
def Truthful (progress : Progress) (outcome : Progress × Log TableRow.id) : Prop :=
  outcome.1.more = false → ∀ row ∈ outcome.2.entries,
    row.id ≤ if outcome.1.recordsNum = progress.recordsNum then progress.id else outcome.1.lastid

/-- The rows before the first gap. -/
def earlyRows (shown : Nat → Log TableRow.id) (progress : Progress) : List TableRow :=
  rowsTaken true progress.id ((shown 0).select progress.id zbxMaxHrecords)

def gapId (shown : Nat → Log TableRow.id) (progress : Progress) : Nat :=
  Log.comesTo TableRow.id progress.id (earlyRows shown progress)

/-- The rows read after the wait for the gap. -/
def lateRows (shown : Nat → Log TableRow.id) (progress : Progress) : List TableRow :=
  (shown 1).select (gapId shown progress) zbxMaxHrecords

/-- The first read stops at a gap behind some rows, and the second one does not find all the
rows behind them, although the packet has room for those it finds. -/
structure CutsOff (packet : Nat → Nat → List Member → Nat) (ht : ZbxHistoryTable)
    (shown : Nat → Log TableRow.id) (progress : Progress) : Prop where
  some : earlyRows shown progress ≠ []
  gap : earlyRows shown progress ≠ (shown 0).select progress.id zbxMaxHrecords
  fits : FitsPacket packet ht (earlyRows shown progress ++ lateRows shown progress)
    progress.recordsNum progress.bufferOffset
  longer : zbxMaxHrecords < (after TableRow.id (gapId shown progress) (shown 1).entries).length

theorem truthful_of_more {outcome : Progress × Log TableRow.id}
    (isMore : outcome.1.more = true) :
    Truthful progress outcome := by
  intro isDone
  rw [isMore] at isDone
  cases isDone

theorem readRows_zero (packet : Nat → Nat → List Member → Nat) (ht : ZbxHistoryTable)
    (shown : Nat → Log TableRow.id) (progress : Progress) :
    (readRows packet ht 0 shown progress).1.more = true ∧
        ¬ FitsPacket packet ht ((shown 0).select progress.id zbxMaxHrecords)
          progress.recordsNum progress.bufferOffset ∨
      readRows packet ht 0 shown progress =
          (addAll packet ht ((shown 0).select progress.id zbxMaxHrecords) progress, shown 0) ∧
        FitsPacket packet ht ((shown 0).select progress.id zbxMaxHrecords)
          progress.recordsNum progress.bufferOffset := by
  have ends := addRows_spec packet ht false
    ((shown 0).select progress.id zbxMaxHrecords) progress
  rw [rowsTaken_false] at ends
  rw [readRows]
  change AddsRows _ _ _ _ _ (addRows packet ht (0 < 0) _ progress) at ends
  generalize addRows packet ht (0 < 0) ((shown 0).select progress.id zbxMaxHrecords) progress =
    rowsEnd at ends ⊢
  cases ends with
  | full ended tooLong isMore => exact Or.inl ⟨isMore, tooLong⟩
  | all fits => exact Or.inr ⟨rfl, fits⟩
  | gap lastid fits shorter => exact absurd rfl shorter

/-- The rows above those of a read are those that the limit cuts off. -/
theorem bounded_iff (packet : Nat → Nat → List Member → Nat) (ht : ZbxHistoryTable)
    (table : Log TableRow.id) (progress middle : Progress) (taken : Nat)
    (sameNum : middle.recordsNum = progress.recordsNum + taken)
    (none : taken = 0 → middle.id = progress.id) (some : taken ≠ 0 → middle.id ≤ middle.lastid) :
    (∀ row ∈ table.entries,
        row.id ≤
          if (addAll packet ht (table.select middle.id zbxMaxHrecords) middle).recordsNum =
              progress.recordsNum then progress.id
          else (addAll packet ht (table.select middle.id zbxMaxHrecords) middle).lastid) ↔
      (after TableRow.id middle.id table.entries).length ≤ zbxMaxHrecords := by
  rw [← table.select_complete_iff middle.id zbxMaxHrecords (by decide), addAll_recordsNum,
    addAll_lastid, sameNum]
  cases isRead : table.select middle.id zbxMaxHrecords with
  | nil =>
    have noneAbove : after TableRow.id middle.id table.entries = [] :=
      (table.select_eq_after (by rw [isRead]; decide)).symm.trans isRead
    have below : ∀ row ∈ table.entries, row.id ≤ middle.id := fun row isRow =>
      Nat.le_of_not_lt fun above => by
        have isAbove := mem_after.mpr ⟨isRow, above⟩
        rw [noneAbove] at isAbove
        cases isAbove
    refine iff_of_true (fun row isRow => ?_) below
    split
    next isNone =>
      rw [← none (by rw [length_nil] at isNone; omega)]
      exact below row isRow
    next isSome =>
      exact (below row isRow).trans (some (by rw [length_nil] at isSome; omega))
  | cons row rows =>
    rw [if_neg (by rw [length_cons]; omega), Log.comesTo_cons, Log.comesTo_cons]

/-- What the reads of the rows come to. -/
inductive ReadsRows (packet : Nat → Nat → List Member → Nat) (ht : ZbxHistoryTable)
    (shown : Nat → Log TableRow.id) (progress : Progress) :
    Progress × Log TableRow.id → Prop where
  | full (outcome : Progress × Log TableRow.id) :
      outcome.1.more = true → ¬ CutsOff packet ht shown progress →
      ReadsRows packet ht shown progress outcome
  | all :
      earlyRows shown progress = (shown 0).select progress.id zbxMaxHrecords →
      ReadsRows packet ht shown progress
        (addAll packet ht ((shown 0).select progress.id zbxMaxHrecords) progress, shown 0)
  | gap (middle : Progress) :
      earlyRows shown progress ≠ (shown 0).select progress.id zbxMaxHrecords →
      FitsPacket packet ht (earlyRows shown progress ++ lateRows shown progress)
        progress.recordsNum progress.bufferOffset →
      middle.recordsNum = progress.recordsNum + (earlyRows shown progress).length →
      middle.id = gapId shown progress → middle.id ≤ middle.lastid →
      middle.more = progress.more →
      ReadsRows packet ht shown progress
        (addAll packet ht ((shown 1).select middle.id zbxMaxHrecords) middle, shown 1)

theorem readRows_spec (packet : Nat → Nat → List Member → Nat) (ht : ZbxHistoryTable)
    (shown : Nat → Log TableRow.id) (progress : Progress) :
    ReadsRows packet ht shown progress (readRows packet ht 1 shown progress) := by
  have ends : AddsRows packet ht (earlyRows shown progress)
      ((shown 0).select progress.id zbxMaxHrecords) progress
      (addRows packet ht (0 < 1) ((shown 0).select progress.id zbxMaxHrecords) progress) :=
    addRows_spec packet ht true _ _
  rw [readRows]
  generalize addRows packet ht (0 < 1) ((shown 0).select progress.id zbxMaxHrecords) progress =
    rowsEnd at ends ⊢
  cases ends with
  | full ended tooLong isMore =>
    refine ReadsRows.full _ isMore fun cut => tooLong ?_
    exact ((fitsPacket_append packet ht _ _ progress).mp cut.fits).1
  | all fits same =>
    dsimp only
    rw [same]
    exact ReadsRows.all same
  | gap lastid fits shorter above =>
    dsimp only
    have sameId : (addAll packet ht (earlyRows shown progress) progress).id =
        gapId shown progress := addAll_id _ _
    have together := fitsPacket_append packet ht (earlyRows shown progress)
      (lateRows shown progress) progress
    rw [lateRows, ← sameId] at together
    rcases readRows_zero packet ht (fun select => shown (select + 1))
      { addAll packet ht (earlyRows shown progress) progress with lastid }
      with ⟨isMore, tooLong⟩ | ⟨isRead, fitsLate⟩
    · refine ReadsRows.full _ isMore fun cut => tooLong (together.mp ?_).2
      rw [sameId]
      exact cut.fits
    · rw [isRead]
      refine ReadsRows.gap { addAll packet ht (earlyRows shown progress) progress with lastid }
        shorter ?_ (addAll_recordsNum _ _) sameId above.le (addAll_more _ _)
      rw [lateRows, ← sameId]
      exact together.mpr ⟨fits, fitsLate⟩

theorem proxyGetHistoryDataSimple_eq {ended : Progress} {table : Log TableRow.id}
    (isRead : readRows packet ht 1 shown { progress with more := false } = (ended, table)) :
    proxyGetHistoryDataSimple packet ht shown progress =
      ({ ended with
          more := ended.more || zbxMaxHrecords == ended.recordsNum - progress.recordsNum },
        table) := by
  rw [proxyGetHistoryDataSimple, isRead]
  dsimp only
  split
  next full => simp [← full]
  next notFull => rw [beq_eq_false_iff_ne.mpr notFull, Bool.or_false]

theorem proxyGetHistoryDataSimple_truthful_iff (packet : Nat → Nat → List Member → Nat)
    (ht : ZbxHistoryTable) (shown : Nat → Log TableRow.id) (progress : Progress) :
    Truthful progress (proxyGetHistoryDataSimple packet ht shown progress) ↔
      ¬ CutsOff packet ht shown progress := by
  have reads := readRows_spec packet ht shown { progress with more := false }
  cases outcome : readRows packet ht 1 shown { progress with more := false } with
  | mk ended table =>
  rw [proxyGetHistoryDataSimple_eq outcome]
  rw [outcome] at reads
  cases reads with
  | full _ isMore notCut =>
    refine iff_of_true (truthful_of_more ?_) fun cut =>
      notCut ⟨cut.some, cut.gap, cut.fits, cut.longer⟩
    simp only at isMore
    rw [isMore, Bool.true_or]
  | all same =>
    refine iff_of_true (fun isDone => ?_) fun cut => cut.gap same
    refine (bounded_iff packet ht (shown 0) progress { progress with more := false } 0 rfl
      (fun _ => rfl)
      (fun isSome => absurd rfl isSome)).mpr ?_
    have notFull := (Bool.or_eq_false_iff.mp isDone).2
    rw [beq_eq_false_iff_ne, addAll_recordsNum, Nat.add_sub_cancel_left, Log.select,
      length_take] at notFull
    dsimp only at notFull ⊢
    omega
  | gap middle shorter fits sameNum sameId above sameMore =>
    change middle.recordsNum = progress.recordsNum + (earlyRows shown progress).length at sameNum
    change middle.id = gapId shown progress at sameId
    have bounded := bounded_iff packet ht (shown 1) progress middle _ sameNum
      (fun isNone => by rw [sameId, gapId, length_eq_zero_iff.mp isNone]; rfl)
      (fun _ => above)
    constructor
    · intro truthful cut
      refine absurd (bounded.mp (truthful ?_)) (Nat.not_le_of_lt (sameId ▸ cut.longer))
      have positive := length_pos_of_ne_nil cut.some
      have full := cut.longer
      rw [← sameId] at full
      simp only [addAll_more, sameMore, Bool.false_or, addAll_recordsNum, sameNum,
        beq_eq_false_iff_ne, Log.select, length_take]
      omega
    · intro notCut isDone
      refine bounded.mpr (Nat.le_of_not_lt fun longer => ?_)
      have notFull := (Bool.or_eq_false_iff.mp isDone).2
      rw [beq_eq_false_iff_ne, addAll_recordsNum, sameNum, Log.select, length_take] at notFull
      refine notCut ⟨fun isNone => notFull ?_, shorter, fits, sameId ▸ longer⟩
      rw [isNone, length_nil]
      omega

end Simple

/-! ## The table of history -/

namespace History

open Records
open Gathering (zbxMaxHrecords zbxMaxHrecordsTotal zbxDataJsonRecordLimit
  zbxDataJsonBatchLimit ItemCache isAdded Request proxyAddHistData filterNovalue)
open Coverage ChangingTable

variable {Content : Type} {packet : Nat → Nat → ZbxHistoryData Content → Nat}

/-- The id that the request has come to: `*lastid`, or the stored id while no record has been
taken. -/
def upTo (stored : Nat) (request : Request Content) : Nat :=
  if request.lastid = 0 then stored else request.lastid

/-- When there is no more data, the rows of the last read are not above the id that the
request has come to. -/
def Truthful (stored : Nat) (outcome : Outcome Content) : Prop :=
  outcome.more = false → ∀ table, outcome.table = some table → ∀ row ∈ table.entries,
    row.id ≤ upTo stored outcome.request

/-- The packet has room for all the records of a batch but the last one. -/
def FitsPacket (packet : Nat → Nat → ZbxHistoryData Content → Nat) (dcItems : ItemCache) :
    List (ZbxHistoryData Content) → Nat → Nat → Prop
  | [], _, _ => True
  | [_], _, _ => True
  | hd :: next :: records, recordsNum, bufferOffset =>
    if isAdded dcItems hd then
      packet recordsNum bufferOffset hd ≤ zbxDataJsonRecordLimit ∧
        FitsPacket packet dcItems (next :: records) (recordsNum + 1)
          (packet recordsNum bufferOffset hd)
    else FitsPacket packet dcItems (next :: records) recordsNum bufferOffset

/-- The loop goes on with a request. -/
def GoesOn (request : Request Content) : Prop :=
  request.bufferOffset < zbxDataJsonBatchLimit ∧ request.recordsNum < zbxMaxHrecordsTotal

def afterBatch (packet : Nat → Nat → ZbxHistoryData Content → Nat) (batch : Batch Content)
    (id : Nat) (request : Request Content) : Request Content :=
  proxyAddHistData packet batch.dcItems (batchRecords (batch.gathered id).data) request

/-- The batches that the loop comes to, with the id and the request before each of them. -/
inductive Starts (packet : Nat → Nat → ZbxHistoryData Content → Nat) :
    List (Batch Content) → Nat → Request Content → Batch Content → Nat → Request Content → Prop
  | here {batch : Batch Content} {batches : List (Batch Content)} {id : Nat}
      {request : Request Content} :
      GoesOn request → Starts packet (batch :: batches) id request batch id request
  | later {batch last : Batch Content} {batches : List (Batch Content)} {id lastId : Nat}
      {request lastRequest : Request Content} :
      GoesOn request → (batch.gathered id).data.length = zbxMaxHrecords →
      Starts packet batches (afterBatch packet batch id request).lastid
        (afterBatch packet batch id request) last lastId lastRequest →
      Starts packet (batch :: batches) id request last lastId lastRequest

/-- In each batch that has read the table to its end, the packet has room for the records
before the last one. -/
def LastFits (packet : Nat → Nat → ZbxHistoryData Content → Nat) (batches : List (Batch Content))
    (id : Nat) (request : Request Content) : Prop :=
  ∀ batch batchId before, Starts packet batches id request batch batchId before →
    (batch.gathered batchId).data.length ≠ zbxMaxHrecords →
    (batch.gathered batchId).retries = true →
    FitsPacket packet batch.dcItems (batchRecords (batch.gathered batchId).data)
      before.recordsNum before.bufferOffset

/-! ### The records of a batch -/

theorem comesTo_batchRecords (low : Nat) (data : List (ZbxHistoryData Content)) :
    Log.comesTo ZbxHistoryData.id low (batchRecords data) =
      Log.comesTo ZbxHistoryData.id low data := by
  rcases eq_nil_or_concat data with rfl | ⟨before, newest, rfl⟩
  · rfl
  · obtain ⟨later, isFirst⟩ : ∃ later, filterNovalue [] (newest :: before.reverse) =
        newest :: later := by
      rw [filterNovalue]
      split
      · exact ⟨_, if_neg not_mem_nil⟩
      · exact ⟨_, rfl⟩
    rw [concat_eq_append, batchRecords, reverse_append, reverse_singleton,
      singleton_append, isFirst, reverse_cons, Log.comesTo_concat, Log.comesTo_concat]

theorem proxyAddHistData_lastid (dcItems : ItemCache) (records : List (ZbxHistoryData Content))
    (request : Request Content)
    (fits : FitsPacket packet dcItems records request.recordsNum request.bufferOffset) :
    (proxyAddHistData packet dcItems records request).lastid =
      Log.comesTo ZbxHistoryData.id request.lastid records := by
  induction records generalizing request with
  | nil => rfl
  | cons hd records ih =>
    rw [proxyAddHistData, Log.comesTo_cons]
    cases records with
    | nil =>
      split
      · dsimp only
        split <;> rfl
      · rfl
    | cons next records =>
      rw [FitsPacket] at fits
      split
      next isIn =>
        rw [if_pos isIn] at fits
        dsimp only
        rw [if_neg (Nat.not_lt_of_le fits.1)]
        exact ih _ fits.2
      next isOut =>
        rw [if_neg isOut] at fits
        exact ih { request with lastid := hd.id } fits

theorem proxyAddHistData_lastid_lt (dcItems : ItemCache) (records : List (ZbxHistoryData Content))
    (ordered : Ordered ZbxHistoryData.id records) (low : Nat) (request : Request Content)
    (overflows : ¬ FitsPacket packet dcItems records request.recordsNum request.bufferOffset) :
    (proxyAddHistData packet dcItems records request).lastid <
      Log.comesTo ZbxHistoryData.id low records := by
  induction records generalizing low request with
  | nil => exact absurd trivial overflows
  | cons hd records ih =>
    obtain ⟨above, ordered⟩ := pairwise_cons.mp ordered
    rw [proxyAddHistData, Log.comesTo_cons]
    cases records with
    | nil => exact absurd trivial overflows
    | cons next records =>
      rw [FitsPacket] at overflows
      split
      next isIn =>
        rw [if_pos isIn] at overflows
        dsimp only
        split
        next =>
          have isNext := above next mem_cons_self
          exact Nat.lt_of_lt_of_le isNext (Log.le_comesTo ordered mem_cons_self)
        next isRoom =>
          refine ih ordered hd.id _ fun fits => overflows ⟨Nat.le_of_not_lt isRoom, fits⟩
      next isOut =>
        rw [if_neg isOut] at overflows
        exact ih ordered hd.id { request with lastid := hd.id } overflows

/-! ### The loop -/

variable {batch : Batch Content} {batches : List (Batch Content)} {request : Request Content}
variable {id stored : Nat}

theorem lt_afterBatch (packet : Nat → Nat → ZbxHistoryData Content → Nat)
    (request : Request Content) (isData : (batch.gathered id).data ≠ []) :
    id < (afterBatch packet batch id request).lastid := by
  obtain ⟨seen, unseen, adds⟩ := proxyAddHistData_adds packet batch.dcItems
    (batchRecords (batch.gathered id).data) request
  obtain ⟨before, newest, -, isNewest, lastid⟩ := adds.newest isData
  rw [afterBatch, lastid]
  exact (batch.gathers id).runs.above newest isNewest

theorem upTo_afterBatch (packet : Nat → Nat → ZbxHistoryData Content → Nat) (stored : Nat)
    (request : Request Content) (isData : (batch.gathered id).data ≠ []) :
    upTo stored (afterBatch packet batch id request) =
      (afterBatch packet batch id request).lastid :=
  if_neg (Nat.ne_zero_of_lt (lt_afterBatch packet request isData))

theorem bounded_iff (packet : Nat → Nat → ZbxHistoryData Content → Nat)
    (request : Request Content) (isData : (batch.gathered id).data ≠ [])
    (isShort : (batch.gathered id).data.length ≠ zbxMaxHrecords)
    (isRead : (batch.gathered id).retries = true) :
    (∀ row ∈ (batch.gathered id).table.entries,
        row.id ≤ (afterBatch packet batch id request).lastid) ↔
      FitsPacket packet batch.dcItems (batchRecords (batch.gathered id).data)
        request.recordsNum request.bufferOffset := by
  have gathers := batch.gathers id
  constructor
  · intro bounded
    by_contra overflows
    obtain ⟨row, isRow, isNewest⟩ := gathers.newest isRead isData
    have ordered := gathers.runs.ordered.sublist (batchRecords_sublist _)
    have below := proxyAddHistData_lastid_lt batch.dcItems _ ordered id request overflows
    rw [comesTo_batchRecords, ← isNewest] at below
    exact absurd (bounded row isRow) (Nat.not_le_of_lt below)
  · intro fits row isRow
    have lastid := proxyAddHistData_lastid batch.dcItems _ request fits
    rw [comesTo_batchRecords] at lastid
    rw [afterBatch, lastid]
    refine (gathers.complete isRead isShort row isRow).trans (Nat.le_of_eq ?_)
    obtain ⟨before, newest, isLast⟩ := eq_nil_or_concat _ |>.resolve_left isData
    rw [isLast, concat_eq_append, Log.comesTo_concat, Log.comesTo_concat]

theorem not_starts (stays : ¬ GoesOn request) {last : Batch Content} {lastId : Nat}
    {lastRequest : Request Content} :
    ¬ Starts packet batches id request last lastId lastRequest := by
  intro starts
  cases starts with
  | here goesOn => exact stays goesOn
  | later goesOn => exact stays goesOn

theorem lastFits_last (goesOn : GoesOn request)
    (isShort : (batch.gathered id).data.length ≠ zbxMaxHrecords) :
    LastFits packet (batch :: batches) id request ↔
      ((batch.gathered id).retries = true →
        FitsPacket packet batch.dcItems (batchRecords (batch.gathered id).data)
          request.recordsNum request.bufferOffset) := by
  constructor
  · exact fun fits => fits batch id request (Starts.here goesOn) isShort
  · intro fits last lastId lastRequest starts
    cases starts with
    | here => exact fun _ => fits
    | later _ isFull => exact absurd isFull isShort

theorem lastFits_full (goesOn : GoesOn request)
    (isFull : (batch.gathered id).data.length = zbxMaxHrecords) :
    LastFits packet (batch :: batches) id request ↔
      LastFits packet batches (afterBatch packet batch id request).lastid
        (afterBatch packet batch id request) := by
  constructor
  · exact fun fits last lastId lastRequest starts =>
      fits last lastId lastRequest (Starts.later goesOn isFull starts)
  · intro fits last lastId lastRequest starts
    cases starts with
    | here => exact fun isShort => absurd isFull isShort
    | later _ _ starts => exact fits last lastId lastRequest starts

theorem if_pos_of_false {condition : Prop} [Decidable condition]
    (isFalse : (if condition then false else true) = false) : condition := by
  by_contra notCondition
  rw [if_neg notCondition] at isFalse
  cases isFalse

theorem histLoop_truthful_iff {result : Outcome Content} {table : Option (Table Content)}
    (sameId : id = upTo stored request)
    (looped : histLoop packet batches id ⟨request, true, table⟩ = some result) :
    Truthful stored result ↔ LastFits packet batches id request := by
  induction batches generalizing id request table with
  | nil =>
    rw [histLoop] at looped
    split at looped
    · cases looped
    next stays =>
      cases looped
      exact iff_of_true nofun fun _ _ _ starts => absurd starts (not_starts stays)
  | cons batch batches ih =>
    rw [histLoop] at looped
    split at looped
    next goesOn =>
      have gathers := batch.gathers id
      dsimp only at looped
      split at looped
      next isNone =>
        have isShort : (batch.gathered id).data.length ≠ zbxMaxHrecords := by
          rw [isNone]
          exact (by decide : 0 ≠ zbxMaxHrecords)
        rw [lastFits_last goesOn isShort]
        cases looped
        refine iff_of_true (fun isDone table isTable row isRow => ?_) fun _ => isNone ▸ trivial
        cases isTable
        have isRead := (if_pos_of_false isDone).2
        have below := gathers.complete isRead isShort row isRow
        rw [isNone, Log.comesTo_nil] at below
        exact sameId ▸ below
      next isData =>
        split at looped
        next isShort =>
          rw [lastFits_last goesOn (Nat.ne_of_lt isShort)]
          cases looped
          cases isRead : (batch.gathered id).retries with
          | false =>
            refine iff_of_true (fun isDone => ?_) nofun
            cases (if_pos_of_false isDone).2
          | true =>
            rw [imp_iff_right rfl,
              ← bounded_iff packet request isData (Nat.ne_of_lt isShort) isRead,
              ← upTo_afterBatch packet stored request isData]
            constructor
            · intro truthful
              exact truthful (if_pos ⟨Nat.ne_of_lt isShort, rfl⟩) _ rfl
            · intro bounded _ table isTable
              cases isTable
              exact bounded
        next isLong =>
          have isFull : (batch.gathered id).data.length = zbxMaxHrecords :=
            Nat.le_antisymm gathers.runs.limited (Nat.le_of_not_lt isLong)
          rw [lastFits_full goesOn isFull]
          rw [if_neg (fun isDone => isDone.1 isFull)] at looped
          exact ih (upTo_afterBatch packet stored request isData).symm looped
    next stays =>
      cases looped
      exact iff_of_true nofun fun _ _ _ starts => absurd starts (not_starts stays)

end History

/-! ## Both -/

section

open Records SimpleTables ChangingTable

/-- The requests of a proxy are truthful about more data exactly when the packet does not
overflow in a batch that has read the history to its end, and when the rows of a simple table
are not cut off behind a gap. -/
theorem more_truthful_iff {Content : Type} (packet : Nat → Nat → ZbxHistoryData Content → Nat)
    (stored offset : Nat) (batches : List (Batch Content))
    (objectPacket : Nat → Nat → List Member → Nat) (ht : ZbxHistoryTable)
    (shown : Nat → Log TableRow.id) (progress : Progress) :
    (∀ outcome, proxyGetHistData packet stored offset batches = some outcome →
        (History.Truthful stored outcome ↔
          History.LastFits packet batches stored ⟨0, offset, 0, []⟩)) ∧
      (Simple.Truthful progress (proxyGetHistoryDataSimple objectPacket ht shown progress) ↔
        ¬ Simple.CutsOff objectPacket ht shown progress) :=
  ⟨fun _ looped => History.histLoop_truthful_iff rfl looped,
    Simple.proxyGetHistoryDataSimple_truthful_iff objectPacket ht shown progress⟩

def twoRecords : Table Unit where
  entries := [⟨1, 10, 0#8, 100, 0, 0, ()⟩, ⟨2, 10, 0#8, 160, 0, 0, ()⟩]
  ordered := by simp [Ordered]

/-- The batch that reads them. -/
def twoRecordsBatch : Batch Unit where
  shown := fun _ => twoRecords
  dcItems := fun _ => none

theorem more_truthful_iff_twoRecords :
    proxyGetHistData (fun _ offset _ => offset + 100) 0 200 [twoRecordsBatch] =
        some ⟨⟨0, 200, 2, []⟩, false, some twoRecords⟩ ∧
      (History.Truthful 0 ⟨⟨0, 200, 2, []⟩, false, some twoRecords⟩ ↔
        History.LastFits (fun _ offset _ => offset + 100) [twoRecordsBatch] 0
          ⟨0, 200, 0, []⟩) :=
  ⟨rfl, (more_truthful_iff (fun _ offset _ => offset + 100) 0 200 [twoRecordsBatch]
    (fun _ offset _ => offset + 100) dht (fun _ => ⟨[], List.Pairwise.nil⟩)
    ⟨0, 0, 0, 200, [], true⟩).1 _ rfl⟩

def discovered (id : Nat) : TableRow where
  id
  values :=
    ["1600000000".toList, "2".toList, "3".toList, "192.0.2.1".toList, [], "80".toList, [],
      "0".toList]

def rolledBack : Log TableRow.id where
  entries := (List.range' 1 5 ++ List.range' 7 1994).map discovered
  ordered := by
    rw [Ordered, pairwise_map]
    refine pairwise_append.mpr ⟨pairwise_lt_range', pairwise_lt_range', ?_⟩
    intro first isFirst second isSecond
    have below := (mem_range'_1.mp isFirst).2
    have above := (mem_range'_1.mp isSecond).1
    change first < second
    omega

theorem fitsPacket_of_length (ht : ZbxHistoryTable) (rows : List TableRow) (recordsNum offset : Nat)
    (short : offset + 100 * rows.length ≤ Gathering.zbxDataJsonRecordLimit) :
    FitsPacket (fun _ offset _ => offset + 100) ht rows recordsNum offset := by
  induction rows generalizing recordsNum offset with
  | nil => trivial
  | cons row rows ih =>
    rw [length_cons] at short
    refine ⟨?_, ih _ _ ?_⟩ <;> dsimp only <;> omega

theorem rolledBack_entries :
    rolledBack.entries =
      (List.range' 1 5).map discovered ++ (List.range' 7 1994).map discovered :=
  map_append

theorem after_range' {low start : Nat} (below : low < start) (count : Nat) :
    after TableRow.id low ((List.range' start count).map discovered) =
      (List.range' start count).map discovered := by
  refine filter_eq_self.mpr fun row isRow => ?_
  obtain ⟨id, isId, rfl⟩ := mem_map.mp isRow
  exact decide_eq_true (Nat.lt_of_lt_of_le below (mem_range'_1.mp isId).1)

theorem rolledBack_after_zero : after TableRow.id 0 rolledBack.entries = rolledBack.entries := by
  rw [rolledBack_entries, after, filter_append]
  exact congrArg₂ (· ++ ·) (after_range' (by decide) 5) (after_range' (by decide) 1994)

theorem rolledBack_after_five :
    after TableRow.id 5 rolledBack.entries = (List.range' 7 1994).map discovered := by
  rw [rolledBack_entries, after, filter_append]
  exact congrArg₂ (· ++ ·) rfl (after_range' (by decide) 1994)

theorem rolledBack_early (progress : Progress) (isStart : progress.id = 0) :
    Simple.earlyRows (fun _ => rolledBack) progress = (List.range' 1 5).map discovered := by
  rw [Simple.earlyRows, isStart, Log.select, rolledBack_after_zero, rolledBack_entries,
    range'_succ (s := 7) (n := 1993)]
  rfl

/-- A thousand of the rows behind the gap are sent, and the request says that there are no
more. -/
theorem not_more_truthful_rolledBack :
    ¬ Simple.Truthful ⟨0, 0, 0, 200, [], true⟩
      (proxyGetHistoryDataSimple (fun _ offset _ => offset + 100) dht (fun _ => rolledBack)
        ⟨0, 0, 0, 200, [], true⟩) := by
  rw [Simple.proxyGetHistoryDataSimple_truthful_iff, not_not]
  have early := rolledBack_early ⟨0, 0, 0, 200, [], true⟩ rfl
  have gapId : Simple.gapId (fun _ => rolledBack) ⟨0, 0, 0, 200, [], true⟩ = 5 := by
    rw [Simple.gapId, early]
    rfl
  have isSmall : Gathering.zbxMaxHrecords = 1000 := rfl
  constructor
  · rw [early]
    exact cons_ne_nil _ _
  · rw [early]
    intro same
    have longer := congrArg List.length same
    rw [Log.select, rolledBack_after_zero, length_take, rolledBack_entries,
      length_append, length_map, length_map, length_range',
      length_range'] at longer
    omega
  · refine fitsPacket_of_length dht _ _ _ ?_
    rw [early, Simple.lateRows, length_append, Log.select, length_take, length_map,
      length_range']
    have isLarge : 1000000 ≤ Gathering.zbxDataJsonRecordLimit := by decide
    dsimp only
    omega
  · rw [gapId, rolledBack_after_five, length_map, length_range']
    omega

end

end Zabbix.ProxyHistory.MoreData
