import Zabbix.ProxyHistory.Coverage

/-!
# Gathering history from a table that changes

The history syncers add rows to `proxy_history` while `proxy_get_hist_data` reads it, and the
housekeeper removes some.  Here each select finds a table of its own, and the table of the
last one is kept beside the request.
-/

namespace Zabbix.ProxyHistory.ChangingTable

open Library.OrderedLog Records List
open Gathering (zbxMaxHrecords zbxMaxHrecordsTotal zbxDataJsonRecordLimit
  zbxDataJsonBatchLimit maxTotalRetries Fetched fetchRows ItemCache isAdded Request
  proxyAddHistData filterNovalue)
open Coverage

variable {Content : Type}

/-- The rows of `proxy_history` at a select. -/
abbrev Table (Content : Type) : Type :=
  Log (@ZbxHistoryData.id Content)

/-! ## A batch -/

/-- What `proxy_get_history_data` leaves: the records, whether `retries` is 1, and the table
of the last select. -/
structure Gathered (Content : Type) where
  data : List (ZbxHistoryData Content)
  retries : Bool
  table : Table Content

/-- `proxy_get_history_data` from `try_again` on; the n-th select from here finds `shown n`. -/
def proxyGetHistoryData :
    Nat → (Nat → Table Content) → List (ZbxHistoryData Content) → Nat → Bool → Gathered Content
  | totalRetries, shown, data, lastid, retries =>
    match fetchRows data lastid retries
        ((shown 0).select lastid (zbxMaxHrecords - data.length)) with
    | .done data retries => ⟨data, retries, shown 0⟩
    | .missing data lastid =>
      match totalRetries with
      | 0 => ⟨data, false, shown 0⟩
      | totalRetries + 1 =>
        proxyGetHistoryData totalRetries (fun select => shown (select + 1)) data lastid false

/-! ## The whole request -/

/-- What the environment answers during a batch. -/
structure Batch (Content : Type) where
  shown : Nat → Table Content
  dcItems : ItemCache

/-- `proxy_get_history_data` as `proxy_get_hist_data` calls it. -/
def Batch.gathered (batch : Batch Content) (id : Nat) : Gathered Content :=
  proxyGetHistoryData maxTotalRetries batch.shown [] id true

/-- What `proxy_get_hist_data` leaves: the request, `*more`, and the table of the last select. -/
structure Outcome (Content : Type) where
  request : Request Content
  more : Bool
  table : Option (Table Content)

variable (packet : Nat → Nat → ZbxHistoryData Content → Nat)

/-- The loop of `proxy_get_hist_data`. -/
def histLoop : List (Batch Content) → Nat → Outcome Content → Option (Outcome Content)
  | batches, id, outcome =>
    if outcome.request.bufferOffset < zbxDataJsonBatchLimit ∧
        outcome.request.recordsNum < zbxMaxHrecordsTotal then
      match batches with
      | [] => none
      | batch :: batches =>
        let gathered := batch.gathered id
        let more :=
          if gathered.data.length ≠ zbxMaxHrecords ∧ gathered.retries then false
          else outcome.more
        if gathered.data = [] then some ⟨outcome.request, more, some gathered.table⟩
        else
          let records := filterNovalue [] gathered.data.reverse
          let request :=
            proxyAddHistData packet batch.dcItems records.reverse outcome.request
          if gathered.data.length < zbxMaxHrecords then
            some ⟨request, more, some gathered.table⟩
          else histLoop batches request.lastid ⟨request, more, some gathered.table⟩
    else some outcome

/-- `proxy_get_hist_data`, called when the request has `offset` bytes. -/
def proxyGetHistData (lastid offset : Nat) (batches : List (Batch Content)) :
    Option (Outcome Content) :=
  histLoop packet batches lastid ⟨⟨0, offset, 0, []⟩, true, none⟩

/-! ## What a batch has -/

section

variable {data rows : List (ZbxHistoryData Content)} {low lastid : Nat}

/-- The end of the loop over the rows of a select. -/
inductive FetchesRows (data rows : List (ZbxHistoryData Content)) (lastid : Nat)
    (retries : Bool) : Fetched Content → Prop where
  | done : FetchesRows data rows lastid retries (.done (data ++ rows) (retries || !rows.isEmpty))
  | missing (taken : List (ZbxHistoryData Content)) : taken <+: rows →
      FetchesRows data rows lastid retries
        (.missing (data ++ taken) (Log.comesTo ZbxHistoryData.id lastid taken))

theorem fetchRows_spec (data rows : List (ZbxHistoryData Content)) (lastid : Nat)
    (retries : Bool) :
    FetchesRows data rows lastid retries (fetchRows data lastid retries rows) := by
  induction rows generalizing data lastid retries with
  | nil =>
    have ends : FetchesRows data [] lastid retries _ := FetchesRows.done
    rwa [append_nil, isEmpty_nil, Bool.not_true, Bool.or_false] at ends
  | cons row rows ih =>
    rw [fetchRows]
    split
    next =>
      have ends : FetchesRows data (row :: rows) lastid retries _ :=
        FetchesRows.missing [] nil_prefix
      rwa [append_nil] at ends
    next =>
      have ends := ih (data ++ [row]) row.id true
      generalize fetchRows (data ++ [row]) row.id true rows = fetched at ends ⊢
      cases ends with
      | done =>
        rw [append_assoc, Bool.true_or, ← Bool.or_true retries]
        exact FetchesRows.done
      | missing taken isFront =>
        have ends : FetchesRows data (row :: rows) lastid retries _ :=
          FetchesRows.missing (row :: taken) (cons_prefix_cons.mpr ⟨rfl, isFront⟩)
        rwa [Log.comesTo_cons, List.append_cons] at ends

/-- Records read one after another from `low` on. -/
structure RunsFrom (low : Nat) (data : List (ZbxHistoryData Content)) : Prop where
  ordered : Ordered ZbxHistoryData.id data
  above : ∀ hd ∈ data, low < hd.id
  limited : data.length ≤ zbxMaxHrecords

/-- A select behind the records read so far goes on with them. -/
theorem RunsFrom.append (runs : RunsFrom low data) (table : Table Content)
    (isFront : rows <+: table.select (Log.comesTo ZbxHistoryData.id low data)
      (zbxMaxHrecords - data.length)) :
    RunsFrom low (data ++ rows) where
  ordered := by
    refine pairwise_append.mpr ⟨runs.ordered, ?_, fun hd isData row isRow => ?_⟩
    · exact (table.select_ordered _ _).sublist isFront.sublist
    · have isAbove := (mem_after.mp (mem_of_mem_take (isFront.subset isRow))).2
      exact Nat.lt_of_le_of_lt (Log.le_comesTo runs.ordered isData) isAbove
  above := by
    intro hd isIn
    rcases mem_append.mp isIn with isData | isRow
    · exact runs.above hd isData
    · have isAbove := (mem_after.mp (mem_of_mem_take (isFront.subset isRow))).2
      exact Nat.lt_of_le_of_lt (Log.low_le_comesTo runs.above) isAbove
  limited := by
    have short := isFront.length_le
    rw [Log.select, length_take] at short
    have limited := runs.limited
    rw [length_append]
    omega

/-- What a batch is: a run of records; when `retries` is 1, the last select has found the
newest of them, and all the rows unless the limit has cut some off. -/
structure GathersFrom (low : Nat) (gathered : Gathered Content) : Prop where
  runs : RunsFrom low gathered.data
  complete : gathered.retries = true → gathered.data.length ≠ zbxMaxHrecords →
    ∀ row ∈ gathered.table.entries, row.id ≤ Log.comesTo ZbxHistoryData.id low gathered.data
  newest : gathered.retries = true → gathered.data ≠ [] →
    ∃ row ∈ gathered.table.entries, row.id = Log.comesTo ZbxHistoryData.id low gathered.data

theorem GathersFrom.all (table : Table Content) (runs : RunsFrom low data)
    (retries : Bool) (fresh : retries = true → data = [])
    (isRead : table.select (Log.comesTo ZbxHistoryData.id low data)
      (zbxMaxHrecords - data.length) = rows) :
    GathersFrom low ⟨data ++ rows, retries || !rows.isEmpty, table⟩ where
  runs := runs.append table (isRead ▸ prefix_rfl)
  complete := by
    intro _ short
    have isFront : rows <+: table.select (Log.comesTo ZbxHistoryData.id low data)
        (zbxMaxHrecords - data.length) := isRead ▸ prefix_rfl
    have limited := (runs.append table isFront).limited
    dsimp only at short ⊢
    rw [length_append] at short limited
    have isShort : (table.select (Log.comesTo ZbxHistoryData.id low data)
        (zbxMaxHrecords - data.length)).length < zbxMaxHrecords - data.length := by
      rw [isRead]
      omega
    have isAll := table.select_eq_after isShort
    rw [Log.comesTo_append, ← isRead]
    refine (table.select_complete_iff _ _ (by omega)).mpr ?_
    rw [← isAll, isRead]
    omega
  newest := by
    intro isOne isSome
    dsimp only at isOne isSome ⊢
    rcases eq_nil_or_concat rows with rfl | ⟨before, newest, rfl⟩
    · rw [isEmpty_nil, Bool.not_true, Bool.or_false] at isOne
      exact absurd ((append_nil data).trans (fresh isOne)) isSome
    · rw [concat_eq_append] at isRead ⊢
      refine ⟨newest, ?_, ?_⟩
      · have isTaken : newest ∈ table.select (Log.comesTo ZbxHistoryData.id low data)
            (zbxMaxHrecords - data.length) := by
          rw [isRead]
          exact mem_append_right before (mem_singleton_self newest)
        exact (mem_after.mp (mem_of_mem_take isTaken)).1
      · rw [Log.comesTo_append, Log.comesTo_concat]

theorem proxyGetHistoryData_gathers (totalRetries : Nat) (shown : Nat → Table Content)
    (retries : Bool) (runs : RunsFrom low data) (fresh : retries = true → data = []) :
    GathersFrom low (proxyGetHistoryData totalRetries shown data
      (Log.comesTo ZbxHistoryData.id low data) retries) := by
  induction totalRetries generalizing shown data retries with
  | zero =>
    have ends := fetchRows_spec data
      ((shown 0).select (Log.comesTo ZbxHistoryData.id low data) (zbxMaxHrecords - data.length))
      (Log.comesTo ZbxHistoryData.id low data) retries
    rw [proxyGetHistoryData]
    generalize fetchRows data (Log.comesTo ZbxHistoryData.id low data) retries
      ((shown 0).select (Log.comesTo ZbxHistoryData.id low data)
        (zbxMaxHrecords - data.length)) = fetched at ends ⊢
    cases ends with
    | done => exact GathersFrom.all (shown 0) runs retries fresh rfl
    | missing taken isFront => exact ⟨runs.append (shown 0) isFront, nofun, nofun⟩
  | succ totalRetries ih =>
    have ends := fetchRows_spec data
      ((shown 0).select (Log.comesTo ZbxHistoryData.id low data) (zbxMaxHrecords - data.length))
      (Log.comesTo ZbxHistoryData.id low data) retries
    rw [proxyGetHistoryData]
    generalize fetchRows data (Log.comesTo ZbxHistoryData.id low data) retries
      ((shown 0).select (Log.comesTo ZbxHistoryData.id low data)
        (zbxMaxHrecords - data.length)) = fetched at ends ⊢
    cases ends with
    | done => exact GathersFrom.all (shown 0) runs retries fresh rfl
    | missing taken isFront =>
      dsimp only
      rw [← Log.comesTo_append]
      exact ih (fun select => shown (select + 1)) false
        (runs.append (shown 0) isFront) nofun

theorem Batch.gathers (batch : Batch Content) (id : Nat) :
    GathersFrom id (batch.gathered id) :=
  proxyGetHistoryData_gathers maxTotalRetries batch.shown true
    ⟨List.Pairwise.nil, nofun, Nat.zero_le _⟩ (fun _ => rfl)

end

end Zabbix.ProxyHistory.ChangingTable
