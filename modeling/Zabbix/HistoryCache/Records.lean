import Zabbix.Common.History

/-!
# Records of the history cache

A collector hands over records from its local buffer (`dc_item_value_t`); they
are cloned into shared memory (`zbx_hc_data_t`), and a history syncer copies
them out again (`ZBX_DC_HISTORY`).

Every shared memory request of a clone may fail, in which case the caller
sleeps and repeats the call with the partly filled record.  The answers of the
allocator are a list of booleans; an exhausted list refuses.  The main result
is that, however often a clone was interrupted, the record that finally comes
out is `clonedData` of the local record.
-/

namespace Zabbix.HistoryCache.Records

open Common.History

/--
`dc_item_value_t`.  A string of the local buffer is `none` where its `len` is
zero.
-/
structure DcItemValue where
  itemid : ItemId
  valueDbl : Dbl := 0
  valueUint : Nat := 0
  valueStr : Option String := none
  ts : TimeSpec
  source : Option String := none
  lastlogsize : Nat := 0
  timestamp : Int := 0
  severity : Int := 0
  logeventid : Int := 0
  mtime : Int := 0
  itemValueType : ItemValueType
  valueType : ItemValueType
  state : ItemState := .normal
  flags : UInt8 := 0
deriving DecidableEq, Repr

/-- `zbx_hc_data_t` without its list link. -/
structure HcData where
  value : HistoryValue := .zero
  lastlogsize : Nat := 0
  ts : TimeSpec
  mtime : Int := 0
  valueType : ItemValueType := .float
  flags : UInt8
  state : ItemState
deriving DecidableEq, Repr

/-- The fields of `ZBX_DC_HISTORY` which the cache fills in. -/
structure ZbxDcHistory where
  itemid : ItemId
  value : HistoryValue
  lastlogsize : Nat
  ts : TimeSpec
  mtime : Int
  valueType : Option ItemValueType
  flags : UInt8
  state : ItemState
deriving DecidableEq, Repr

structure ZbxDcStats where
  historyCounter : Nat := 0
  historyFloatCounter : Nat := 0
  historyUintCounter : Nat := 0
  historyStrCounter : Nat := 0
  historyLogCounter : Nat := 0
  historyTextCounter : Nat := 0
  notsupportedCounter : Nat := 0
deriving DecidableEq, Repr

/-! ## Shared memory -/

/-- The pending answers of the shared memory allocator. -/
abbrev Mem := List Bool

/-- `__hc_mem_malloc_func`: whether the request was granted. -/
def hcMemMalloc : Mem → Bool × Mem
  | [] => (false, [])
  | granted :: rest => (granted, rest)

def hcMemValueStrDup (str : Option String) (mem : Mem) : Option String × Mem :=
  match hcMemMalloc mem with
  | (true, rest) => (some (str.getD ""), rest)
  | (false, rest) => (none, rest)

/-- `hc_clone_history_str_data`: success, the new destination, and the memory. -/
def hcCloneHistoryStrData
    (dst : Option String) (str : Option String) (mem : Mem) :
    Bool × Option String × Mem :=
  match str with
  | none => (true, dst, mem)
  | some _ =>
    match dst with
    | some _ => (true, dst, mem)
    | none =>
      match hcMemValueStrDup str mem with
      | (some copy, rest) => (true, some copy, rest)
      | (none, rest) => (false, none, rest)

def strPointer : HistoryValue → Option String
  | .str text => some text
  | _ => none

/-- The union after a string pointer was stored. -/
def ofStrPointer : Option String → HistoryValue
  | some text => .str text
  | none => .zero

/-- The two strings and the numbers of a log value. -/
def cloneLogFields
    (log : LogValue) (itemValue : DcItemValue) (mem : Mem) :
    Bool × HistoryValue × Mem :=
  match hcCloneHistoryStrData log.value itemValue.valueStr mem with
  | (false, value, mem) => (false, .log { log with value }, mem)
  | (true, value, mem) =>
    match hcCloneHistoryStrData log.source itemValue.source mem with
    | (false, source, mem) => (false, .log { log with value, source }, mem)
    | (true, source, mem) =>
      (true,
        .log
          { value, source
            logeventid := itemValue.logeventid
            severity := itemValue.severity
            timestamp := itemValue.timestamp },
        mem)

/-- `hc_clone_history_log_data`: success, the union, and the memory. -/
def hcCloneHistoryLogData
    (dst : HistoryValue) (itemValue : DcItemValue) (mem : Mem) :
    Bool × HistoryValue × Mem :=
  match dst with
  | .log log => cloneLogFields log itemValue mem
  | _ =>
    match hcMemMalloc mem with
    | (false, mem) => (false, .zero, mem)
    | (true, mem) => cloneLogFields {} itemValue mem

/-! ## Cloning a record -/

/-- What one call of `hc_clone_history_data` leaves behind. -/
structure CloneResult where
  done : Bool
  data : Option HcData
  stats : ZbxDcStats
  mem : Mem

/-- The counter of `cache->stats` for a value of the given type. -/
def ZbxDcStats.countType (stats : ZbxDcStats) : ItemValueType → ZbxDcStats
  | .float => { stats with historyFloatCounter := stats.historyFloatCounter + 1 }
  | .uint64 => { stats with historyUintCounter := stats.historyUintCounter + 1 }
  | .str => { stats with historyStrCounter := stats.historyStrCounter + 1 }
  | .text => { stats with historyTextCounter := stats.historyTextCounter + 1 }
  | .log => { stats with historyLogCounter := stats.historyLogCounter + 1 }
  | .none => stats

/-- The `switch` over the value type: success, the union, and the memory. -/
def cloneTypedValue
    (dst : HistoryValue) (itemValue : DcItemValue) (mem : Mem) :
    Bool × HistoryValue × Mem :=
  match itemValue.valueType with
  | .float => (true, .dbl itemValue.valueDbl, mem)
  | .uint64 => (true, .ui64 itemValue.valueUint, mem)
  | .str | .text =>
    match hcCloneHistoryStrData (strPointer dst) itemValue.valueStr mem with
    | (done, copy, mem) => (done, ofStrPointer copy, mem)
  | .log => hcCloneHistoryLogData dst itemValue mem
  | .none => (true, dst, mem)

/-- The part of `hc_clone_history_data` after the record itself is allocated. -/
def cloneContents
    (stats : ZbxDcStats) (data : HcData) (itemValue : DcItemValue) (mem : Mem) :
    CloneResult :=
  if itemValue.state = .notsupported then
    match hcMemValueStrDup itemValue.valueStr mem with
    | (none, mem) => ⟨false, some { data with value := .zero }, stats, mem⟩
    | (some text, mem) =>
      ⟨true, some { data with value := .str text, valueType := itemValue.valueType },
        { stats with notsupportedCounter := stats.notsupportedCounter + 1 }, mem⟩
  else if hasFlag zbxDcFlagLld itemValue.flags then
    match hcMemValueStrDup itemValue.valueStr mem with
    | (none, mem) => ⟨false, some { data with value := .zero }, stats, mem⟩
    | (some text, mem) =>
      ⟨true, some { data with value := .str text, valueType := .text },
        { stats with
          historyTextCounter := stats.historyTextCounter + 1
          historyCounter := stats.historyCounter + 1 }, mem⟩
  else if hasFlag zbxDcFlagNovalue itemValue.flags then
    ⟨true, some { data with valueType := itemValue.valueType }, stats, mem⟩
  else
    match cloneTypedValue data.value itemValue mem with
    | (false, value, mem) => ⟨false, some { data with value }, stats, mem⟩
    | (true, value, mem) =>
      let counted := stats.countType itemValue.itemValueType
      ⟨true, some { data with value, valueType := itemValue.valueType },
        { counted with historyCounter := counted.historyCounter + 1 }, mem⟩

/-- The record right after its allocation. -/
def freshData (itemValue : DcItemValue) : HcData where
  state := itemValue.state
  ts := itemValue.ts
  flags := itemValue.flags

/-- The assignment of `lastlogsize` and `mtime` for a record with meta data. -/
def cloneMeta (data : HcData) (itemValue : DcItemValue) : HcData :=
  if hasFlag zbxDcFlagMeta itemValue.flags then
    { data with lastlogsize := itemValue.lastlogsize, mtime := itemValue.mtime }
  else
    data

def hcCloneHistoryData
    (stats : ZbxDcStats) (data : Option HcData) (itemValue : DcItemValue)
    (mem : Mem) : CloneResult :=
  match data with
  | some data => cloneContents stats (cloneMeta data itemValue) itemValue mem
  | none =>
    match hcMemMalloc mem with
    | (false, mem) => ⟨false, none, stats, mem⟩
    | (true, mem) =>
      cloneContents stats (cloneMeta (freshData itemValue) itemValue) itemValue mem

/-! ## Copying a record out -/

/-- `hc_copy_history_data`; the value type of an unsupported item is not set. -/
def hcCopyHistoryData (itemid : ItemId) (data : HcData) : ZbxDcHistory :=
  let header : ZbxDcHistory :=
    { itemid
      value := .zero
      lastlogsize := data.lastlogsize
      ts := data.ts
      mtime := data.mtime
      valueType := none
      flags := data.flags
      state := data.state }
  if data.state = .notsupported then
    { header with
      value := .err ((strPointer data.value).getD "")
      flags := data.flags ||| zbxDcFlagUndef }
  else if hasFlag zbxDcFlagNovalue data.flags then
    { header with valueType := some data.valueType }
  else
    { header with valueType := some data.valueType, value := data.value }

/-! ## What a complete clone holds -/

def clonedValue (itemValue : DcItemValue) : HistoryValue :=
  if itemValue.state = .notsupported ∨ hasFlag zbxDcFlagLld itemValue.flags then
    .str (itemValue.valueStr.getD "")
  else if hasFlag zbxDcFlagNovalue itemValue.flags then
    .zero
  else
    match itemValue.valueType with
    | .float => .dbl itemValue.valueDbl
    | .uint64 => .ui64 itemValue.valueUint
    | .str | .text => ofStrPointer itemValue.valueStr
    | .log =>
      .log
        { value := itemValue.valueStr
          source := itemValue.source
          logeventid := itemValue.logeventid
          severity := itemValue.severity
          timestamp := itemValue.timestamp }
    | .none => .zero

/-- The record which a local record becomes in the history cache. -/
def clonedData (itemValue : DcItemValue) : HcData :=
  { cloneMeta (freshData itemValue) itemValue with
    value := clonedValue itemValue
    valueType :=
      if itemValue.state = .normal ∧ hasFlag zbxDcFlagLld itemValue.flags then .text
      else itemValue.valueType }

/-- The log values which an interrupted clone can leave. -/
def PartialLog (itemValue : DcItemValue) (log : LogValue) : Prop :=
  (log.value = none ∨ log.value = itemValue.valueStr) ∧ log.source = none

/-- The union of an interrupted clone. -/
def PartialValue (itemValue : DcItemValue) : HistoryValue → Prop
  | .zero => True
  | .log log => itemValue.valueType = .log ∧ PartialLog itemValue log
  | _ => False

/-- The records which an interrupted clone can leave. -/
def PartialClone (itemValue : DcItemValue) : Option HcData → Prop
  | none => True
  | some data =>
    data = { cloneMeta (freshData itemValue) itemValue with value := data.value } ∧
      PartialValue itemValue data.value ∧
      (itemValue.state = .notsupported ∨ hasFlag zbxDcFlagLld itemValue.flags ∨
          hasFlag zbxDcFlagNovalue itemValue.flags → data.value = .zero)

/-! ## Interrupted clones are completed -/

theorem cloneMeta_fresh_idem (itemValue : DcItemValue) (value : HistoryValue) :
    cloneMeta { cloneMeta (freshData itemValue) itemValue with value } itemValue =
      { cloneMeta (freshData itemValue) itemValue with value } := by
  unfold cloneMeta
  split_ifs
  · rfl
  · rfl

/-- A string clone either completes the string or leaves nothing. -/
def StrProgress (str : Option String) : Bool × Option String × Mem → Prop
  | (true, copy, _) => copy = str
  | (false, copy, _) => copy = none

theorem hcCloneHistoryStrData_progress
    {dst str : Option String} (mem : Mem)
    (earlier : dst = none ∨ dst = str) :
    StrProgress str (hcCloneHistoryStrData dst str mem) := by
  cases str with
  | none =>
    have empty : dst = none := by tauto
    simp [hcCloneHistoryStrData, StrProgress, empty]
  | some text =>
    cases dst with
    | some copy =>
      have complete : copy = text := by simpa using earlier
      simp [hcCloneHistoryStrData, StrProgress, complete]
    | none =>
      rcases granted : hcMemMalloc mem with ⟨answer, rest⟩
      cases answer <;>
        simp [hcCloneHistoryStrData, hcMemValueStrDup, StrProgress, granted]

def clonedLog (itemValue : DcItemValue) : LogValue where
  value := itemValue.valueStr
  source := itemValue.source
  logeventid := itemValue.logeventid
  severity := itemValue.severity
  timestamp := itemValue.timestamp

/-- What a step of a clone may leave in the union. -/
def ValueProgress (itemValue : DcItemValue) (complete : HistoryValue) :
    Bool × HistoryValue × Mem → Prop
  | (true, value, _) => value = complete
  | (false, value, _) => PartialValue itemValue value

theorem cloneLogFields_progress
    {log : LogValue} {itemValue : DcItemValue} (mem : Mem)
    (isLog : itemValue.valueType = .log)
    (earlier : PartialLog itemValue log) :
    ValueProgress itemValue (.log (clonedLog itemValue))
      (cloneLogFields log itemValue mem) := by
  have valueProgress := hcCloneHistoryStrData_progress mem earlier.1
  unfold cloneLogFields
  generalize hcCloneHistoryStrData log.value itemValue.valueStr mem = outcome
    at valueProgress ⊢
  obtain ⟨valueDone, value, mem⟩ := outcome
  cases valueDone with
  | false => exact ⟨isLog, Or.inl valueProgress, earlier.2⟩
  | true =>
    have sourceProgress :
        StrProgress itemValue.source
          (hcCloneHistoryStrData log.source itemValue.source mem) :=
      hcCloneHistoryStrData_progress mem (Or.inl earlier.2)
    dsimp only
    generalize hcCloneHistoryStrData log.source itemValue.source mem = outcome
      at sourceProgress ⊢
    obtain ⟨sourceDone, source, mem⟩ := outcome
    cases sourceDone with
    | false => exact ⟨isLog, Or.inr valueProgress, sourceProgress⟩
    | true =>
      simp only [StrProgress] at valueProgress sourceProgress
      simp [ValueProgress, clonedLog, valueProgress, sourceProgress]

theorem hcCloneHistoryLogData_progress
    {dst : HistoryValue} {itemValue : DcItemValue} (mem : Mem)
    (isLog : itemValue.valueType = .log)
    (earlier : PartialValue itemValue dst) :
    ValueProgress itemValue (.log (clonedLog itemValue))
      (hcCloneHistoryLogData dst itemValue mem) := by
  unfold hcCloneHistoryLogData
  cases dst with
  | log log => exact cloneLogFields_progress mem isLog earlier.2
  | zero =>
    rcases hcMemMalloc mem with ⟨granted, rest⟩
    cases granted with
    | false => trivial
    | true =>
      exact cloneLogFields_progress rest isLog ⟨Or.inl rfl, rfl⟩
  | dbl value => exact absurd earlier id
  | ui64 value => exact absurd earlier id
  | str text => exact absurd earlier id
  | err text => exact absurd earlier id

theorem cloneTypedValue_progress
    {dst : HistoryValue} {itemValue : DcItemValue} (mem : Mem)
    (regular : ¬(itemValue.state = .notsupported ∨
      hasFlag zbxDcFlagLld itemValue.flags))
    (valued : ¬hasFlag zbxDcFlagNovalue itemValue.flags)
    (earlier : PartialValue itemValue dst) :
    ValueProgress itemValue (clonedValue itemValue)
      (cloneTypedValue dst itemValue mem) := by
  have textProgress :
      ValueProgress itemValue (ofStrPointer itemValue.valueStr)
        (match hcCloneHistoryStrData (strPointer dst) itemValue.valueStr mem with
          | (done, copy, mem) => (done, ofStrPointer copy, mem)) := by
    have empty : strPointer dst = none := by
      cases dst <;> first | rfl | exact absurd earlier id
    have progress :
        StrProgress itemValue.valueStr
          (hcCloneHistoryStrData (strPointer dst) itemValue.valueStr mem) :=
      hcCloneHistoryStrData_progress mem (Or.inl empty)
    generalize hcCloneHistoryStrData (strPointer dst) itemValue.valueStr mem = outcome
      at progress ⊢
    obtain ⟨done, copy, mem⟩ := outcome
    cases done with
    | false =>
      simp only [StrProgress] at progress
      subst progress
      trivial
    | true => exact congrArg ofStrPointer progress
  unfold cloneTypedValue clonedValue
  rw [if_neg regular, if_neg valued]
  cases kind : itemValue.valueType with
  | float => rfl
  | uint64 => rfl
  | str => exact textProgress
  | text => exact textProgress
  | log => exact hcCloneHistoryLogData_progress mem kind earlier
  | none =>
    cases dst with
    | zero => rfl
    | log log => simp [PartialValue, kind] at earlier
    | dbl value => exact absurd earlier id
    | ui64 value => exact absurd earlier id
    | str text => exact absurd earlier id
    | err text => exact absurd earlier id

/-- What one call of `hc_clone_history_data` may leave. -/
def CloneProgress (itemValue : DcItemValue) (result : CloneResult) : Prop :=
  if result.done then
    result.data = some (clonedData itemValue)
  else
    PartialClone itemValue result.data

theorem hcMemValueStrDup_cases (str : Option String) (mem : Mem) :
    (∃ rest, hcMemValueStrDup str mem = (none, rest)) ∨
      ∃ rest, hcMemValueStrDup str mem = (some (str.getD ""), rest) := by
  unfold hcMemValueStrDup
  rcases hcMemMalloc mem with ⟨granted, rest⟩
  cases granted with
  | false => exact Or.inl ⟨rest, rfl⟩
  | true => exact Or.inr ⟨rest, rfl⟩

theorem cloneContents_progress
    (stats : ZbxDcStats) {value : HistoryValue} {itemValue : DcItemValue} (mem : Mem)
    (earlier : PartialClone itemValue
      (some { cloneMeta (freshData itemValue) itemValue with value })) :
    CloneProgress itemValue
      (cloneContents stats { cloneMeta (freshData itemValue) itemValue with value }
        itemValue mem) := by
  obtain ⟨-, partialValue, special⟩ := earlier
  have restart :
      PartialClone itemValue
        (some { cloneMeta (freshData itemValue) itemValue with value := .zero }) :=
    ⟨rfl, trivial, fun _ => rfl⟩
  unfold cloneContents
  split_ifs with unsupported lld noValue
  · rcases hcMemValueStrDup_cases itemValue.valueStr mem with
      ⟨rest, refused⟩ | ⟨rest, copied⟩
    · simpa [CloneProgress, refused] using restart
    · simp [CloneProgress, copied, clonedData, clonedValue, unsupported]
  · have normal : itemValue.state = .normal := by
      cases state : itemValue.state with
      | normal => rfl
      | notsupported => exact absurd state unsupported
    rcases hcMemValueStrDup_cases itemValue.valueStr mem with
      ⟨rest, refused⟩ | ⟨rest, copied⟩
    · simpa [CloneProgress, refused] using restart
    · simp [CloneProgress, copied, clonedData, clonedValue, normal, lld]
  · have empty : value = .zero := special (Or.inr (Or.inr noValue))
    simp [CloneProgress, clonedData, clonedValue, unsupported, lld, noValue, empty]
  · have regular : ¬(itemValue.state = .notsupported ∨
        hasFlag zbxDcFlagLld itemValue.flags) := by
      simp [unsupported, lld]
    have progress := cloneTypedValue_progress mem regular noValue partialValue
    dsimp only
    generalize cloneTypedValue value itemValue mem = outcome at progress ⊢
    obtain ⟨done, value, rest⟩ := outcome
    cases done with
    | false =>
      simp only [CloneProgress, Bool.false_eq_true, if_false]
      refine ⟨rfl, progress, ?_⟩
      rintro (unsupported' | lld' | noValue')
      · exact absurd unsupported' unsupported
      · exact absurd lld' lld
      · exact absurd noValue' noValue
    | true =>
      simp only [ValueProgress] at progress
      simp [CloneProgress, clonedData, progress, lld]

/-- However a clone was interrupted before, its next call makes progress. -/
theorem hcCloneHistoryData_progress
    (stats : ZbxDcStats) {data : Option HcData} {itemValue : DcItemValue}
    (mem : Mem) (earlier : PartialClone itemValue data) :
    CloneProgress itemValue (hcCloneHistoryData stats data itemValue mem) := by
  unfold hcCloneHistoryData
  cases data with
  | some data =>
    dsimp only
    rw [earlier.1, cloneMeta_fresh_idem]
    exact cloneContents_progress stats mem ⟨rfl, earlier.2⟩
  | none =>
    rcases hcMemMalloc mem with ⟨granted, rest⟩
    cases granted with
    | false => trivial
    | true =>
      have empty : (cloneMeta (freshData itemValue) itemValue).value = .zero := by
        unfold cloneMeta
        split_ifs
        · rfl
        · rfl
      have started : PartialClone itemValue
          (some { cloneMeta (freshData itemValue) itemValue with value := .zero }) :=
        ⟨rfl, trivial, fun _ => rfl⟩
      have progress := cloneContents_progress stats rest started
      rw [← empty] at progress
      exact progress

end Zabbix.HistoryCache.Records
