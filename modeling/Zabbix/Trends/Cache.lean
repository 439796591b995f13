import Zabbix.Trends.Rounds

/-!
# The trend cache

`DCmass_update_trends` adds the values of a batch to the trends of their items,
and collects the trends to flush: those of a previous hour or value type, and
once an hour all that do not belong to the current hour.  `DCupdate_trends`
stores the hints of a committed flush.

The values of an hour are in the cache or in the list of trends to flush:
`dcMassUpdateTrends_account` adds up both.  History is assumed to be stored in
the database, where every numeric value type requires trends.
-/

namespace Zabbix.Trends.Cache

open Common.History Library.KeyedTable Library.Accounts Tables Flush Rounds List

/-- `ZBX_DC_FLAG_NOTRENDS`: the value is not kept in trends. -/
def zbxDcFlagNotrends : UInt8 := 0x20

def zbxDcFlagsNotForTrends : UInt8 :=
  zbxDcFlagNovalue ||| zbxDcFlagUndef ||| zbxDcFlagNotrends

def zbxTrendsCleanupTime : Int := 60 * 55

/--
`ZBX_DC_HISTORY`, as far as trends need it.  A value of a type without trends
carries `ZBX_DC_FLAG_NOTRENDS`.
-/
structure DcHistory (Value : Type*) where
  itemid : ItemId
  sec : Int
  value : Value
  valueType : TrendType
  flags : UInt8
deriving DecidableEq, Repr

/-- The start of the hour of a time. -/
def hourOf (sec : Int) : Int :=
  sec - sec % secPerHour

variable {Value : Type*}

/-- The part of `cache` that belongs to trends. -/
structure TrendCache (Value : Type*) where
  trends : Table ItemId (Trend Value)
  trendsLastCleanupHour : Int

def forTrends (history : DcHistory Value) : Bool :=
  !hasFlag zbxDcFlagsNotForTrends history.flags

section Model

variable [Zero Value]

def dcGetTrend (trends : Table ItemId (Trend Value)) (itemid : ItemId) : Trend Value :=
  (trends.lookup itemid).getD ⟨itemid, 0, 0, 0, 0, 0, .float⟩

/-- A trend after `DCflush_trend` has copied it. -/
def resetTrend (trend : Trend Value) : Trend Value :=
  { trend with clock := 0, num := 0, valueMin := 0, valueMax := 0 }

def dcFlushTrend (trend : Trend Value) (trends : List (Trend Value)) :
    Trend Value × List (Trend Value) :=
  (resetTrend trend, trends ++ [trend])

def isReplaced (trend : Trend Value) (history : DcHistory Value) : Bool :=
  decide (0 < trend.num) &&
    (trend.clock != hourOf history.sec || trend.valueType != history.valueType)

variable [LinearOrder Value]

/-- A value joins a trend of its hour and type. -/
def extendTrend (trend : Trend Value) (history : DcHistory Value) : Trend Value :=
  { trend with
    valueType := history.valueType
    clock := hourOf history.sec
    valueMin :=
      if trend.num = 0 ∨ history.value < trend.valueMin then history.value
      else trend.valueMin
    valueMax :=
      if trend.num = 0 ∨ trend.valueMax < history.value then history.value
      else trend.valueMax
    num := trend.num + 1 }

def dcAddTrend (history : DcHistory Value)
    (state : Table ItemId (Trend Value) × List (Trend Value)) :
    Table ItemId (Trend Value) × List (Trend Value) :=
  let trend := dcGetTrend state.1 history.itemid
  let (trend, trends) :=
    if isReplaced trend history then dcFlushTrend trend state.2 else (trend, state.2)
  (state.1.insert history.itemid (extendTrend trend history), trends)

/-- The loop of `DCmass_update_trends` over the values. -/
def addHistory (history : List (DcHistory Value))
    (state : Table ItemId (Trend Value) × List (Trend Value)) :
    Table ItemId (Trend Value) × List (Trend Value) :=
  history.foldl (fun state value => if forTrends value then dcAddTrend value state else state)
    state

omit [LinearOrder Value] in
/-- What the cleanup keeps of a trend; an item that no longer exists loses its trend. -/
def cleanupTrend (hour : Int) (existing : ItemId → Bool) (itemid : ItemId)
    (trend : Trend Value) : Option (Trend Value) :=
  if trend.clock = hour then some trend
  else if existing itemid then some (if trend.num ≠ 0 then resetTrend trend else trend)
  else none

def cleanupFlushes (hour : Int) (trend : Trend Value) : Bool :=
  trend.clock != hour && trend.num != 0

/-- The condition of the hourly cleanup. -/
def cleanupDue (cache : TrendCache Value) (now : Int) : Bool :=
  decide (cache.trendsLastCleanupHour < hourOf now) &&
    decide (zbxTrendsCleanupTime < now % secPerHour)

/--
`DCmass_update_trends` for a compression age of 0; `existing` is the
configuration that the cleanup asks about items.
-/
def dcMassUpdateTrends (now : Int) (existing : ItemId → Bool)
    (history : List (DcHistory Value)) (cache : TrendCache Value) :
    TrendCache Value × List (Trend Value) :=
  let (table, trends) := addHistory history (cache.trends, [])
  if cleanupDue cache now then
    let hour := hourOf now
    let flushed := (table.entries.map Sigma.snd).filter (cleanupFlushes hour)
    (⟨mapTable (cleanupTrend hour existing) table, hour⟩, trends ++ flushed)
  else
    (⟨table, cache.trendsLastCleanupHour⟩, trends)

end Model

def dcUpdateTrends (diff : List (ItemId × Int)) (trends : Table ItemId (Trend Value)) :
    Table ItemId (Trend Value) :=
  diff.foldl
    (fun trends hint =>
      match trends.lookup hint.1 with
      | some trend => trends.insert hint.1 { trend with disableFrom := hint.2 }
      | none => trends)
    trends

/-! ## Accounts -/

def Keyed (trends : Table ItemId (Trend Value)) : Prop :=
  ∀ itemid trend, trends.lookup itemid = some trend → trend.itemid = itemid

/-- What a value adds to an hour. -/
def valueAt (key : TrendKey) (history : DcHistory Value) : Account Value :=
  if (history.valueType, history.itemid, hourOf history.sec) = key then one history.value
  else 0

theorem trendAt_empty (key : TrendKey) {trend : Trend Value} (empty : trend.num = 0) :
    trendAt key trend = 0 := by
  unfold trendAt trendAccount
  rw [if_pos empty, ite_self]

section Items

variable [Zero Value]

theorem trendAt_resetTrend (key : TrendKey) (trend : Trend Value) :
    trendAt key (resetTrend trend) = 0 :=
  trendAt_empty key rfl

theorem dcGetTrend_itemid {trends : Table ItemId (Trend Value)} (keyed : Keyed trends)
    (itemid : ItemId) :
    (dcGetTrend trends itemid).itemid = itemid := by
  unfold dcGetTrend
  cases found : trends.lookup itemid with
  | none => rfl
  | some trend => exact keyed itemid trend found

def baseTrend (trend : Trend Value) (history : DcHistory Value) : Trend Value :=
  if isReplaced trend history then resetTrend trend else trend

def replacedTrend (trend : Trend Value) (history : DcHistory Value) : List (Trend Value) :=
  if isReplaced trend history then [trend] else []

theorem baseTrend_itemid (trend : Trend Value) (history : DcHistory Value) :
    (baseTrend trend history).itemid = trend.itemid := by
  unfold baseTrend
  split_ifs <;> rfl

theorem baseTrend_fitting (trend : Trend Value) (history : DcHistory Value)
    (notEmpty : (baseTrend trend history).num ≠ 0) :
    (baseTrend trend history).clock = hourOf history.sec ∧
      (baseTrend trend history).valueType = history.valueType := by
  unfold baseTrend at notEmpty ⊢
  by_cases replaced : isReplaced trend history = true
  · rw [if_pos replaced] at notEmpty
    exact absurd rfl notEmpty
  · rw [if_neg replaced] at notEmpty ⊢
    simpa [isReplaced, Nat.pos_of_ne_zero notEmpty] using replaced

end Items

variable [LinearOrder Value]

def cachedAt (trends : Table ItemId (Trend Value)) (key : TrendKey) : Account Value :=
  total (trendAt key) trends

def valuesAt (key : TrendKey) (history : List (DcHistory Value)) : Account Value :=
  (history.map (valueAt key)).sum

variable [Zero Value]

theorem cachedAt_eq (trends : Table ItemId (Trend Value)) (itemid : ItemId) (key : TrendKey) :
    cachedAt trends key =
      trendAt key (dcGetTrend trends itemid) + total (trendAt key) (trends.erase itemid) := by
  unfold cachedAt dcGetTrend
  cases found : trends.lookup itemid with
  | none =>
    rw [erase_of_lookup_eq_none found, Option.getD_none]
    have empty : trendAt key (⟨itemid, 0, 0, 0, 0, 0, .float⟩ : Trend Value) = 0 :=
      trendAt_empty key rfl
    rw [empty, zero_add]
  | some trend => exact total_eq_add_erase _ found

omit [Zero Value] in
theorem trendAt_extendTrend (key : TrendKey) {trend : Trend Value} {history : DcHistory Value}
    (sameItem : trend.itemid = history.itemid)
    (fitting : trend.num ≠ 0 →
      trend.clock = hourOf history.sec ∧ trend.valueType = history.valueType) :
    trendAt key (extendTrend trend history) = trendAt key trend + valueAt key history := by
  have newKey : keyOf (extendTrend trend history) =
      (history.valueType, history.itemid, hourOf history.sec) := by
    simp [keyOf, Trend.rowKey, extendTrend, sameItem]
  have notEmpty : (extendTrend trend history).num ≠ 0 := Nat.succ_ne_zero _
  by_cases empty : trend.num = 0
  · rw [trendAt_empty key empty, zero_add, trendAt, newKey, valueAt, trendAccount,
      if_neg notEmpty]
    simp [extendTrend, empty, one]
  · obtain ⟨sameHour, sameType⟩ := fitting empty
    have oldKey : keyOf trend = (history.valueType, history.itemid, hourOf history.sec) := by
      simp [keyOf, Trend.rowKey, sameItem, sameHour, sameType]
    rw [trendAt, newKey, trendAt, oldKey, valueAt]
    by_cases counted : (history.valueType, history.itemid, hourOf history.sec) = key
    · rw [if_pos counted, if_pos counted, if_pos counted, trendAccount, trendAccount,
        if_neg notEmpty, if_neg empty, one, ofSummary_add]
      congr 1
      · simp only [extendTrend, empty, false_or]
        rw [min_comm, min_def_lt]
      · simp only [extendTrend, empty, false_or]
        rw [max_def_lt]
    · simp [if_neg counted]

theorem dcAddTrend_eq (history : DcHistory Value) (trends : Table ItemId (Trend Value))
    (flushed : List (Trend Value)) :
    dcAddTrend history (trends, flushed) =
      (trends.insert history.itemid
          (extendTrend (baseTrend (dcGetTrend trends history.itemid) history) history),
        flushed ++ replacedTrend (dcGetTrend trends history.itemid) history) := by
  unfold dcAddTrend baseTrend replacedTrend
  dsimp only
  split_ifs
  · rfl
  · rw [append_nil]

theorem dcAddTrend_account (key : TrendKey) (history : DcHistory Value)
    {trends : Table ItemId (Trend Value)} (flushed : List (Trend Value))
    (keyed : Keyed trends) :
    cachedAt (dcAddTrend history (trends, flushed)).1 key +
        trendsAt key (dcAddTrend history (trends, flushed)).2 =
      cachedAt trends key + trendsAt key flushed + valueAt key history := by
  have sameItem := dcGetTrend_itemid keyed history.itemid
  rw [dcAddTrend_eq, cachedAt_eq trends history.itemid key, cachedAt, total_insert,
    trendAt_extendTrend key ((baseTrend_itemid _ _).trans sameItem) (baseTrend_fitting _ _),
    trendsAt_append]
  have split : trendAt key (baseTrend (dcGetTrend trends history.itemid) history) +
      trendsAt key (replacedTrend (dcGetTrend trends history.itemid) history) =
        trendAt key (dcGetTrend trends history.itemid) := by
    unfold baseTrend replacedTrend
    split_ifs
    · rw [trendAt_resetTrend, trendsAt_cons, trendsAt_nil, zero_add, add_zero]
    · rw [trendsAt_nil, add_zero]
  rw [← split]
  abel

theorem dcAddTrend_keyed (history : DcHistory Value) {trends : Table ItemId (Trend Value)}
    (flushed : List (Trend Value)) (keyed : Keyed trends) :
    Keyed (dcAddTrend history (trends, flushed)).1 := by
  intro itemid trend found
  rw [dcAddTrend_eq, lookup_insert_eq] at found
  split_ifs at found with same
  · obtain rfl := Option.some.inj found
    subst same
    exact (baseTrend_itemid _ _).trans (dcGetTrend_itemid keyed history.itemid)
  · exact keyed itemid trend found

theorem addHistory_account (key : TrendKey) (history : List (DcHistory Value))
    {trends : Table ItemId (Trend Value)} (flushed : List (Trend Value))
    (keyed : Keyed trends) :
    Keyed (addHistory history (trends, flushed)).1 ∧
      cachedAt (addHistory history (trends, flushed)).1 key +
          trendsAt key (addHistory history (trends, flushed)).2 =
        cachedAt trends key + trendsAt key flushed +
          valuesAt key (history.filter forTrends) := by
  unfold addHistory
  induction history generalizing trends flushed with
  | nil => exact ⟨keyed, by simp [valuesAt]⟩
  | cons value rest ih =>
    rw [foldl_cons, filter_cons]
    by_cases counted : forTrends value = true
    · rw [if_pos counted, if_pos counted]
      obtain ⟨laterKeyed, later⟩ := ih (dcAddTrend value (trends, flushed)).2
        (dcAddTrend_keyed value flushed keyed)
      refine ⟨laterKeyed, later.trans ?_⟩
      rw [dcAddTrend_account key value flushed keyed, valuesAt, valuesAt, map_cons, sum_cons]
      abel
    · rw [if_neg counted, if_neg counted]
      exact ih flushed keyed

omit [LinearOrder Value] in
theorem mapTable_keyed (hour : Int) (existing : ItemId → Bool)
    {trends : Table ItemId (Trend Value)} (keyed : Keyed trends) :
    Keyed (mapTable (cleanupTrend hour existing) trends) := by
  intro itemid trend found
  rw [lookup_mapTable, Option.bind_eq_some_iff] at found
  obtain ⟨old, isOld, cleaned⟩ := found
  have sameItem := keyed itemid old isOld
  unfold cleanupTrend at cleaned
  split_ifs at cleaned <;> obtain rfl := Option.some.inj cleaned <;> exact sameItem

theorem cleanup_account (key : TrendKey) (hour : Int) (existing : ItemId → Bool)
    (trends : Table ItemId (Trend Value)) :
    cachedAt (mapTable (cleanupTrend hour existing) trends) key +
        trendsAt key ((trends.entries.map Sigma.snd).filter (cleanupFlushes hour)) =
      cachedAt trends key := by
  have flushed : trendsAt key ((trends.entries.map Sigma.snd).filter (cleanupFlushes hour)) =
      (trends.entries.map fun entry =>
        if cleanupFlushes hour entry.2 then trendAt key entry.2 else 0).sum := by
    induction trends.entries with
    | nil => rfl
    | cons entry rest ih =>
      rw [map_cons, filter_cons, map_cons, sum_cons, ← ih]
      by_cases flushes : cleanupFlushes hour entry.2 = true
      · rw [if_pos flushes, if_pos flushes, trendsAt_cons]
      · rw [if_neg flushes, if_neg flushes, zero_add]
  rw [flushed]
  refine total_mapTable_add _ _
    (fun _ trend => if cleanupFlushes hour trend then trendAt key trend else 0) _ _ ?_
  intro itemid trend _
  unfold cleanupTrend cleanupFlushes
  by_cases current : trend.clock = hour
  · simp [current]
  · by_cases empty : trend.num = 0
    · by_cases exist : existing itemid = true
      · simp [current, empty, exist]
      · simp [current, empty, exist, trendAt_empty key empty]
    · by_cases exist : existing itemid = true
      · simp [current, empty, exist, trendAt_resetTrend]
      · simp [current, empty, exist]

theorem dcMassUpdateTrends_account (now : Int) (existing : ItemId → Bool)
    (history : List (DcHistory Value)) {cache : TrendCache Value}
    (keyed : Keyed cache.trends) (key : TrendKey) :
    Keyed (dcMassUpdateTrends now existing history cache).1.trends ∧
      cachedAt (dcMassUpdateTrends now existing history cache).1.trends key +
          trendsAt key (dcMassUpdateTrends now existing history cache).2 =
        cachedAt cache.trends key + valuesAt key (history.filter forTrends) := by
  obtain ⟨addedKeyed, added⟩ := addHistory_account key history [] keyed
  unfold dcMassUpdateTrends
  dsimp only
  rw [trendsAt_nil, add_zero] at added
  split_ifs
  · refine ⟨mapTable_keyed _ existing addedKeyed, ?_⟩
    rw [trendsAt_append, ← added, ← cleanup_account key (hourOf now) existing
      (addHistory history (cache.trends, [])).1]
    abel
  · exact ⟨addedKeyed, added⟩

end Zabbix.Trends.Cache
