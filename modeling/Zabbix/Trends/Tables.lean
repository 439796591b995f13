import Mathlib.Data.List.Sort
import Zabbix.Common.History
import Zabbix.Library.KeyedTable

/-!
# Trends and their tables

The trend of an item over one hour, and the two database tables that store
trends.  The primary key of both tables is the pair of an item and the start of
an hour: an insert of a stored key is rejected and logged in `rejected`.

The values are those of any linear order; an average is not modelled.
-/

namespace Zabbix.Trends.Tables

open Common.History Library.KeyedTable

def secPerHour : Int := 3600

/-- The value types that have trends. -/
inductive TrendType where
  | float
  | uint64
deriving DecidableEq, Repr

/-- `ZBX_DC_TREND`. -/
structure Trend (Value : Type*) where
  itemid : ItemId
  valueMin : Value
  valueMax : Value
  clock : Int
  num : Nat
  disableFrom : Int
  valueType : TrendType
deriving DecidableEq, Repr

/-- The columns of a row of `trends` or `trends_uint` besides its key. -/
structure TrendRow (Value : Type*) where
  num : Nat
  valueMin : Value
  valueMax : Value
deriving DecidableEq, Repr

/-- The table `trends` or `trends_uint`. -/
abbrev TrendTable (Value : Type*) := Table (ItemId × Int) (TrendRow Value)

/-- The two tables, and the keys of the rejected inserts. -/
structure Database (Value : Type*) where
  table : TrendType → TrendTable Value
  rejected : List (TrendType × ItemId × Int)

variable {Value : Type*}

def Trend.rowKey (trend : Trend Value) : ItemId × Int :=
  (trend.itemid, trend.clock)

/-- Store a row in one of the tables. -/
def Database.put (db : Database Value) (valueType : TrendType) (key : ItemId × Int)
    (row : TrendRow Value) : Database Value :=
  { db with
    table := Function.update db.table valueType ((db.table valueType).insert key row) }

def Trend.row (trend : Trend Value) : TrendRow Value :=
  ⟨trend.num, trend.valueMin, trend.valueMax⟩

/-- `insert into trends`, or into `trends_uint`. -/
def Database.insertTrend (db : Database Value) (trend : Trend Value) : Database Value :=
  if trend.rowKey ∈ db.table trend.valueType then
    { db with rejected := db.rejected ++ [(trend.valueType, trend.rowKey)] }
  else
    db.put trend.valueType trend.rowKey trend.row

/-- A table has a row of the item whose clock is at least `low` and below `high`. -/
def hasRow (table : TrendTable Value) (itemid : ItemId) (low : Int) (high : Option Int) :
    Bool :=
  table.keys.any fun key =>
    key.1 == itemid && (decide (low ≤ key.2) && high.all fun high => decide (key.2 < high))

/-- A table has a row of the item from `clock` on. -/
def hasRowFrom (table : TrendTable Value) (itemid : ItemId) (clock : Int) : Bool :=
  hasRow table itemid clock none

theorem hasRow_iff {table : TrendTable Value} {itemid : ItemId} {low : Int}
    {high : Option Int} :
    hasRow table itemid low high = true ↔
      ∃ clock, (itemid, clock) ∈ table ∧ low ≤ clock ∧ ∀ bound ∈ high, clock < bound := by
  simp only [hasRow, List.any_eq_true, Bool.and_eq_true, beq_iff_eq, decide_eq_true_eq,
    Option.all_eq_true, Prod.exists]
  constructor
  · rintro ⟨_, clock, stored, rfl, from_low, below⟩
    exact ⟨clock, AList.mem_keys.mpr stored, from_low, below⟩
  · rintro ⟨clock, stored, from_low, below⟩
    exact ⟨itemid, clock, AList.mem_keys.mp stored, rfl, from_low, below⟩

theorem hasRowFrom_iff {table : TrendTable Value} {itemid : ItemId} {low : Int} :
    hasRowFrom table itemid low = true ↔
      ∃ clock, (itemid, clock) ∈ table ∧ low ≤ clock := by
  simp [hasRowFrom, hasRow_iff]

/-! ## Stored keys -/

def Stored (db : Database Value) (valueType : TrendType) (itemid : ItemId) (clock : Int) :
    Prop :=
  (itemid, clock) ∈ db.table valueType

theorem put_table (db : Database Value) (valueType other : TrendType) (key : ItemId × Int)
    (row : TrendRow Value) :
    (db.put valueType key row).table other =
      if other = valueType then (db.table valueType).insert key row else db.table other := by
  unfold Database.put
  by_cases same : other = valueType
  · subst same
    simp
  · simp [same]

theorem stored_put (db : Database Value) (valueType other : TrendType) (key : ItemId × Int)
    (row : TrendRow Value) (itemid : ItemId) (clock : Int) :
    Stored (db.put valueType key row) other itemid clock ↔
      Stored db other itemid clock ∨ other = valueType ∧ (itemid, clock) = key := by
  unfold Stored
  rw [put_table]
  by_cases same : other = valueType
  · subst same
    rw [if_pos rfl, AList.mem_insert]
    tauto
  · rw [if_neg same]
    tauto

theorem stored_insertTrend (db : Database Value) (trend : Trend Value) (valueType : TrendType)
    (itemid : ItemId) (clock : Int) :
    Stored (db.insertTrend trend) valueType itemid clock ↔
      Stored db valueType itemid clock ∨
        valueType = trend.valueType ∧ (itemid, clock) = trend.rowKey := by
  unfold Database.insertTrend
  by_cases exists_row : trend.rowKey ∈ db.table trend.valueType
  · rw [if_pos exists_row]
    constructor
    · exact Or.inl
    · rintro (stored | ⟨rfl, same⟩)
      · exact stored
      · rw [← same] at exists_row
        exact exists_row
  · rw [if_neg exists_row, stored_put]

end Zabbix.Trends.Tables

/-!
# Flushing trends

`DBmass_update_trends` and what it calls.  A flush takes the trends of one hour
and one value type from the sorted list, as far as the limit on the number of
probed items allows.  For each of them it asks, by its `disable_from`, whether
the table can have a row: a trend is inserted without a lookup where
`disable_from` says that it cannot.
-/

namespace Zabbix.Trends.Flush

open Common.History Library.KeyedTable Tables

variable {Value : Type*}

def zbxHcSyncMax : Nat := 1000

def secPerDay : Int := 86400
def secPerWeek : Int := 604800
def secPerMonth : Int := 2592000
def secPerYear : Int := 31536000

/-- The hint after an insert: `clock + SEC_PER_HOUR`, stored in an `int`. -/
def nextHint (clock : Int) : Int :=
  (clock + secPerHour).bmod (2 ^ 32)

/-- `clocks` of `dc_remove_updated_trends`. -/
def probeClocks (now clock : Int) : List Int :=
  ([secPerDay, secPerWeek, secPerMonth, secPerYear].takeWhile fun age =>
      decide (age < now - clock)).map (fun age => now - age) ++ [clock]

/-- Remove the items with rows in one of the windows that the clocks bound. -/
def removeStored (table : TrendTable Value) :
    Option Int → List Int → List ItemId → List ItemId
  | _, [], itemids => itemids
  | high, low :: rest, itemids =>
    removeStored table (some low) rest
      (itemids.filter fun itemid => !hasRow table itemid low high)

/--
`dc_remove_updated_trends`.  A flush list holds one trend for an item, an hour
and a value type, so that the first match is the only one.
-/
def dcRemoveUpdatedTrends (table : TrendTable Value) (inGroup : Trend Value → Bool)
    (itemids : List ItemId) (clock now : Int) (trends : List (Trend Value)) :
    List (Trend Value) :=
  let itemids := removeStored table none (probeClocks now clock) itemids
  trends.map fun trend =>
    if inGroup trend && itemids.contains trend.itemid then { trend with disableFrom := clock }
    else trend

section Ordered

variable [LinearOrder Value]

/-- `dc_trends_update_float` and `dc_trends_update_uint`. -/
def dcTrendsUpdate (trend : Trend Value) (row : TrendRow Value) : TrendRow Value where
  num := trend.num + row.num
  valueMin := if row.valueMin < trend.valueMin then row.valueMin else trend.valueMin
  valueMax := if trend.valueMax < row.valueMax then row.valueMax else trend.valueMax

/--
`dc_trends_fetch_and_update`: the selected trends with a row are added to it and
leave the list.
-/
def dcTrendsFetchAndUpdate (db : Database Value) (selected : Trend Value → Bool) :
    List (Trend Value) → Database Value × List (Trend Value)
  | [] => (db, [])
  | trend :: rest =>
    let (updated, left) := dcTrendsFetchAndUpdate db selected rest
    match (db.table trend.valueType).lookup trend.rowKey with
    | some row =>
      if selected trend then
        (updated.put trend.valueType trend.rowKey (dcTrendsUpdate trend row), left)
      else
        (updated, trend :: left)
    | none => (updated, trend :: left)

end Ordered

def dcInsertTrendsInDb (db : Database Value) (inGroup : Trend Value → Bool)
    (trends : List (Trend Value)) : Database Value :=
  (trends.filter inGroup).foldl Database.insertTrend db

def sameGroup (first trend : Trend Value) : Bool :=
  trend.clock == first.clock && trend.valueType == first.valueType

/-- `trends_to`: the search stops after the last item that may be probed. -/
def trendsTo (inGroup : Trend Value → Bool) : Nat → List (Trend Value) → Nat
  | _, [] => 0
  | room, trend :: rest =>
    if inGroup trend && trend.disableFrom == 0 then
      if room ≤ 1 then 1 else trendsTo inGroup (room - 1) rest + 1
    else
      trendsTo inGroup room rest + 1

/-- `0 != trend->disable_from && clock >= trend->disable_from`: no row can exist. -/
def skipsLookup (trend : Trend Value) : Bool :=
  trend.disableFrom != 0 && decide (trend.disableFrom ≤ trend.clock)

/-- The database, the trends left, and the new hints. -/
structure FlushState (Value : Type*) where
  db : Database Value
  trends : List (Trend Value)
  trendsDiff : List (ItemId × Int)

variable [LinearOrder Value]

/-- `DBflush_trends`; `now` is the time of the probe. -/
def dbFlushTrends (now : Int) (state : FlushState Value) : FlushState Value :=
  match state.trends with
  | [] => state
  | first :: _ =>
    let inGroup := sameGroup first
    let table := state.db.table first.valueType
    let count := trendsTo inGroup zbxHcSyncMax state.trends
    let reached := state.trends.take count
    let itemids := (reached.filter fun trend => inGroup trend && trend.disableFrom == 0).map
      Trend.itemid
    let reached := dcRemoveUpdatedTrends table inGroup itemids first.clock now reached
    let (db, reached) := dcTrendsFetchAndUpdate state.db
      (fun trend => inGroup trend && !skipsLookup trend) reached
    let inserted := (reached.filter fun trend => inGroup trend && skipsLookup trend).map
      fun trend => (trend.itemid, nextHint first.clock)
    { db := dcInsertTrendsInDb db inGroup reached
      trends := reached.filter (fun trend => !inGroup trend) ++ state.trends.drop count
      trendsDiff := state.trendsDiff ++ inserted }

/-- The loop of `DBmass_update_trends`, with fuel for its rounds. -/
def flushLoop (now : Int) : Nat → FlushState Value → FlushState Value
  | 0, state => state
  | fuel + 1, state =>
    if state.trends = [] then state else flushLoop now fuel (dbFlushTrends now state)

/-- The order of `zbx_trend_compare`. -/
def zbxTrendCompare (first second : Trend Value) : Prop :=
  first.itemid < second.itemid ∨
    first.itemid = second.itemid ∧ first.clock ≤ second.clock

instance : DecidableRel (@zbxTrendCompare Value) := fun _ _ =>
  inferInstanceAs (Decidable (_ ∨ _))

/-- `DBmass_update_trends`: the database and `trends_diff`. -/
def dbMassUpdateTrends (now : Int) (db : Database Value) (trends : List (Trend Value)) :
    Database Value × List (ItemId × Int) :=
  let sorted := trends.insertionSort zbxTrendCompare
  let final := flushLoop now sorted.length ⟨db, sorted, []⟩
  (final.db, final.trendsDiff)

end Zabbix.Trends.Flush
