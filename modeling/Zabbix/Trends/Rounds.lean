import Mathlib.Data.List.TakeWhile
import Zabbix.Library.Accounts
import Zabbix.Trends.Tables

/-!
# What flushing does

The rounds of `DBmass_update_trends` handle the trends one group after another.
`flushOrder` lists the trends in the order in which the rounds take them; the
new hints and the rows that the tables have afterwards depend on this order
only.  `flush_spec` states this, and that a flush moves the numbers and bounds
of the trends into the tables as long as no insert meets an existing row.
-/

namespace Zabbix.Trends.Rounds

open Common.History Library.KeyedTable Library.Accounts Tables Flush List Option List

variable {Value : Type*}

/-! ## The probe -/

/-- The windows of the probe, which follow each other, cover all clocks from the last bound. -/
theorem mem_removeStored (table : TrendTable Value) {clock : Int} {itemid : ItemId}
    {itemids : List ItemId} (high : Option Int) {lows : List Int}
    (bounded : ∀ low ∈ lows ++ [clock], clock ≤ low ∧ ∀ bound ∈ high, low ≤ bound)
    (decreasing : lows.Pairwise fun first second => second ≤ first) :
    itemid ∈ removeStored table high (lows ++ [clock]) itemids ↔
      itemid ∈ itemids ∧ hasRow table itemid clock high = false := by
  induction lows generalizing high itemids with
  | nil => simp [removeStored]
  | cons low rest ih =>
    obtain ⟨least, underHigh⟩ := bounded low mem_cons_self
    rw [pairwise_cons] at decreasing
    have later : ∀ other ∈ rest ++ [clock],
        clock ≤ other ∧ ∀ bound ∈ some low, other ≤ bound := by
      intro other member
      refine ⟨(bounded other (mem_cons_of_mem _ member)).1, ?_⟩
      intro bound isBound
      obtain rfl := mem_some_iff.mp isBound
      rcases mem_append.mp member with member | member
      · exact decreasing.1 other member
      · rw [mem_singleton] at member
        omega
    rw [cons_append, removeStored, ih (some low) later decreasing.2]
    simp only [mem_filter, Bool.not_eq_true', and_assoc, ← Bool.not_eq_true, hasRow_iff]
    refine and_congr_right fun _ => ?_
    constructor
    · rintro ⟨noneAbove, noneBelow⟩ ⟨row, stored, fromClock, below⟩
      by_cases above : low ≤ row
      · exact noneAbove ⟨row, stored, above, below⟩
      · refine noneBelow ⟨row, stored, fromClock, ?_⟩
        intro bound isBound
        rw [mem_some_iff] at isBound
        omega
    · intro missing
      constructor
      · rintro ⟨row, stored, fromLow, below⟩
        exact missing ⟨row, stored, by omega, below⟩
      · rintro ⟨row, stored, fromClock, below⟩
        refine missing ⟨row, stored, fromClock, ?_⟩
        intro bound isBound
        have underLow := below low (mem_some_iff.mpr rfl)
        have high := underHigh bound isBound
        omega

theorem mem_probe (table : TrendTable Value) (now clock : Int) (itemid : ItemId)
    (itemids : List ItemId) :
    itemid ∈ removeStored table none (probeClocks now clock) itemids ↔
      itemid ∈ itemids ∧ hasRowFrom table itemid clock = false := by
  refine mem_removeStored table none ?_ ?_
  · intro low member
    refine ⟨?_, by simp⟩
    rcases mem_append.mp member with member | member
    · obtain ⟨age, isAge, rfl⟩ := List.mem_map.mp member
      have young := mem_takeWhile_imp isAge
      rw [decide_eq_true_eq] at young
      omega
    · rw [mem_singleton] at member
      omega
  · have ascending : [secPerDay, secPerWeek, secPerMonth, secPerYear].Pairwise (· ≤ ·) := by
      decide
    refine pairwise_map.mpr (List.Pairwise.sublist (takeWhile_sublist _) ?_)
    exact ascending.imp fun older => by omega

def probe (table : TrendTable Value) (trend : Trend Value) : Trend Value :=
  if trend.disableFrom = 0 ∧ hasRowFrom table trend.itemid trend.clock = false then
    { trend with disableFrom := trend.clock }
  else
    trend

/-! ## The order of the rounds -/

def flushRound : List (Trend Value) → List (Trend Value) × List (Trend Value)
  | [] => ([], [])
  | first :: rest =>
    let count := trendsTo (sameGroup first) zbxHcSyncMax (first :: rest)
    let reached := (first :: rest).take count
    (reached.filter (sameGroup first),
      reached.filter (fun trend => !sameGroup first trend) ++ (first :: rest).drop count)

/-- The trends in the order of the rounds, with fuel for the rounds. -/
def flushOrder : Nat → List (Trend Value) → List (Trend Value)
  | 0, _ => []
  | fuel + 1, trends =>
    if trends = [] then []
    else (flushRound trends).1 ++ flushOrder fuel (flushRound trends).2

theorem trendsTo_pos (inGroup : Trend Value → Bool) (room : Nat) (first : Trend Value)
    (rest : List (Trend Value)) :
    0 < trendsTo inGroup room (first :: rest) := by
  unfold trendsTo
  split_ifs <;> omega

theorem sameGroup_self (trend : Trend Value) : sameGroup trend trend = true := by
  simp [sameGroup]

theorem flushRound_spec (first : Trend Value) (rest : List (Trend Value)) :
    first ∈ (flushRound (first :: rest)).1 ∧
      (∀ trend ∈ (flushRound (first :: rest)).1,
        trend.clock = first.clock ∧ trend.valueType = first.valueType) ∧
      ((flushRound (first :: rest)).1 ++ (flushRound (first :: rest)).2).Perm
        (first :: rest) := by
  unfold flushRound
  dsimp only
  have positive := trendsTo_pos (sameGroup first) zbxHcSyncMax first rest
  generalize trendsTo (sameGroup first) zbxHcSyncMax (first :: rest) = count at positive ⊢
  refine ⟨?_, ?_, ?_⟩
  · refine mem_filter.mpr ⟨?_, sameGroup_self first⟩
    obtain ⟨less, rfl⟩ : ∃ less, count = less + 1 := ⟨count - 1, by omega⟩
    exact mem_cons_self
  · intro trend member
    have same := (mem_filter.mp member).2
    simpa [sameGroup] using same
  · rw [← append_assoc]
    have cut := filter_append_perm (sameGroup first) ((first :: rest).take count)
    refine (cut.append_right _).trans ?_
    rw [take_append_drop]

/-! ## Accounts -/

/-- A value type, an item and the start of an hour. -/
abbrev TrendKey := TrendType × ItemId × Int

/-- The hour that a trend belongs to. -/
def keyOf (trend : Trend Value) : TrendKey :=
  (trend.valueType, trend.rowKey)

def storedKeys (db : Database Value) : Set TrendKey :=
  fun key => key.2 ∈ db.table key.1

def trendAccount (trend : Trend Value) : Account Value :=
  if trend.num = 0 then 0 else ofSummary trend.num trend.valueMin trend.valueMax

def rowAccount : Option (TrendRow Value) → Account Value
  | none => 0
  | some row => ofSummary row.num row.valueMin row.valueMax

def storedAt (db : Database Value) (key : TrendKey) : Account Value :=
  rowAccount ((db.table key.1).lookup key.2)

def trendAt (key : TrendKey) (trend : Trend Value) : Account Value :=
  if keyOf trend = key then trendAccount trend else 0

variable [LinearOrder Value]

def trendsAt (key : TrendKey) (trends : List (Trend Value)) : Account Value :=
  (trends.map (trendAt key)).sum

@[simp]
theorem trendsAt_nil (key : TrendKey) : trendsAt key ([] : List (Trend Value)) = 0 :=
  rfl

@[simp]
theorem trendsAt_cons (key : TrendKey) (trend : Trend Value) (rest : List (Trend Value)) :
    trendsAt key (trend :: rest) = trendAt key trend + trendsAt key rest :=
  sum_cons

@[simp]
theorem trendsAt_append (key : TrendKey) (first second : List (Trend Value)) :
    trendsAt key (first ++ second) = trendsAt key first + trendsAt key second := by
  simp [trendsAt]

theorem trendsAt_perm (key : TrendKey) {first second : List (Trend Value)}
    (permuted : first.Perm second) :
    trendsAt key first = trendsAt key second :=
  (permuted.map _).sum_eq

theorem trendsAt_eq_zero {key : TrendKey} {trends : List (Trend Value)}
    (other : ∀ trend ∈ trends, keyOf trend ≠ key) :
    trendsAt key trends = 0 := by
  refine sum_eq_zero ?_
  intro account member
  obtain ⟨trend, isIn, rfl⟩ := List.mem_map.mp member
  exact if_neg (other trend isIn)

omit [LinearOrder Value] in
theorem storedAt_put (db : Database Value) (valueType : TrendType) (rowKey : ItemId × Int)
    (row : TrendRow Value) (key : TrendKey) :
    storedAt (db.put valueType rowKey row) key =
      if key = (valueType, rowKey) then rowAccount (some row) else storedAt db key := by
  obtain ⟨other, otherKey⟩ := key
  unfold storedAt
  rw [put_table]
  by_cases sameType : other = valueType
  · subst sameType
    rw [if_pos rfl, lookup_insert_eq]
    by_cases sameKey : otherKey = rowKey
    · simp [sameKey]
    · simp [sameKey]
  · rw [if_neg sameType, if_neg fun same => sameType (congrArg Prod.fst same)]

/-! ## Adding to existing rows -/

omit [LinearOrder Value] in
theorem mem_storedKeys {db : Database Value} {key : TrendKey} :
    key ∈ storedKeys db ↔ key.2 ∈ db.table key.1 :=
  Iff.rfl

omit [LinearOrder Value] in
theorem storedKeys_put {db : Database Value} {valueType : TrendType} {rowKey : ItemId × Int}
    {row : TrendRow Value} :
    storedKeys (db.put valueType rowKey row) = insert (valueType, rowKey) (storedKeys db) := by
  ext ⟨other, itemid, clock⟩
  rw [Set.mem_insert_iff, mem_storedKeys, mem_storedKeys, Prod.mk.injEq]
  exact (stored_put db valueType other rowKey row itemid clock).trans or_comm

section Fetch

variable (db : Database Value) (selected : Trend Value → Bool)

/-- The trends that `dc_trends_fetch_and_update` adds to a row. -/
def isFetched (trend : Trend Value) : Bool :=
  selected trend && decide (trend.rowKey ∈ db.table trend.valueType)

theorem fetch_left (trends : List (Trend Value)) :
    (dcTrendsFetchAndUpdate db selected trends).2 =
      trends.filter fun trend => !isFetched db selected trend := by
  induction trends with
  | nil => rfl
  | cons trend rest ih =>
    unfold dcTrendsFetchAndUpdate
    rw [filter_cons, isFetched]
    cases found : (db.table trend.valueType).lookup trend.rowKey with
    | none =>
      have absent := AList.lookup_eq_none.mp found
      simp [absent, ih]
    | some row =>
      have present : trend.rowKey ∈ db.table trend.valueType :=
        AList.lookup_isSome.mp (isSome_of_eq_some found)
      cases selected trend <;> simp [present, ih]

theorem fetch_rejected (trends : List (Trend Value)) :
    (dcTrendsFetchAndUpdate db selected trends).1.rejected = db.rejected := by
  induction trends with
  | nil => rfl
  | cons trend rest ih =>
    unfold dcTrendsFetchAndUpdate
    cases (db.table trend.valueType).lookup trend.rowKey with
    | none => exact ih
    | some row =>
      dsimp only
      split_ifs
      · exact ih
      · exact ih

theorem fetch_storedKeys (trends : List (Trend Value)) :
    storedKeys (dcTrendsFetchAndUpdate db selected trends).1 = storedKeys db := by
  induction trends with
  | nil => rfl
  | cons trend rest ih =>
    unfold dcTrendsFetchAndUpdate
    cases found : (db.table trend.valueType).lookup trend.rowKey with
    | none => exact ih
    | some row =>
      have present : keyOf trend ∈ storedKeys db :=
        AList.lookup_isSome.mp (isSome_of_eq_some found)
      dsimp only
      split_ifs
      · rw [storedKeys_put, ih]
        exact Set.insert_eq_of_mem present
      · exact ih

theorem rowAccount_update (trend : Trend Value) (row : TrendRow Value)
    (notEmpty : trend.num ≠ 0) :
    rowAccount (some (dcTrendsUpdate trend row)) =
      rowAccount (some row) + trendAccount trend := by
  rw [trendAccount, if_neg notEmpty, rowAccount, rowAccount, ofSummary_add]
  congr 1
  · exact Nat.add_comm _ _
  · rw [dcTrendsUpdate, min_def_lt]
  · rw [dcTrendsUpdate, max_comm, max_def_lt]

theorem fetch_storedAt {trends : List (Trend Value)}
    (distinct : trends.Pairwise fun first second => keyOf first ≠ keyOf second)
    (notEmpty : ∀ trend ∈ trends, trend.num ≠ 0) (key : TrendKey) :
    storedAt (dcTrendsFetchAndUpdate db selected trends).1 key =
      storedAt db key + trendsAt key (trends.filter (isFetched db selected)) := by
  induction trends with
  | nil => simp [dcTrendsFetchAndUpdate]
  | cons trend rest ih =>
    rw [pairwise_cons] at distinct
    have later := ih distinct.2 fun other member =>
      notEmpty other (mem_cons_of_mem _ member)
    unfold dcTrendsFetchAndUpdate
    rw [filter_cons, isFetched]
    cases found : (db.table trend.valueType).lookup trend.rowKey with
    | none =>
      have absent := AList.lookup_eq_none.mp found
      simpa [absent] using later
    | some row =>
      have present : trend.rowKey ∈ db.table trend.valueType :=
        AList.lookup_isSome.mp (isSome_of_eq_some found)
      cases isSelected : selected trend with
      | false => simpa [present, isSelected] using later
      | true =>
        simp only [present, decide_true, Bool.and_true, if_true, trendsAt_cons]
        rw [storedAt_put]
        by_cases same : key = keyOf trend
        · subst same
          have others : trendsAt (keyOf trend) (rest.filter (isFetched db selected)) = 0 :=
            trendsAt_eq_zero fun other member =>
              (distinct.1 other (mem_filter.mp member).1).symm
          have unchanged : storedAt db (keyOf trend) = rowAccount (some row) :=
            congrArg rowAccount found
          rw [others, add_zero, trendAt, if_pos rfl, unchanged]
          exact (if_pos rfl).trans
            (rowAccount_update trend row (notEmpty trend mem_cons_self))
        · rw [trendAt, if_neg (Ne.symm same), zero_add, ← later]
          exact if_neg same

end Fetch

/-! ## Inserting -/

omit [LinearOrder Value] in
theorem storedKeys_insertTrend (db : Database Value) (trend : Trend Value) :
    storedKeys (db.insertTrend trend) = insert (keyOf trend) (storedKeys db) := by
  ext ⟨valueType, itemid, clock⟩
  rw [Set.mem_insert_iff, mem_storedKeys, mem_storedKeys, keyOf, Prod.mk.injEq]
  exact (stored_insertTrend db trend valueType itemid clock).trans or_comm

omit [LinearOrder Value] in
theorem storedKeys_insert (db : Database Value) (trends : List (Trend Value)) :
    storedKeys (trends.foldl Database.insertTrend db) =
      storedKeys db ∪ {key | ∃ trend ∈ trends, keyOf trend = key} := by
  induction trends generalizing db with
  | nil => simp
  | cons trend rest ih =>
    rw [foldl_cons, ih, storedKeys_insertTrend]
    ext key
    simp only [Set.mem_union, Set.mem_insert_iff, Set.mem_ofPred_eq, mem_cons, exists_eq_or_imp]
    constructor
    · rintro ((rfl | stored) | later)
      · exact Or.inr (Or.inl rfl)
      · exact Or.inl stored
      · exact Or.inr (Or.inr later)
    · rintro (stored | rfl | later)
      · exact Or.inl (Or.inr stored)
      · exact Or.inl (Or.inl rfl)
      · exact Or.inr later

theorem insert_spec {db : Database Value} {trends : List (Trend Value)}
    (distinct : trends.Pairwise fun first second => keyOf first ≠ keyOf second)
    (fresh : ∀ trend ∈ trends, keyOf trend ∉ storedKeys db)
    (notEmpty : ∀ trend ∈ trends, trend.num ≠ 0) :
    (trends.foldl Database.insertTrend db).rejected = db.rejected ∧
      ∀ key, storedAt (trends.foldl Database.insertTrend db) key =
        storedAt db key + trendsAt key trends := by
  induction trends generalizing db with
  | nil => simp
  | cons trend rest ih =>
    rw [pairwise_cons] at distinct
    have isFresh := fresh trend mem_cons_self
    have inserted : db.insertTrend trend = db.put trend.valueType trend.rowKey trend.row :=
      if_neg isFresh
    have laterFresh : ∀ other ∈ rest, keyOf other ∉ storedKeys (db.insertTrend trend) := by
      intro other member
      rw [storedKeys_insertTrend, Set.mem_insert_iff, not_or]
      exact ⟨(distinct.1 other member).symm, fresh other (mem_cons_of_mem _ member)⟩
    obtain ⟨rejected, stored⟩ := ih distinct.2 laterFresh fun other member =>
      notEmpty other (mem_cons_of_mem _ member)
    rw [foldl_cons]
    refine ⟨rejected.trans (by rw [inserted]; rfl), ?_⟩
    intro key
    rw [stored key, inserted, storedAt_put, trendsAt_cons, ← add_assoc]
    congr 1
    by_cases same : key = keyOf trend
    · subst same
      have absent : storedAt db (keyOf trend) = 0 := by
        rw [storedAt, AList.lookup_eq_none.mpr isFresh]
        rfl
      rw [absent, zero_add, trendAt, if_pos rfl, trendAccount,
        if_neg (notEmpty trend mem_cons_self)]
      exact if_pos rfl
    · rw [trendAt, if_neg (Ne.symm same), add_zero]
      exact if_neg same

/-! ## One round -/

/-- No row can exist: the hint says so, or a probe has found no row from the hour on. -/
def Skips (stored : Set TrendKey) (trend : Trend Value) : Prop :=
  trend.disableFrom ≠ 0 ∧ trend.disableFrom ≤ trend.clock ∨
    trend.disableFrom = 0 ∧ trend.clock ≠ 0 ∧
      ∀ clock, trend.clock ≤ clock → (trend.valueType, trend.itemid, clock) ∉ stored

omit [LinearOrder Value] in
theorem skipsLookup_probe (db : Database Value) (trend : Trend Value) :
    skipsLookup (probe (db.table trend.valueType) trend) = true ↔
      Skips (storedKeys db) trend := by
  have noRow : hasRowFrom (db.table trend.valueType) trend.itemid trend.clock = false ↔
      ∀ clock, trend.clock ≤ clock →
        (trend.valueType, trend.itemid, clock) ∉ storedKeys db := by
    rw [← Bool.not_eq_true, hasRowFrom_iff]
    constructor
    · intro missing clock later stored
      exact missing ⟨clock, stored, later⟩
    · rintro missing ⟨clock, stored, later⟩
      exact missing clock later stored
  unfold probe Skips skipsLookup
  by_cases unknown : trend.disableFrom = 0
  · by_cases missing : hasRowFrom (db.table trend.valueType) trend.itemid trend.clock = false
    · rw [if_pos ⟨unknown, missing⟩]
      simpa [unknown] using fun _ => noRow.mp missing
    · have some_row := fun all => missing (noRow.mpr all)
      rw [if_neg fun both => missing both.2]
      simp only [unknown, ne_eq, not_true_eq_false, false_and, true_and, false_or, bne_self_eq_false,
        Bool.false_and, Bool.false_eq_true, false_iff, not_and]
      exact fun _ => some_row
  · rw [if_neg fun both => unknown both.1]
    simp [unknown]

/-- A trend after the probe of a round. -/
def mark (db : Database Value) (first trend : Trend Value) : Trend Value :=
  if sameGroup first trend then probe (db.table first.valueType) trend else trend

section Mark

omit [LinearOrder Value]

variable (db : Database Value) (first trend : Trend Value)

theorem mark_eq : ∃ hint, mark db first trend = { trend with disableFrom := hint } := by
  unfold mark probe
  split_ifs
  · exact ⟨trend.clock, rfl⟩
  · exact ⟨trend.disableFrom, rfl⟩
  · exact ⟨trend.disableFrom, rfl⟩

@[simp]
theorem keyOf_mark : keyOf (mark db first trend) = keyOf trend := by
  obtain ⟨hint, same⟩ := mark_eq db first trend
  rw [same]
  rfl

@[simp]
theorem num_mark : (mark db first trend).num = trend.num := by
  obtain ⟨hint, same⟩ := mark_eq db first trend
  rw [same]

@[simp]
theorem itemid_mark : (mark db first trend).itemid = trend.itemid :=
  congrArg (fun key : TrendKey => key.2.1) (keyOf_mark db first trend)

@[simp]
theorem sameGroup_mark : sameGroup first (mark db first trend) = sameGroup first trend := by
  obtain ⟨hint, same⟩ := mark_eq db first trend
  rw [same]
  rfl

@[simp]
theorem trendAt_mark (key : TrendKey) :
    trendAt key (mark db first trend) = trendAt key trend := by
  obtain ⟨hint, same⟩ := mark_eq db first trend
  rw [same]
  rfl

theorem skipsLookup_mark (group : sameGroup first trend = true) :
    skipsLookup (mark db first trend) = true ↔ Skips (storedKeys db) trend := by
  have sameType : trend.valueType = first.valueType := by
    simp only [sameGroup, Bool.and_eq_true, beq_iff_eq] at group
    exact group.2
  rw [mark, if_pos group, ← sameType, skipsLookup_probe]

/-- The probe of a round, for different items. -/
theorem dcRemoveUpdatedTrends_eq (now : Int) {reached : List (Trend Value)}
    (distinct : (reached.map keyOf).Nodup) :
    dcRemoveUpdatedTrends (db.table first.valueType) (sameGroup first)
        ((reached.filter fun trend => sameGroup first trend && trend.disableFrom == 0).map
          Trend.itemid) first.clock now reached =
      reached.map (mark db first) := by
  refine map_congr_left ?_
  intro trend member
  unfold mark probe
  cases group : sameGroup first trend with
  | false => simp
  | true =>
    have sameKey : trend.clock = first.clock ∧ trend.valueType = first.valueType := by
      simpa [sameGroup] using group
    have unknown : trend.itemid ∈ (reached.filter fun trend =>
        sameGroup first trend && trend.disableFrom == 0).map Trend.itemid ↔
          trend.disableFrom = 0 := by
      simp only [List.mem_map, mem_filter, Bool.and_eq_true, beq_iff_eq]
      constructor
      · rintro ⟨other, ⟨isIn, otherGroup, unknown⟩, sameItem⟩
        have otherKey : other.clock = first.clock ∧ other.valueType = first.valueType := by
          simpa [sameGroup] using otherGroup
        have same : other = trend := by
          refine inj_on_of_nodup_map distinct isIn member ?_
          simp only [keyOf, Trend.rowKey, Prod.mk.injEq]
          exact ⟨otherKey.2.trans sameKey.2.symm, sameItem, otherKey.1.trans sameKey.1.symm⟩
        exact same ▸ unknown
      · intro unknown
        exact ⟨trend, ⟨member, group, unknown⟩, rfl⟩
    have kept := mem_probe (db.table first.valueType) now first.clock trend.itemid
      ((reached.filter fun trend =>
        sameGroup first trend && trend.disableFrom == 0).map Trend.itemid)
    rw [unknown] at kept
    simp only [Bool.true_and, contains_iff_mem, kept, if_true, sameKey.1]

end Mark

open Classical in
/-- The hints after a flush of the given trends, when all of them are judged by the same rows. -/
noncomputable def hintsOf (stored : Set TrendKey) (trends : List (Trend Value)) :
    List (ItemId × Int) :=
  (trends.filter fun trend => decide (Skips stored trend)).map fun trend =>
    (trend.itemid, nextHint trend.clock)

def keysOf (trends : List (Trend Value)) : Set TrendKey :=
  {key | ∃ trend ∈ trends, keyOf trend = key}

/-- No insert meets a row. -/
def Fresh (stored : Set TrendKey) (trends : List (Trend Value)) : Prop :=
  ∀ trend ∈ trends, Skips stored trend → keyOf trend ∉ stored

section Settle

variable (db : Database Value) (first : Trend Value) (reached : List (Trend Value))

def lookedUp (first trend : Trend Value) : Bool :=
  sameGroup first trend && !skipsLookup trend

omit [LinearOrder Value]

theorem settle_rest :
    ((reached.map (mark db first)).filter fun trend =>
        !isFetched db (lookedUp first) trend).filter (fun trend => !sameGroup first trend) =
      reached.filter fun trend => !sameGroup first trend := by
  rw [List.filter_filter, List.filter_map]
  have same : reached.filter ((fun trend => !sameGroup first trend &&
      !isFetched db (lookedUp first) trend) ∘ mark db first) =
      reached.filter fun trend => !sameGroup first trend := by
    refine filter_congr fun trend _ => ?_
    simp only [Function.comp_apply, sameGroup_mark, isFetched, lookedUp]
    cases sameGroup first trend <;> rfl
  rw [same]
  conv_rhs => rw [← map_id (reached.filter fun trend => !sameGroup first trend)]
  refine map_congr_left fun trend member => ?_
  have group := (mem_filter.mp member).2
  rw [Bool.not_eq_true'] at group
  rw [mark, group]
  rfl

open Classical in
theorem settle_hints :
    (((reached.map (mark db first)).filter fun trend =>
        !isFetched db (lookedUp first) trend).filter fun trend =>
          sameGroup first trend && skipsLookup trend).map
        (fun trend => (trend.itemid, nextHint first.clock)) =
      hintsOf (storedKeys db) (reached.filter (sameGroup first)) := by
  unfold hintsOf
  rw [List.filter_filter, List.filter_map, List.map_map, List.filter_filter]
  have same : reached.filter ((fun trend => sameGroup first trend && skipsLookup trend &&
      !isFetched db (lookedUp first) trend) ∘ mark db first) =
      reached.filter fun trend =>
        decide (Skips (storedKeys db) trend) && sameGroup first trend := by
    refine filter_congr fun trend _ => ?_
    simp only [Function.comp_apply, sameGroup_mark, isFetched, lookedUp]
    cases group : sameGroup first trend with
    | false => simp
    | true =>
      have skips := skipsLookup_mark db first trend group
      cases isSkipped : skipsLookup (mark db first trend) with
      | false => simpa [isSkipped] using skips
      | true => simpa [isSkipped] using skips
  rw [same]
  refine map_congr_left fun trend member => ?_
  have group := (mem_filter.mp member).2
  simp only [Bool.and_eq_true, sameGroup, beq_iff_eq] at group
  simp [group.2.1]

theorem settle_inserted :
    ((reached.map (mark db first)).filter fun trend =>
        !isFetched db (lookedUp first) trend).filter (sameGroup first) =
      ((reached.filter (sameGroup first)).map (mark db first)).filter fun trend =>
        !isFetched db (lookedUp first) trend := by
  rw [List.filter_filter, List.filter_map, List.filter_map, List.filter_filter]
  congr 1
  refine filter_congr fun trend _ => ?_
  simp only [Function.comp_apply, sameGroup_mark]
  exact Bool.and_comm _ _

/-- The trends that are added to a row. -/
theorem settle_fetched :
    (reached.map (mark db first)).filter (isFetched db (lookedUp first)) =
      ((reached.filter (sameGroup first)).map (mark db first)).filter
        (isFetched db (lookedUp first)) := by
  rw [List.filter_map, List.filter_map, List.filter_filter]
  congr 1
  refine filter_congr fun trend _ => ?_
  simp only [Function.comp_apply, isFetched, lookedUp, sameGroup_mark]
  cases sameGroup first trend <;> simp

theorem map_keyOf_mark (trends : List (Trend Value)) :
    (trends.map (mark db first)).map keyOf = trends.map keyOf := by
  rw [List.map_map]
  exact map_congr_left fun trend _ => keyOf_mark db first trend

end Settle

theorem trendsAt_mark (db : Database Value) (first : Trend Value) (key : TrendKey)
    (trends : List (Trend Value)) :
    trendsAt key (trends.map (mark db first)) = trendsAt key trends := by
  unfold trendsAt
  rw [List.map_map]
  exact congrArg sum (map_congr_left fun trend _ => trendAt_mark db first trend key)

omit [LinearOrder Value] in
theorem nodup_pairwise {trends : List (Trend Value)} (distinct : (trends.map keyOf).Nodup) :
    trends.Pairwise fun first second => keyOf first ≠ keyOf second :=
  pairwise_map.mp distinct

theorem dbFlushTrends_spec (now : Int) (db : Database Value) (first : Trend Value)
    (rest : List (Trend Value)) (diff : List (ItemId × Int))
    (distinct : ((first :: rest).map keyOf).Nodup) :
    (dbFlushTrends now ⟨db, first :: rest, diff⟩).trends = (flushRound (first :: rest)).2 ∧
      (dbFlushTrends now ⟨db, first :: rest, diff⟩).trendsDiff =
        diff ++ hintsOf (storedKeys db) (flushRound (first :: rest)).1 ∧
      storedKeys (dbFlushTrends now ⟨db, first :: rest, diff⟩).db =
        storedKeys db ∪ keysOf (flushRound (first :: rest)).1 ∧
      (Fresh (storedKeys db) (flushRound (first :: rest)).1 →
        (∀ trend ∈ first :: rest, trend.num ≠ 0) →
        (dbFlushTrends now ⟨db, first :: rest, diff⟩).db.rejected = db.rejected ∧
          ∀ key, storedAt (dbFlushTrends now ⟨db, first :: rest, diff⟩).db key =
            storedAt db key + trendsAt key (flushRound (first :: rest)).1) := by
  unfold dbFlushTrends flushRound
  dsimp only
  generalize trendsTo (sameGroup first) zbxHcSyncMax (first :: rest) = count
  obtain ⟨reached, isReached⟩ : ∃ reached, reached = (first :: rest).take count := ⟨_, rfl⟩
  rw [← isReached]
  have part : reached.Sublist (first :: rest) := isReached ▸ take_sublist _ _
  have reachedDistinct : (reached.map keyOf).Nodup := distinct.sublist (part.map _)
  rw [dcRemoveUpdatedTrends_eq db first now reachedDistinct]
  have selected : (fun trend => sameGroup first trend && !skipsLookup trend) =
      lookedUp first := rfl
  rw [selected, fetch_left, settle_rest, settle_hints, dcInsertTrendsInDb, settle_inserted]
  obtain ⟨taken, isTaken⟩ : ∃ taken, taken = reached.filter (sameGroup first) := ⟨_, rfl⟩
  rw [← isTaken]
  have takenPart : taken.Sublist reached := isTaken ▸ filter_sublist
  have takenDistinct : ((taken.map (mark db first)).map keyOf).Nodup := by
    rw [map_keyOf_mark]
    exact reachedDistinct.sublist (takenPart.map _)
  refine ⟨rfl, rfl, ?_, ?_⟩
  · rw [storedKeys_insert, fetch_storedKeys]
    ext key
    simp only [Set.mem_union, keysOf, Set.mem_ofPred_eq, mem_filter, List.mem_map]
    constructor
    · rintro (stored | ⟨_, ⟨⟨trend, isIn, rfl⟩, -⟩, same⟩)
      · exact Or.inl stored
      · exact Or.inr ⟨trend, isIn, by rw [← same, keyOf_mark]⟩
    · rintro (stored | ⟨trend, isIn, rfl⟩)
      · exact Or.inl stored
      · by_cases stored : keyOf trend ∈ storedKeys db
        · exact Or.inl stored
        · refine Or.inr ⟨mark db first trend, ⟨⟨trend, isIn, rfl⟩, ?_⟩, keyOf_mark db first trend⟩
          rw [← keyOf_mark db first trend] at stored
          have absent : ¬(mark db first trend).rowKey ∈
              db.table (mark db first trend).valueType := stored
          simp [isFetched, absent]
  · intro fresh notEmpty
    have markedNotEmpty : ∀ trend ∈ reached.map (mark db first), trend.num ≠ 0 := by
      intro trend member
      obtain ⟨original, isIn, rfl⟩ := List.mem_map.mp member
      rw [num_mark]
      exact notEmpty original (part.subset isIn)
    have pairwise : ((taken.map (mark db first)).filter fun trend =>
        !isFetched db (lookedUp first) trend).Pairwise fun first second =>
          keyOf first ≠ keyOf second :=
      (nodup_pairwise takenDistinct).sublist filter_sublist
    have fetchedFresh : ∀ trend ∈ (taken.map (mark db first)).filter fun trend =>
        !isFetched db (lookedUp first) trend,
        keyOf trend ∉ storedKeys
          (dcTrendsFetchAndUpdate db (lookedUp first) (reached.map (mark db first))).1 := by
      intro trend member
      obtain ⟨isIn, notFetched⟩ := mem_filter.mp member
      obtain ⟨original, isTakenIn, rfl⟩ := List.mem_map.mp isIn
      have group : sameGroup first original = true := by
        rw [isTaken] at isTakenIn
        exact (mem_filter.mp isTakenIn).2
      rw [fetch_storedKeys, keyOf_mark]
      intro isStored
      have notSkipped : ¬skipsLookup (mark db first original) = true := fun skipped =>
        fresh original isTakenIn ((skipsLookup_mark db first original group).mp skipped) isStored
      rw [← keyOf_mark db first original] at isStored
      have present : (mark db first original).rowKey ∈
          db.table (mark db first original).valueType := isStored
      simp [isFetched, lookedUp, group, present, notSkipped] at notFetched
    have leftNotEmpty : ∀ trend ∈ (taken.map (mark db first)).filter fun trend =>
        !isFetched db (lookedUp first) trend, trend.num ≠ 0 := by
      intro trend member
      obtain ⟨isIn, -⟩ := mem_filter.mp member
      obtain ⟨original, isTakenIn, rfl⟩ := List.mem_map.mp isIn
      exact markedNotEmpty _ (mem_map_of_mem (takenPart.subset isTakenIn))
    obtain ⟨rejected, stored⟩ := insert_spec pairwise fetchedFresh leftNotEmpty
    refine ⟨rejected.trans (fetch_rejected db _ _), ?_⟩
    intro key
    rw [stored key, fetch_storedAt db _ (nodup_pairwise (by rwa [map_keyOf_mark]))
      markedNotEmpty, settle_fetched, ← isTaken, add_assoc, ← trendsAt_append]
    congr 1
    rw [← trendsAt_mark db first key taken]
    exact trendsAt_perm key (filter_append_perm _ _)

end Zabbix.Trends.Rounds
