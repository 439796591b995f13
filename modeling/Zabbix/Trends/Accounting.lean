import Mathlib.Data.List.Permutation
import Mathlib.Order.Nat
import Zabbix.Library.Transition
import Zabbix.Trends.Hints
import Zabbix.Trends.Items

/-!
# Trend accounting over runs

A run processes one batch after another: the values go to the cache, the trends
of other hours go to the tables, and the hints of the flush come back.  The
values of every hour are then in the tables or in the cache, and no insert meets
an existing row, as long as the hints stay clear for the types of the cached
trends.  `Safe` lists what this asks of a value: the two ways to spoil a hint
are excluded, and an hour whose end is no `int`.
-/

namespace Zabbix.Trends.Accounting

open List

open Common.History Library Library.KeyedTable Library.Accounts Tables Flush Rounds Trends.Order
open Cache
open Hints Items

variable {Value : Type*}

/-! ## The system -/

structure Batch (Value : Type*) where
  history : List (DcHistory Value)
  distinct : (history.map DcHistory.itemid).Nodup
  times : ∀ value ∈ history, 0 ≤ value.sec ∧ value.sec < 2 ^ 31
  now : Int
  probeTime : Int
  existing : ItemId → Bool

/-- The tables, the cache, and the values processed so far. -/
structure State (Value : Type*) where
  db : Database Value
  cache : TrendCache Value
  processed : List (DcHistory Value)

/-- The state before the first batch. -/
def initial (table : TrendType → TrendTable Value) (lastCleanupHour : Int) : State Value :=
  ⟨⟨table, []⟩, ⟨∅, lastCleanupHour⟩, []⟩

section Model

variable [LinearOrder Value] [Zero Value]

def flushedTrends (state : State Value) (batch : Batch Value) : List (Trend Value) :=
  (dcMassUpdateTrends batch.now batch.existing batch.history state.cache).2

/-- A batch and its committed transaction. -/
def processBatch (state : State Value) (batch : Batch Value) : State Value :=
  let (cache, trends) :=
    dcMassUpdateTrends batch.now batch.existing batch.history state.cache
  let (db, trendsDiff) := dbMassUpdateTrends batch.probeTime state.db trends
  { db := db
    cache := { cache with trends := dcUpdateTrends trendsDiff cache.trends }
    processed := state.processed ++ batch.history.filter forTrends }

/-- A batch is always processed. -/
def step (state : State Value) (batch : Batch Value) : Option (State Value) :=
  some (processBatch state batch)

end Model

/-! ## Stored hints -/

theorem lookup_dcUpdateTrends (diff : List (ItemId × Int)) (trends : Table ItemId (Trend Value))
    (itemid : ItemId) :
    (dcUpdateTrends diff trends).lookup itemid =
      (trends.lookup itemid).map fun trend =>
        { trend with
          disableFrom :=
            lastHint trend.disableFrom (diff.filter fun hint => hint.1 == itemid) } := by
  unfold dcUpdateTrends
  induction diff generalizing trends with
  | nil => simp [lastHint]
  | cons hint rest ih =>
    rw [foldl_cons, ih, filter_cons]
    cases found : trends.lookup hint.1 with
    | none =>
      dsimp only
      by_cases same : hint.1 = itemid
      · subst same
        rw [found, Option.map_none, Option.map_none]
      · rw [if_neg (by simpa using same)]
    | some trend =>
      dsimp only
      rw [lookup_insert_eq]
      by_cases same : hint.1 = itemid
      · subst same
        rw [if_pos rfl, if_pos (beq_self_eq_true _), found]
        rfl
      · rw [if_neg (Ne.symm same), if_neg (by simpa using same)]

theorem dcUpdateTrends_keyed (diff : List (ItemId × Int)) {trends : Table ItemId (Trend Value)}
    (keyed : Keyed trends) :
    Keyed (dcUpdateTrends diff trends) := by
  intro itemid trend found
  rw [lookup_dcUpdateTrends, Option.map_eq_some_iff] at found
  obtain ⟨old, isOld, rfl⟩ := found
  exact keyed itemid old isOld

theorem trendAt_hint (key : TrendKey) (trend : Trend Value) (hint : Int) :
    trendAt key { trend with disableFrom := hint } = trendAt key trend :=
  rfl

theorem cachedAt_dcUpdateTrends [LinearOrder Value] (diff : List (ItemId × Int))
    (trends : Table ItemId (Trend Value)) (key : TrendKey) :
    cachedAt (dcUpdateTrends diff trends) key = cachedAt trends key := by
  unfold dcUpdateTrends
  induction diff generalizing trends with
  | nil => rfl
  | cons hint rest ih =>
    rw [foldl_cons, ih]
    cases found : trends.lookup hint.1 with
    | none => rfl
    | some trend =>
      dsimp only
      rw [cachedAt, cachedAt, total_insert, trendAt_hint, total_eq_add_erase _ found]

/-! ## One item -/

/-- The hint of a trend is clear for its type. -/
structure Sound (stored : Set TrendKey) (trend : Trend Value) : Prop where
  range : InRange trend.clock
  clear : Clear stored trend.itemid trend.valueType trend.disableFrom

section Safe

variable [LinearOrder Value] [Zero Value]

/-- The cleanup of a batch flushes the trend to which a value was just added. -/
def flushedAtOnce (state : State Value) (batch : Batch Value) (value : DcHistory Value) :
    Bool :=
  cleanupDue state.cache batch.now && (hourOf value.sec != hourOf batch.now)

def trendBefore (state : State Value) (value : DcHistory Value) : Trend Value :=
  dcGetTrend state.cache.trends value.itemid

/-- The hint of a trend after its type has changed and its values are flushed. -/
noncomputable def hintLeft (stored : Set TrendKey) (trend : Trend Value) : Int :=
  if trend.num = 0 then trend.disableFrom else stepHint stored trend.disableFrom trend

/--
The hint that a flush leaves depends on the order of the two hours of an item:
both are inserted without a lookup, or the earlier one alone stores a hint.
-/
def OrderMatters (stored : Set TrendKey) (trend : Trend Value) (value : DcHistory Value) : Prop :=
  if trend.valueType = value.valueType then
    trend.disableFrom ≠ 0 ∧ trend.disableFrom ≤ trend.clock ∧
      trend.disableFrom ≤ hourOf value.sec
  else
    trend.clock < hourOf value.sec ∧ Skips stored trend

/--
What a value must meet for its trend to be flushed correctly.  `typeChange` and
`flushedChange`: after a change of the value type no row of the new type is at
or after the hint, which was made for the old type.  `order`: two hours of the
item in one flush are flushed in the order of time.
-/
structure Safe (state : State Value) (batch : Batch Value) (value : DcHistory Value) :
    Prop where
  range : InRange (hourOf value.sec)
  typeChange :
    (trendBefore state value).valueType ≠ value.valueType →
      Clear (storedKeys state.db) value.itemid value.valueType
        (hintLeft (storedKeys state.db) (trendBefore state value))
  flushedChange :
    (trendBefore state value).valueType ≠ value.valueType →
      (trendBefore state value).num ≠ 0 → flushedAtOnce state batch value = true →
        (trendBefore state value).disableFrom ≠ 0 →
          (trendBefore state value).disableFrom ≤ hourOf value.sec →
            ∀ clock, hourOf value.sec ≤ clock →
              (value.valueType, value.itemid, clock) ∉ storedKeys state.db
  order :
    isReplaced (trendBefore state value) value = true →
      flushedAtOnce state batch value = true →
        OrderMatters (storedKeys state.db) (trendBefore state value) value →
          (itemTrends value.itemid
            (flushSequence (flushedTrends state batch))).Pairwise
              fun first second => first.clock ≤ second.clock

end Safe

variable {stored : Set TrendKey} {trend : Trend Value}

/-- What flushing the trends of one item leaves behind. -/
structure Settled (stored : Set TrendKey) (sequence : List (Trend Value))
    (itemid : ItemId) (valueType : TrendType) (hint : Int) : Prop where
  fresh : FreshAlong stored sequence
  distinct : (sequence.map keyOf).Nodup
  clear : Clear (stored ∪ keysOf sequence) itemid valueType
    (lastHint hint (hintsAlong stored sequence))

theorem settled_nil {itemid : ItemId} {valueType : TrendType} {hint : Int}
    (clear : Clear stored itemid valueType hint) :
    Settled stored ([] : List (Trend Value)) itemid valueType hint where
  fresh := trivial
  distinct := nodup_nil
  clear := by
    have none : keysOf ([] : List (Trend Value)) = ∅ := by simp [keysOf]
    rw [none, Set.union_empty]
    exact clear

theorem union_keysOf_nil (stored : Set TrendKey) :
    stored ∪ keysOf ([] : List (Trend Value)) = stored := by
  simp [keysOf]

theorem settled_one {itemid : ItemId} {valueType : TrendType}
    (fresh : Skips stored trend → keyOf trend ∉ stored)
    (clear : Clear (insert (keyOf trend) stored) itemid valueType
      (stepHint stored trend.disableFrom trend)) :
    Settled stored [trend] itemid valueType trend.disableFrom where
  fresh := ⟨fresh, trivial⟩
  distinct := nodup_singleton _
  clear := by
    rw [← insert_union_keysOf, union_keysOf_nil, lastHint_hintsAlong]
    exact clear

theorem settled_two {itemid : ItemId} {valueType : TrendType} {first second : Trend Value}
    (different : keyOf first ≠ keyOf second)
    (result : FreshAlong stored [first, second] ∧
      Clear (insert (keyOf second) (insert (keyOf first) stored)) itemid valueType
        (stepHint (insert (keyOf first) stored)
          (stepHint stored first.disableFrom first) second)) :
    Settled stored [first, second] itemid valueType first.disableFrom where
  fresh := result.1
  distinct := by simpa using different
  clear := by
    rw [← insert_union_keysOf, ← insert_union_keysOf, union_keysOf_nil, lastHint_hintsAlong,
      lastHint_hintsAlong]
    exact result.2

theorem settled_cleanup (sound : Sound stored trend) (due : Bool) (hour : Int)
    {sequence : List (Trend Value)} (permuted : sequence.Perm (cleanupTrends due hour trend)) :
    Settled stored sequence trend.itemid trend.valueType trend.disableFrom := by
  unfold cleanupTrends at permuted
  split_ifs at permuted
  · obtain rfl := perm_singleton.mp permuted
    exact settled_one (fresh_of_clear sound.clear) (clear_stepHint sound.range sound.clear)
  · obtain rfl := List.Perm.eq_nil permuted
    exact settled_nil sound.clear

/-- The trend that a value extends keeps the hint of the item. -/
structure Extends (old : Trend Value) (value : DcHistory Value) (new : Trend Value) : Prop where
  itemid : new.itemid = old.itemid
  valueType : new.valueType = value.valueType
  clock : new.clock = hourOf value.sec
  disableFrom : new.disableFrom = old.disableFrom
  notEmpty : new.num ≠ 0

theorem extends_extendTrend [LinearOrder Value] [Zero Value] (old : Trend Value)
    (value : DcHistory Value) :
    Extends old value (extendTrend (baseTrend old value) value) where
  itemid := baseTrend_itemid old value
  valueType := rfl
  clock := rfl
  disableFrom := by
    unfold extendTrend baseTrend
    split_ifs <;> rfl
  notEmpty := Nat.succ_ne_zero _

section Value

variable {value : DcHistory Value} {old new : Trend Value}

theorem extends_sound (extended : Extends old value new) (range : InRange (hourOf value.sec))
    (clear : Clear stored old.itemid value.valueType old.disableFrom) :
    Sound stored new where
  range := by rwa [extended.clock]
  clear := by rwa [extended.itemid, extended.valueType, extended.disableFrom]

theorem settled_sameType (sound : Sound stored old) (extended : Extends old value new)
    (range : InRange (hourOf value.sec)) (sameType : old.valueType = value.valueType)
    (otherHour : old.clock ≠ hourOf value.sec)
    {sequence : List (Trend Value)} (permuted : sequence.Perm [old, new])
    (order : old.disableFrom ≠ 0 → old.disableFrom ≤ old.clock →
      old.disableFrom ≤ hourOf value.sec →
        sequence.Pairwise fun first second => first.clock ≤ second.clock) :
    Settled stored sequence old.itemid new.valueType old.disableFrom := by
  have newSound := extends_sound extended range (sameType ▸ sound.clear)
  have newType : new.valueType = old.valueType := extended.valueType.trans sameType.symm
  have apart : old.clock ≠ new.clock := by rwa [extended.clock]
  have keys : keyOf old ≠ keyOf new := fun same =>
    apart (congrArg (fun key : TrendKey => key.2.2) same)
  rw [newType]
  rcases perm_pair.mp permuted with rfl | rfl
  · refine settled_two keys (clear_sameType sound.range newSound.range extended.itemid newType
      extended.disableFrom apart ?_ sound.clear)
    intro notZero passed newPassed
    simpa using order notZero passed (extended.clock ▸ newPassed)
  · rw [← extended.itemid, ← newType, ← extended.disableFrom]
    refine settled_two (Ne.symm keys) (clear_sameType newSound.range sound.range
      extended.itemid.symm newType.symm extended.disableFrom.symm (Ne.symm apart) ?_
      newSound.clear)
    intro notZero newPassed passed
    rw [extended.disableFrom] at notZero newPassed passed
    simpa using order notZero passed (extended.clock ▸ newPassed)

theorem settled_newType (sound : Sound stored old) (extended : Extends old value new)
    (range : InRange (hourOf value.sec)) (different : old.valueType ≠ value.valueType)
    (clearLeft : Clear stored old.itemid value.valueType
      (stepHint stored old.disableFrom old))
    (clearNew : old.disableFrom ≠ 0 → old.disableFrom ≤ hourOf value.sec →
      ∀ clock, hourOf value.sec ≤ clock → (value.valueType, old.itemid, clock) ∉ stored)
    {sequence : List (Trend Value)} (permuted : sequence.Perm [old, new])
    (order : old.clock < hourOf value.sec → Skips stored old →
      sequence.Pairwise fun first second => first.clock ≤ second.clock) :
    Settled stored sequence old.itemid new.valueType old.disableFrom := by
  rw [← extended.valueType] at different clearLeft clearNew
  rw [← extended.itemid] at clearLeft clearNew
  rw [← extended.clock] at range clearNew order
  rw [← extended.disableFrom] at clearNew
  have keys : keyOf old ≠ keyOf new := fun same => different (congrArg Prod.fst same)
  rcases perm_pair.mp permuted with rfl | rfl
  · rw [← extended.itemid]
    exact settled_two keys (clear_newLast range sound.range different extended.disableFrom
      sound.clear clearLeft clearNew)
  · rw [← extended.itemid, ← extended.disableFrom]
    refine settled_two (Ne.symm keys) ?_
    rw [extended.disableFrom]
    refine clear_newFirst range sound.range different extended.disableFrom sound.clear clearLeft
      clearNew fun skips => ?_
    by_contra later
    have ordered := order (by omega) skips
    exact later (by simpa using ordered)

end Value

section Step

variable [LinearOrder Value] [Zero Value]
variable {state : State Value} {batch : Batch Value} {value : DcHistory Value}

omit [LinearOrder Value] [Zero Value] in
theorem cleanupTrends_extended {old new : Trend Value} (extended : Extends old value new) :
    cleanupTrends (cleanupDue state.cache batch.now) (hourOf batch.now) new =
      if flushedAtOnce state batch value then [new] else [] := by
  simp [cleanupTrends, cleanupFlushes, flushedAtOnce, extended.clock, extended.notEmpty]

theorem settled_value {old new : Trend Value} (safe : Safe state batch value)
    (isBefore : trendBefore state value = old) (sameItem : old.itemid = value.itemid)
    (sound : Sound (storedKeys state.db) old) (extended : Extends old value new)
    (permuted :
      (itemTrends value.itemid (flushSequence (flushedTrends state batch))).Perm
        (replacedTrend old value ++
          cleanupTrends (cleanupDue state.cache batch.now) (hourOf batch.now) new)) :
    Settled (storedKeys state.db)
      (itemTrends value.itemid (flushSequence (flushedTrends state batch)))
      old.itemid new.valueType old.disableFrom := by
  obtain ⟨range, typeChange, flushedChange, order⟩ := safe
  rw [isBefore] at typeChange flushedChange order
  rw [← sameItem] at typeChange flushedChange
  rw [cleanupTrends_extended extended] at permuted
  generalize itemTrends value.itemid (flushSequence (flushedTrends state batch)) = sequence
    at permuted order ⊢
  unfold replacedTrend at permuted
  by_cases sameType : old.valueType = value.valueType
  · have newSound := extends_sound extended range (sameType ▸ sound.clear)
    have newType : old.valueType = new.valueType := sameType.trans extended.valueType.symm
    split_ifs at permuted with replaced atOnce atOnce
    · -- both the replaced and the new hour
      refine settled_sameType sound extended range sameType ?_ permuted ?_
      · simpa [isReplaced, sameType] using (Bool.and_eq_true_iff.mp replaced).2
      · intro notZero passed newPassed
        refine order replaced atOnce ?_
        rw [OrderMatters, if_pos sameType]
        exact ⟨notZero, passed, newPassed⟩
    · rw [← newType]
      obtain rfl := perm_singleton.mp permuted
      exact settled_one (fresh_of_clear sound.clear) (clear_stepHint sound.range sound.clear)
    · rw [← extended.itemid, ← extended.disableFrom]
      obtain rfl := perm_singleton.mp permuted
      exact settled_one (fresh_of_clear newSound.clear)
        (clear_stepHint newSound.range newSound.clear)
    · rw [← newType]
      obtain rfl := List.Perm.eq_nil permuted
      exact settled_nil sound.clear
  · have clearLeft := typeChange sameType
    by_cases empty : old.num = 0
    · rw [hintLeft, if_pos empty] at clearLeft
      have newSound := extends_sound extended range clearLeft
      have notReplaced : isReplaced old value = false := by simp [isReplaced, empty]
      rw [if_neg (by simp [notReplaced]), nil_append] at permuted
      rw [← extended.itemid, ← extended.disableFrom]
      split_ifs at permuted with atOnce
      · obtain rfl := perm_singleton.mp permuted
        exact settled_one (fresh_of_clear newSound.clear)
          (clear_stepHint newSound.range newSound.clear)
      · obtain rfl := List.Perm.eq_nil permuted
        exact settled_nil newSound.clear
    · rw [hintLeft, if_neg empty] at clearLeft
      have replaced : isReplaced old value = true := by
        simp [isReplaced, Nat.pos_of_ne_zero empty, sameType]
      rw [if_pos replaced] at permuted
      split_ifs at permuted with atOnce
      · refine settled_newType sound extended range sameType clearLeft
          (flushedChange sameType empty atOnce) permuted ?_
        intro earlier skips
        refine order replaced atOnce ?_
        rw [OrderMatters, if_neg sameType]
        exact ⟨earlier, skips⟩
      · obtain rfl := perm_singleton.mp permuted
        refine settled_one (fresh_of_clear sound.clear) ?_
        rw [extended.valueType]
        exact clear_insert_otherType clearLeft sameType

def SafeBatch (state : State Value) (batch : Batch Value) : Prop :=
  ∀ value ∈ batch.history, forTrends value = true → Safe state batch value

theorem settled_item (keyed : Keyed state.cache.trends)
    (sound : ∀ itemid, Sound (storedKeys state.db) (dcGetTrend state.cache.trends itemid))
    (safe : SafeBatch state batch) (itemid : ItemId) :
    ∃ added : Trend Value, added.itemid = itemid ∧ InRange added.clock ∧
      Settled (storedKeys state.db)
        (itemTrends itemid (flushSequence (flushedTrends state batch)))
        itemid added.valueType added.disableFrom ∧
      (∀ trend ∈ itemTrends itemid (flushedTrends state batch), trend.num ≠ 0) ∧
      ∀ trend, (dcMassUpdateTrends batch.now batch.existing batch.history
          state.cache).1.trends.lookup itemid = some trend →
        trend = added ∨ trend = resetTrend added := by
  have sameItem := dcGetTrend_itemid keyed itemid
  obtain ⟨added, replaced, ⟨isAdded⟩, flushed, found⟩ :=
    dcMassUpdateTrends_item batch.now batch.existing batch.distinct keyed itemid
  have permuted : (itemTrends itemid (flushSequence (flushedTrends state batch))).Perm
      (replaced ++ cleanupTrends (cleanupDue state.cache batch.now) (hourOf batch.now)
        added) := by
    rw [← flushed]
    exact (flushSequence_perm _).filter _
  have cleanupNum : ∀ trend ∈ cleanupTrends (cleanupDue state.cache batch.now)
      (hourOf batch.now) added, trend.num ≠ 0 := by
    intro trend member
    unfold cleanupTrends at member
    split_ifs at member with flushes
    · rw [mem_singleton] at member
      subst member
      simp only [Bool.and_eq_true, cleanupFlushes, bne_iff_ne] at flushes
      exact flushes.2.2
    · cases member
  have before := sound itemid
  have listed : itemTrends itemid (flushedTrends state batch) = _ := flushed
  rw [listed]
  rcases isAdded with ⟨rfl, rfl, -⟩ | ⟨value, member, counted, ownItem, rfl, rfl⟩
  · have settled := settled_cleanup before _ _ permuted
    rw [sameItem] at settled
    exact ⟨_, sameItem, before.range, settled, cleanupNum, found⟩
  · have extended := extends_extendTrend (dcGetTrend state.cache.trends itemid) value
    have sameValue : value.itemid = itemid := ownItem.trans sameItem
    subst sameValue
    have settled := settled_value (safe value member counted) rfl sameItem before extended
      permuted
    change Settled _ _ (dcGetTrend state.cache.trends value.itemid).itemid _
      (dcGetTrend state.cache.trends value.itemid).disableFrom at settled
    rw [sameItem, ← extended.disableFrom] at settled
    refine ⟨_, extended.itemid.trans sameItem, (safe value member counted).range, settled, ?_,
      found⟩
    intro trend isIn
    rcases mem_append.mp isIn with isIn | isIn
    · unfold replacedTrend at isIn
      split_ifs at isIn with isReplaced
      · rw [mem_singleton] at isIn
        subst isIn
        have positive := (Bool.and_eq_true_iff.mp isReplaced).1
        rw [decide_eq_true_eq] at positive
        exact Nat.ne_of_gt positive
      · cases isIn
    · exact cleanupNum trend isIn

end Step

/-! ## Runs -/

section Runs

variable [LinearOrder Value] [Zero Value]

/-- The tables and the cache together hold the initial rows and all processed values. -/
structure Consistent (table : TrendType → TrendTable Value) (state : State Value) : Prop where
  keyed : Keyed state.cache.trends
  sound : ∀ itemid, Sound (storedKeys state.db) (dcGetTrend state.cache.trends itemid)
  accepted : state.db.rejected = []
  account : ∀ key,
    storedAt state.db key + cachedAt state.cache.trends key =
      storedAt ⟨table, []⟩ key + valuesAt key state.processed

omit [LinearOrder Value] [Zero Value] in
theorem clear_congr {itemid : ItemId} {valueType : TrendType} {hint : Int}
    {stored other : Set TrendKey} (agree : AgreeOn itemid stored other) :
    Clear stored itemid valueType hint ↔ Clear other itemid valueType hint := by
  unfold Clear
  simp only [agree valueType]

omit [LinearOrder Value] [Zero Value] in
theorem agreeOn_flushed (itemid : ItemId) (stored : Set TrendKey)
    {trends sequence : List (Trend Value)} (permuted : sequence.Perm trends) :
    AgreeOn itemid (stored ∪ keysOf (itemTrends itemid sequence))
      (stored ∪ keysOf trends) := by
  intro valueType clock
  refine or_congr Iff.rfl ?_
  constructor
  · rintro ⟨trend, member, same⟩
    exact ⟨trend, permuted.mem_iff.mp (mem_filter.mp member).1, same⟩
  · rintro ⟨trend, member, same⟩
    have sameItem : trend.itemid = itemid := congrArg (fun key : TrendKey => key.2.1) same
    exact ⟨trend, mem_filter.mpr ⟨permuted.mem_iff.mpr member, beq_iff_eq.mpr sameItem⟩, same⟩

theorem inRange_zero : InRange 0 :=
  ⟨le_refl 0, by decide⟩

omit [LinearOrder Value] in
theorem sound_new (stored : Set TrendKey) (itemid : ItemId) :
    Sound stored (⟨itemid, 0, 0, 0, 0, 0, .float⟩ : Trend Value) where
  range := inRange_zero
  clear notZero := absurd rfl notZero

theorem initial_consistent (table : TrendType → TrendTable Value) (lastCleanupHour : Int) :
    Consistent table (initial table lastCleanupHour) where
  keyed itemid trend found := by simp [initial] at found
  sound itemid := sound_new _ itemid
  accepted := rfl
  account key := by
    simp [initial, cachedAt, valuesAt]

theorem processBatch_consistent {table : TrendType → TrendTable Value} {state : State Value}
    {batch : Batch Value} (consistent : Consistent table state)
    (safe : SafeBatch state batch) :
    Consistent table (processBatch state batch) := by
  obtain ⟨keyed, sound, accepted, account⟩ := consistent
  have settled := settled_item keyed sound safe
  have trendsPermuted := flushSequence_perm (flushedTrends state batch)
  -- no trend is flushed twice, and none of them is empty
  have distinct : ((flushedTrends state batch).map keyOf).Nodup := by
    refine (trendsPermuted.map keyOf).nodup_iff.mp (nodup_of_items fun itemid => ?_)
    obtain ⟨added, -, -, isSettled, -⟩ := settled itemid
    exact isSettled.distinct
  have notEmpty : ∀ trend ∈ flushedTrends state batch, trend.num ≠ 0 := by
    intro trend member
    obtain ⟨added, -, -, -, each, -⟩ := settled trend.itemid
    exact each trend (mem_filter.mpr ⟨member, beq_self_eq_true _⟩)
  have fresh : FreshAlong (storedKeys state.db) (flushSequence (flushedTrends state batch)) := by
    refine freshAlong_of_items fun itemid => ?_
    obtain ⟨added, -, -, isSettled, -⟩ := settled itemid
    exact isSettled.fresh
  obtain ⟨hints, keys, flush⟩ := dbMassUpdateTrends_spec batch.probeTime state.db
    (flushedTrends state batch) distinct
  obtain ⟨rejected, rows⟩ := flush fresh notEmpty
  have massKeyed (key : TrendKey) := dcMassUpdateTrends_account batch.now batch.existing
    batch.history keyed key
  refine ⟨dcUpdateTrends_keyed _ (massKeyed (.float, 0, 0)).1, ?_, rejected.trans accepted, ?_⟩
  · intro itemid
    obtain ⟨added, sameItem, range, isSettled, -, found⟩ := settled itemid
    have agree := agreeOn_flushed itemid (storedKeys state.db) trendsPermuted
    rw [← keys] at agree
    have clear := (clear_congr agree).mp isSettled.clear
    rw [← hintsAlong_item (AgreeOn.refl itemid _) (flushSequence _), ← hints] at clear
    have stored := lookup_dcUpdateTrends (dbMassUpdateTrends batch.probeTime state.db
      (flushedTrends state batch)).2 (dcMassUpdateTrends batch.now batch.existing
        batch.history state.cache).1.trends itemid
    change Sound _ (dcGetTrend (dcUpdateTrends (dbMassUpdateTrends batch.probeTime state.db
      (flushedTrends state batch)).2 (dcMassUpdateTrends batch.now batch.existing
        batch.history state.cache).1.trends) itemid)
    rw [dcGetTrend, stored]
    cases isCached : (dcMassUpdateTrends batch.now batch.existing batch.history
        state.cache).1.trends.lookup itemid with
    | none => exact sound_new _ itemid
    | some trend =>
      rw [Option.map_some, Option.getD_some]
      subst sameItem
      rcases found trend isCached with rfl | rfl
      · exact ⟨range, clear⟩
      · exact ⟨inRange_zero, clear⟩
  · intro key
    have added := (massKeyed key).2
    have counted : valuesAt key (state.processed ++ batch.history.filter forTrends) =
        valuesAt key state.processed + valuesAt key (batch.history.filter forTrends) := by
      simp [valuesAt]
    calc storedAt (processBatch state batch).db key +
          cachedAt (processBatch state batch).cache.trends key
        = storedAt state.db key + (cachedAt (dcMassUpdateTrends batch.now batch.existing
            batch.history state.cache).1.trends key +
              trendsAt key (flushedTrends state batch)) := by
          change storedAt (dbMassUpdateTrends batch.probeTime state.db
            (flushedTrends state batch)).1 key + cachedAt (dcUpdateTrends _ _) key = _
          rw [rows, cachedAt_dcUpdateTrends]
          abel
      _ = storedAt state.db key + cachedAt state.cache.trends key +
            valuesAt key (batch.history.filter forTrends) := by
          rw [flushedTrends, added, add_assoc]
      _ = storedAt ⟨table, []⟩ key + valuesAt key (processBatch state batch).processed := by
          rw [account, add_assoc, ← counted]
          rfl

omit [Zero Value] in
theorem numOf_valuesAt (key : TrendKey) (history : List (DcHistory Value)) :
    numOf (valuesAt key history) =
      history.countP fun value =>
        decide ((value.valueType, value.itemid, hourOf value.sec) = key) := by
  unfold valuesAt
  induction history with
  | nil => rfl
  | cons value rest ih =>
    rw [map_cons, sum_cons, numOf_add, ih, countP_cons, valueAt, Nat.add_comm]
    by_cases counted : (value.valueType, value.itemid, hourOf value.sec) = key
    · rw [if_pos counted, if_pos (decide_eq_true counted), numOf_one]
    · rw [if_neg counted, if_neg (by simpa using counted), numOf_zero]

/--
In a run of safe batches no insert meets an existing row.  For every item, hour
and value type the tables and the cache together hold the number of the initial
row and of the processed values, and their least and greatest value.
-/
theorem trendAccounting_run
    (table : TrendType → TrendTable Value) (lastCleanupHour : Int)
    (batches : List (Batch Value)) (state : State Value)
    (guarded : Transition.Guarded step SafeBatch (initial table lastCleanupHour) batches)
    (executed : Transition.run step (initial table lastCleanupHour) batches = some state) :
    state.db.rejected = [] ∧
      ∀ key,
        storedAt state.db key + cachedAt state.cache.trends key =
            storedAt ⟨table, []⟩ key + valuesAt key state.processed ∧
          numOf (storedAt state.db key) + numOf (cachedAt state.cache.trends key) =
            numOf (storedAt ⟨table, []⟩ key) +
              state.processed.countP fun value =>
                decide ((value.valueType, value.itemid, hourOf value.sec) = key) := by
  have consistent : Consistent table state := by
    refine Transition.guarded_run_invariant ?_ (initial_consistent table lastCleanupHour)
      guarded executed
    intro before batch next isConsistent safe processed
    obtain rfl := Option.some.inj processed
    exact processBatch_consistent isConsistent safe
  refine ⟨consistent.accepted, fun key => ⟨consistent.account key, ?_⟩⟩
  have account := congrArg numOf (consistent.account key)
  rwa [numOf_add, numOf_add, numOf_valuesAt] at account

end Runs

def sampleBatch (sec : Nat) (range : sec < 2 ^ 31) (valueType : TrendType) : Batch Nat where
  history := [⟨1, sec, 5, valueType, 0⟩]
  distinct := nodup_singleton _
  times value member := by
    obtain rfl := mem_singleton.mp member
    constructor
    · exact Int.natCast_nonneg sec
    · show (sec : Int) < 2 ^ 31
      omega
  now := sec
  probeTime := sec
  existing _ := true

/-- Two hours of values of one type. -/
def sampleRun : List (Batch Nat) :=
  [sampleBatch 3600 (by decide) .float, sampleBatch 7200 (by decide) .float]

theorem trendAccounting_sampleRun :
    ∃ state, Transition.run step (initial (fun _ => ∅) 0) sampleRun = some state ∧
      state.db.rejected = [] ∧
      ∀ key,
        storedAt state.db key + cachedAt state.cache.trends key =
            storedAt ⟨fun _ => ∅, []⟩ key + valuesAt key state.processed ∧
          numOf (storedAt state.db key) + numOf (cachedAt state.cache.trends key) =
            numOf (storedAt ⟨fun _ => (∅ : TrendTable Nat), []⟩ key) +
              state.processed.countP fun value =>
                decide ((value.valueType, value.itemid, hourOf value.sec) = key) := by
  have safe (state : State Nat) (sec : Nat) (range : sec < 2 ^ 31)
      (inRange : InRange (hourOf sec)) (notDue : cleanupDue state.cache sec = false)
      (sameType : (dcGetTrend state.cache.trends 1).valueType = .float) :
      SafeBatch state (sampleBatch sec range .float) := by
    intro value member _
    obtain rfl := mem_singleton.mp member
    have later : flushedAtOnce state (sampleBatch sec range .float)
        ⟨1, sec, 5, .float, 0⟩ = false := by
      simp [flushedAtOnce, sampleBatch, notDue]
    constructor
    · exact inRange
    · exact fun different => absurd sameType different
    · exact fun different => absurd sameType different
    · intro _ atOnce
      rw [later] at atOnce
      cases atOnce
  have guarded : Transition.Guarded step SafeBatch (initial (fun _ => ∅) 0) sampleRun := by
    refine ⟨safe _ 3600 _ ⟨by decide, by decide⟩ (by decide) (by decide), ?_⟩
    intro next processed
    obtain rfl := Option.some.inj processed
    exact ⟨safe _ 7200 _ ⟨by decide, by decide⟩ (by decide) (by decide), fun _ _ => trivial⟩
  exact ⟨_, rfl, trendAccounting_run _ 0 sampleRun _ guarded rfl⟩

/-- Item 1 has an unsigned row for the second hour. -/
def storedUint : TrendType → TrendTable Nat
  | .float => ∅
  | .uint64 => AList.insert (1, 7200) ⟨1, 0, 0⟩ ∅

/-- A hint that was made for the other value type: the row is inserted again. -/
theorem trendAccounting_typeChange :
    ∃ state : State Nat,
      Transition.run step (initial storedUint 0)
          [sampleBatch 3600 (by decide) .float, sampleBatch 7200 (by decide) .uint64,
            sampleBatch 10800 (by decide) .uint64] = some state ∧
        state.db.rejected = [(.uint64, 1, 7200)] ∧
        numOf (storedAt ⟨storedUint, []⟩ (.uint64, 1, 7200)) = 1 ∧
        numOf (storedAt state.db (.uint64, 1, 7200)) = 1 ∧
        numOf (cachedAt state.cache.trends (.uint64, 1, 7200)) = 0 ∧
        (state.processed.countP fun value =>
          decide ((value.valueType, value.itemid, hourOf value.sec) = (.uint64, 1, 7200))) = 1 :=
  ⟨_, rfl, by decide, by decide, by decide, by decide, by decide⟩

end Zabbix.Trends.Accounting
