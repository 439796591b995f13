import Zabbix.Trends.Cache
import Zabbix.Trends.Order

/-!
# One item in a batch

A batch has at most one value for an item.  So a batch changes the trend of an
item at most once before the cleanup, and it flushes at most two trends of the
item: the one that the value replaces, and the one that the cleanup finds.
-/

namespace Zabbix.Trends.Items

open Common.History Library.KeyedTable Tables Flush Rounds Trends.Order Cache List Option

variable {Value : Type*}

@[simp]
theorem itemTrends_append (itemid : ItemId) (first second : List (Trend Value)) :
    itemTrends itemid (first ++ second) = itemTrends itemid first ++ itemTrends itemid second :=
  filter_append _ _

theorem nodup_of_items {trends : List (Trend Value)}
    (items : ∀ itemid, ((itemTrends itemid trends).map keyOf).Nodup) :
    (trends.map keyOf).Nodup := by
  induction trends with
  | nil => exact nodup_nil
  | cons trend rest ih =>
    have own := items trend.itemid
    rw [itemTrends, filter_cons, if_pos (beq_self_eq_true _), map_cons, nodup_cons] at own
    rw [map_cons, nodup_cons]
    constructor
    · intro member
      obtain ⟨other, isIn, same⟩ := List.mem_map.mp member
      have sameItem : other.itemid = trend.itemid :=
        congrArg (fun key : TrendKey => key.2.1) same
      exact own.1 (List.mem_map.mpr ⟨other, mem_filter.mpr ⟨isIn, beq_iff_eq.mpr sameItem⟩, same⟩)
    · refine ih fun itemid => ?_
      have others := items itemid
      rw [itemTrends, filter_cons] at others
      split_ifs at others
      · exact (nodup_cons.mp others).2
      · exact others

theorem itemTrends_replacedTrend {trend : Trend Value} (history : DcHistory Value)
    (itemid : ItemId) :
    itemTrends itemid (replacedTrend trend history) =
      if trend.itemid = itemid then replacedTrend trend history else [] := by
  unfold itemTrends replacedTrend
  by_cases same : trend.itemid = itemid
  · split_ifs <;> simp [same]
  · split_ifs <;> simp [same]

variable [Zero Value] [LinearOrder Value]

theorem addHistory_other {itemid : ItemId} {history : List (DcHistory Value)}
    (other : ∀ value ∈ history, forTrends value = true → value.itemid ≠ itemid)
    (trends : Table ItemId (Trend Value)) (flushed : List (Trend Value))
    (keyed : Keyed trends) :
    (addHistory history (trends, flushed)).1.lookup itemid = trends.lookup itemid ∧
      itemTrends itemid (addHistory history (trends, flushed)).2 =
        itemTrends itemid flushed := by
  unfold addHistory
  induction history generalizing trends flushed with
  | nil => exact ⟨rfl, rfl⟩
  | cons value rest ih =>
    have later := fun another member => other another (mem_cons_of_mem value member)
    rw [foldl_cons]
    by_cases counted : forTrends value = true
    · have different := other value mem_cons_self counted
      rw [if_pos counted]
      have nextKeyed := dcAddTrend_keyed value flushed keyed
      rw [dcAddTrend_eq] at nextKeyed ⊢
      obtain ⟨found, listed⟩ := ih later _
        (flushed ++ replacedTrend (dcGetTrend trends value.itemid) value) nextKeyed
      refine ⟨found.trans ?_, listed.trans ?_⟩
      · rw [lookup_insert_eq, if_neg (Ne.symm different)]
      · rw [itemTrends_append, itemTrends_replacedTrend, dcGetTrend_itemid keyed,
          if_neg different, append_nil]
    · rw [if_neg counted]
      exact ih later trends flushed keyed

theorem addHistory_own {history : List (DcHistory Value)} {value : DcHistory Value}
    (distinct : (history.map DcHistory.itemid).Nodup) (member : value ∈ history)
    (counted : forTrends value = true)
    (trends : Table ItemId (Trend Value)) (flushed : List (Trend Value))
    (keyed : Keyed trends) :
    (addHistory history (trends, flushed)).1.lookup value.itemid =
        some (extendTrend (baseTrend (dcGetTrend trends value.itemid) value) value) ∧
      itemTrends value.itemid (addHistory history (trends, flushed)).2 =
        itemTrends value.itemid flushed ++
          replacedTrend (dcGetTrend trends value.itemid) value := by
  obtain ⟨before, after, rfl⟩ := append_of_mem member
  rw [map_append, map_cons] at distinct
  obtain ⟨-, distinctAfter, apart⟩ := nodup_append.mp distinct
  have otherBefore : ∀ other ∈ before, forTrends other = true →
      other.itemid ≠ value.itemid := fun other isIn _ =>
    apart other.itemid (List.mem_map_of_mem isIn) value.itemid mem_cons_self
  have otherAfter : ∀ other ∈ after, forTrends other = true →
      other.itemid ≠ value.itemid := by
    intro other isIn _ same
    refine (nodup_cons.mp distinctAfter).1 ?_
    rw [← same]
    exact List.mem_map_of_mem isIn
  obtain ⟨firstFound, firstListed⟩ := addHistory_other otherBefore trends flushed keyed
  have firstKeyed : Keyed (addHistory before (trends, flushed)).1 :=
    (addHistory_account (.float, 0, 0) before flushed keyed).1
  have split : addHistory (before ++ value :: after) (trends, flushed) =
      addHistory after (dcAddTrend value (addHistory before (trends, flushed))) := by
    unfold addHistory
    rw [foldl_append, foldl_cons, if_pos counted]
  rw [split]
  generalize addHistory before (trends, flushed) = added at firstFound firstListed firstKeyed ⊢
  obtain ⟨table, listed⟩ := added
  dsimp only at firstFound firstListed firstKeyed
  have nextKeyed := dcAddTrend_keyed value listed firstKeyed
  have sameTrend : dcGetTrend table value.itemid = dcGetTrend trends value.itemid := by
    unfold dcGetTrend
    rw [firstFound]
  rw [dcAddTrend_eq] at nextKeyed ⊢
  obtain ⟨found, lastListed⟩ := addHistory_other otherAfter _
    (listed ++ replacedTrend (dcGetTrend table value.itemid) value) nextKeyed
  refine ⟨found.trans ?_, lastListed.trans ?_⟩
  · rw [lookup_insert_eq, if_pos rfl, sameTrend]
  · rw [itemTrends_append, firstListed, itemTrends_replacedTrend,
      dcGetTrend_itemid firstKeyed, if_pos rfl, sameTrend]

def cleanupTrends (due : Bool) (hour : Int) (trend : Trend Value) : List (Trend Value) :=
  if due && cleanupFlushes hour trend then [trend] else []

omit [Zero Value] [LinearOrder Value] in
theorem itemTrends_entries {trends : Table ItemId (Trend Value)} (keyed : Keyed trends)
    (itemid : ItemId) :
    itemTrends itemid (trends.entries.map Sigma.snd) = (trends.lookup itemid).toList := by
  have each : ∀ entry ∈ trends.entries, entry.2.itemid = entry.1 := fun entry member =>
    keyed entry.1 entry.2 (AList.mem_lookup_iff.mpr member)
  have nodup := trends.nodupKeys
  unfold AList.lookup
  generalize trends.entries = entries at each nodup ⊢
  induction entries with
  | nil => rfl
  | cons entry rest ih =>
    obtain ⟨key, trend⟩ := entry
    have sameItem : trend.itemid = key := each ⟨key, trend⟩ mem_cons_self
    have later := ih (fun other member => each other (mem_cons_of_mem _ member))
      (nodupKeys_of_nodupKeys_cons nodup)
    rw [itemTrends] at later ⊢
    rw [map_cons, filter_cons]
    by_cases same : key = itemid
    · subst same
      have absent : dlookup key rest = none := by
        rw [dlookup_eq_none]
        exact (nodupKeys_cons.mp nodup).1
      rw [absent] at later
      rw [if_pos (beq_iff_eq.mpr sameItem), later, dlookup_cons_eq]
      rfl
    · rw [if_neg (by simpa [sameItem] using same), later,
        dlookup_cons_ne _ _ (Ne.symm same)]

/-- The trend of an item after the values of a batch, and the trends it replaced. -/
structure Added (history : List (DcHistory Value)) (trend added : Trend Value)
    (replaced : List (Trend Value)) : Prop where
  cases :
    (added = trend ∧ replaced = [] ∧
        ∀ value ∈ history, forTrends value = true → value.itemid ≠ trend.itemid) ∨
      ∃ value ∈ history, forTrends value = true ∧ value.itemid = trend.itemid ∧
        added = extendTrend (baseTrend trend value) value ∧
        replaced = replacedTrend trend value

theorem dcMassUpdateTrends_item (now : Int) (existing : ItemId → Bool)
    {history : List (DcHistory Value)} (distinct : (history.map DcHistory.itemid).Nodup)
    {cache : TrendCache Value} (keyed : Keyed cache.trends) (itemid : ItemId) :
    ∃ added replaced,
      Added history (dcGetTrend cache.trends itemid) added replaced ∧
      itemTrends itemid (dcMassUpdateTrends now existing history cache).2 =
        replaced ++ cleanupTrends (cleanupDue cache now) (hourOf now) added ∧
      ∀ trend,
        (dcMassUpdateTrends now existing history cache).1.trends.lookup itemid = some trend →
          trend = added ∨ trend = resetTrend added := by
  have sameItem := dcGetTrend_itemid keyed itemid
  have addedKeyed := (addHistory_account (.float, 0, 0) history [] keyed).1
  -- the values of the batch
  obtain ⟨added, replaced, isAdded, listed, found, missing⟩ : ∃ added replaced,
      Added history (dcGetTrend cache.trends itemid) added replaced ∧
      itemTrends itemid (addHistory history (cache.trends, [])).2 = replaced ∧
      (∀ trend, (addHistory history (cache.trends, [])).1.lookup itemid = some trend →
        trend = added) ∧
      ((addHistory history (cache.trends, [])).1.lookup itemid = none → added.num = 0) := by
    by_cases has_value : ∃ value ∈ history, forTrends value = true ∧ value.itemid = itemid
    · obtain ⟨value, member, counted, rfl⟩ := has_value
      obtain ⟨found, listed⟩ := addHistory_own distinct member counted cache.trends [] keyed
      refine ⟨_, _, ⟨Or.inr ⟨value, member, counted, sameItem.symm, rfl, rfl⟩⟩, listed, ?_, ?_⟩
      · intro trend isTrend
        rw [found] at isTrend
        exact (some.inj isTrend).symm
      · intro isNone
        rw [found] at isNone
        cases isNone
    · push Not at has_value
      obtain ⟨found, listed⟩ := addHistory_other has_value cache.trends [] keyed
      refine ⟨_, _, ⟨Or.inl ⟨rfl, rfl, by rw [sameItem]; exact has_value⟩⟩, listed, ?_, ?_⟩
      · intro trend isTrend
        rw [found] at isTrend
        rw [dcGetTrend, isTrend, getD_some]
      · intro isNone
        rw [found] at isNone
        rw [dcGetTrend, isNone, getD_none]
  refine ⟨added, replaced, isAdded, ?_⟩
  unfold dcMassUpdateTrends cleanupTrends
  dsimp only
  cases due : cleanupDue cache now with
  | false =>
    simp only [Bool.false_eq_true, if_false, Bool.false_and, append_nil]
    exact ⟨listed, fun trend isTrend => Or.inl (found trend isTrend)⟩
  | true =>
    simp only [if_true, Bool.true_and, itemTrends_append, listed]
    constructor
    · congr 1
      have entries := itemTrends_entries addedKeyed itemid
      unfold itemTrends at entries ⊢
      rw [filter_comm, entries]
      cases stored : (addHistory history (cache.trends, [])).1.lookup itemid with
      | none =>
        have empty := missing stored
        simp [cleanupFlushes, empty]
      | some trend =>
        rw [found trend stored, toList_some, filter_cons, filter_nil]
    · intro trend isTrend
      rw [lookup_mapTable, bind_eq_some_iff] at isTrend
      obtain ⟨old, isOld, cleaned⟩ := isTrend
      rw [found old isOld] at cleaned
      unfold cleanupTrend at cleaned
      split_ifs at cleaned
      · exact Or.inl (some.inj cleaned).symm
      · exact Or.inr (some.inj cleaned).symm
      · exact Or.inl (some.inj cleaned).symm

end Zabbix.Trends.Items
