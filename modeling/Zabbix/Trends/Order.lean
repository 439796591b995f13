import Zabbix.Trends.Rounds

/-!
# The order of a flush

A flush behaves as if it handled the trends one by one in the order of its
rounds.  What happens to the trends of one item depends on the rows and the
trends of this item only, so that a property of a flush can be shown for each
item on its own.
-/

namespace Zabbix.Trends.Order

open Common.History Library.Accounts Tables Flush Rounds List

variable {Value : Type*}

open Classical in
/-- The hints that the trends leave, one after another. -/
noncomputable def hintsAlong (stored : Set TrendKey) :
    List (Trend Value) → List (ItemId × Int)
  | [] => []
  | trend :: rest =>
    (if Skips stored trend then [(trend.itemid, nextHint trend.clock)] else []) ++
      hintsAlong (insert (keyOf trend) stored) rest

/-- No insert of the trends, one after another, meets a row. -/
def FreshAlong (stored : Set TrendKey) : List (Trend Value) → Prop
  | [] => True
  | trend :: rest =>
    (Skips stored trend → keyOf trend ∉ stored) ∧
      FreshAlong (insert (keyOf trend) stored) rest

def AgreeOn (itemid : ItemId) (stored other : Set TrendKey) : Prop :=
  ∀ valueType clock, (valueType, itemid, clock) ∈ stored ↔ (valueType, itemid, clock) ∈ other

variable {stored other : Set TrendKey} {trend : Trend Value}

theorem AgreeOn.refl (itemid : ItemId) (stored : Set TrendKey) : AgreeOn itemid stored stored :=
  fun _ _ => Iff.rfl

theorem AgreeOn.insert_both {itemid : ItemId} (agree : AgreeOn itemid stored other)
    (key : TrendKey) :
    AgreeOn itemid (insert key stored) (insert key other) := by
  intro valueType clock
  rw [Set.mem_insert_iff, Set.mem_insert_iff, agree]

theorem AgreeOn.insert_other {itemid : ItemId} (agree : AgreeOn itemid stored other)
    (key : TrendKey) (different : key.2.1 ≠ itemid) :
    AgreeOn itemid (insert key stored) other := by
  intro valueType clock
  rw [Set.mem_insert_iff, agree]
  refine or_iff_right ?_
  rintro rfl
  exact different rfl

theorem keyOf_mem_congr (agree : AgreeOn trend.itemid stored other) :
    keyOf trend ∈ stored ↔ keyOf trend ∈ other :=
  agree trend.valueType trend.clock

theorem skips_congr (agree : AgreeOn trend.itemid stored other) :
    Skips stored trend ↔ Skips other trend := by
  unfold Skips
  simp only [agree trend.valueType]

/-! ## Rounds are steps -/

theorem keysOf_cons (trend : Trend Value) (rest : List (Trend Value)) :
    keysOf (trend :: rest) = insert (keyOf trend) (keysOf rest) := by
  ext key
  simp only [keysOf, Set.mem_ofPred_eq, mem_cons, exists_eq_or_imp, Set.mem_insert_iff]
  rw [eq_comm]

theorem insert_union_keysOf (stored : Set TrendKey) (trend : Trend Value)
    (rest : List (Trend Value)) :
    insert (keyOf trend) stored ∪ keysOf rest = stored ∪ keysOf (trend :: rest) := by
  rw [keysOf_cons, Set.insert_union, Set.union_insert]

theorem hintsAlong_group {group : List (Trend Value)} (later : List (Trend Value))
    (items : group.Pairwise fun first second => first.itemid ≠ second.itemid) :
    hintsAlong stored (group ++ later) =
      hintsOf stored group ++ hintsAlong (stored ∪ keysOf group) later := by
  induction group generalizing stored with
  | nil => simp [hintsOf, keysOf]
  | cons trend rest ih =>
    rw [pairwise_cons] at items
    have same : hintsOf (insert (keyOf trend) stored) rest = hintsOf stored rest := by
      unfold hintsOf
      congr 1
      refine filter_congr fun next member => ?_
      rw [skips_congr ((AgreeOn.refl next.itemid stored).insert_other
        (keyOf trend) (items.1 next member))]
    rw [cons_append, hintsAlong, ih items.2, same, insert_union_keysOf, ← append_assoc]
    congr 1
    unfold hintsOf
    rw [filter_cons]
    by_cases skips : Skips stored trend <;> simp [skips]

theorem freshAlong_group {group : List (Trend Value)} (later : List (Trend Value))
    (items : group.Pairwise fun first second => first.itemid ≠ second.itemid) :
    FreshAlong stored (group ++ later) ↔
      Fresh stored group ∧ FreshAlong (stored ∪ keysOf group) later := by
  induction group generalizing stored with
  | nil => simp [Fresh, keysOf]
  | cons trend rest ih =>
    rw [pairwise_cons] at items
    have same : Fresh (insert (keyOf trend) stored) rest ↔ Fresh stored rest := by
      refine forall₂_congr fun next member => ?_
      have agree := (AgreeOn.refl next.itemid stored).insert_other
        (keyOf trend) (items.1 next member)
      rw [skips_congr agree, keyOf_mem_congr agree]
    rw [cons_append, FreshAlong, ih items.2, same, insert_union_keysOf, ← and_assoc]
    refine and_congr_left fun _ => ?_
    unfold Fresh
    rw [forall_mem_cons]

theorem flushRound_items (first : Trend Value) (rest : List (Trend Value))
    (distinct : ((first :: rest).map keyOf).Nodup) :
    (flushRound (first :: rest)).1.Pairwise fun first second =>
      first.itemid ≠ second.itemid := by
  obtain ⟨-, group, permuted⟩ := flushRound_spec first rest
  have all : (((flushRound (first :: rest)).1 ++ (flushRound (first :: rest)).2).map
      keyOf).Nodup := (permuted.map keyOf).nodup_iff.mpr distinct
  rw [map_append] at all
  refine (nodup_pairwise (nodup_append.mp all).1).imp_of_mem ?_
  intro left right isLeft isRight different same
  obtain ⟨leftClock, leftType⟩ := group left isLeft
  obtain ⟨rightClock, rightType⟩ := group right isRight
  apply different
  simp only [keyOf, Trend.rowKey, Prod.mk.injEq]
  exact ⟨leftType.trans rightType.symm, same, leftClock.trans rightClock.symm⟩

theorem flushRound_shorter (first : Trend Value) (rest : List (Trend Value)) :
    (flushRound (first :: rest)).2.length ≤ rest.length := by
  obtain ⟨isTaken, -, permuted⟩ := flushRound_spec first rest
  have lengths := permuted.length_eq
  have positive := length_pos_of_mem isTaken
  simp only [length_append, length_cons] at lengths
  omega

theorem flushOrder_perm (fuel : Nat) (trends : List (Trend Value))
    (room : trends.length ≤ fuel) :
    (flushOrder fuel trends).Perm trends := by
  induction fuel generalizing trends with
  | zero =>
    obtain rfl := eq_nil_of_length_eq_zero (Nat.le_zero.mp room)
    exact List.Perm.refl _
  | succ fuel ih =>
    cases trends with
    | nil => exact List.Perm.refl _
    | cons first rest =>
      have shorter := flushRound_shorter first rest
      have later := ih (flushRound (first :: rest)).2
        (by simp only [length_cons] at room; omega)
      rw [flushOrder, if_neg (cons_ne_nil _ _)]
      exact (later.append_left _).trans (flushRound_spec first rest).2.2

variable [LinearOrder Value]

theorem flushLoop_spec (now : Int) (fuel : Nat) (state : FlushState Value)
    (room : state.trends.length ≤ fuel) (distinct : (state.trends.map keyOf).Nodup) :
    (flushLoop now fuel state).trendsDiff =
        state.trendsDiff ++
          hintsAlong (storedKeys state.db) (flushOrder fuel state.trends) ∧
      storedKeys (flushLoop now fuel state).db =
        storedKeys state.db ∪ keysOf state.trends ∧
      (FreshAlong (storedKeys state.db) (flushOrder fuel state.trends) →
        (∀ trend ∈ state.trends, trend.num ≠ 0) →
        (flushLoop now fuel state).db.rejected = state.db.rejected ∧
          ∀ key, storedAt (flushLoop now fuel state).db key =
            storedAt state.db key + trendsAt key state.trends) := by
  induction fuel generalizing state with
  | zero =>
    have empty := eq_nil_of_length_eq_zero (Nat.le_zero.mp room)
    simp [flushLoop, flushOrder, hintsAlong, keysOf, empty]
  | succ fuel ih =>
    obtain ⟨db, trends, diff⟩ := state
    cases trends with
    | nil => simp [flushLoop, flushOrder, hintsAlong, keysOf]
    | cons first rest =>
      have items := flushRound_items first rest distinct
      have permuted := (flushRound_spec first rest).2.2
      have shorter := flushRound_shorter first rest
      obtain ⟨left, hints, keys, settled⟩ :=
        dbFlushTrends_spec now db first rest diff distinct
      have leftDistinct :
          ((dbFlushTrends now ⟨db, first :: rest, diff⟩).trends.map keyOf).Nodup := by
        rw [left]
        have all := (permuted.map keyOf).nodup_iff.mpr distinct
        rw [map_append] at all
        exact (nodup_append.mp all).2.1
      obtain ⟨laterHints, laterKeys, laterSettled⟩ :=
        ih (dbFlushTrends now ⟨db, first :: rest, diff⟩)
          (by rw [left]; simp only [length_cons] at room; omega) leftDistinct
      rw [flushLoop, if_neg (cons_ne_nil _ _), flushOrder, if_neg (cons_ne_nil _ _)]
      rw [left] at laterHints laterKeys laterSettled
      rw [hints, keys] at laterHints
      rw [keys] at laterKeys laterSettled
      dsimp only
      rw [hintsAlong_group _ items, freshAlong_group _ items]
      refine ⟨by rw [laterHints, append_assoc], ?_, ?_⟩
      · rw [laterKeys, Set.union_assoc]
        congr 1
        ext key
        simp only [keysOf, Set.mem_union, Set.mem_ofPred_eq, ← permuted.mem_iff, mem_append]
        constructor
        · rintro (⟨trend, isIn, same⟩ | ⟨trend, isIn, same⟩)
          · exact ⟨trend, Or.inl isIn, same⟩
          · exact ⟨trend, Or.inr isIn, same⟩
        · rintro ⟨trend, isIn | isIn, same⟩
          · exact Or.inl ⟨trend, isIn, same⟩
          · exact Or.inr ⟨trend, isIn, same⟩
      · rintro ⟨fresh, laterFresh⟩ notEmpty
        obtain ⟨rejected, accounts⟩ := settled fresh notEmpty
        obtain ⟨laterRejected, laterAccounts⟩ := laterSettled laterFresh
          fun trend member => notEmpty trend
            (permuted.mem_iff.mp (mem_append_right _ member))
        refine ⟨laterRejected.trans rejected, ?_⟩
        intro key
        rw [laterAccounts, accounts, add_assoc, ← trendsAt_append, trendsAt_perm key permuted]

omit [LinearOrder Value] in
/-- The trends of `DBmass_update_trends` in the order of its rounds. -/
def flushSequence (trends : List (Trend Value)) : List (Trend Value) :=
  flushOrder (trends.insertionSort zbxTrendCompare).length
    (trends.insertionSort zbxTrendCompare)

omit [LinearOrder Value] in
theorem flushSequence_perm (trends : List (Trend Value)) :
    (flushSequence trends).Perm trends :=
  (flushOrder_perm _ _ (Nat.le_refl _)).trans (perm_insertionSort _ _)

theorem dbMassUpdateTrends_spec (now : Int) (db : Database Value) (trends : List (Trend Value))
    (distinct : (trends.map keyOf).Nodup) :
    (dbMassUpdateTrends now db trends).2 =
        hintsAlong (storedKeys db) (flushSequence trends) ∧
      storedKeys (dbMassUpdateTrends now db trends).1 = storedKeys db ∪ keysOf trends ∧
      (FreshAlong (storedKeys db) (flushSequence trends) →
        (∀ trend ∈ trends, trend.num ≠ 0) →
        (dbMassUpdateTrends now db trends).1.rejected = db.rejected ∧
          ∀ key, storedAt (dbMassUpdateTrends now db trends).1 key =
            storedAt db key + trendsAt key trends) := by
  have sorted := perm_insertionSort zbxTrendCompare trends
  obtain ⟨hints, keys, settled⟩ := flushLoop_spec now
    (trends.insertionSort zbxTrendCompare).length ⟨db, trends.insertionSort zbxTrendCompare, []⟩
    (Nat.le_refl _) ((sorted.map keyOf).nodup_iff.mpr distinct)
  refine ⟨hints, keys.trans ?_, ?_⟩
  · simp only [keysOf, sorted.mem_iff]
  · intro fresh notEmpty
    obtain ⟨rejected, accounts⟩ := settled fresh fun trend member =>
      notEmpty trend (sorted.mem_iff.mp member)
    exact ⟨rejected, fun key => (accounts key).trans (by rw [trendsAt_perm key sorted])⟩

/-! ## One item -/

omit [LinearOrder Value]

def itemTrends (itemid : ItemId) (trends : List (Trend Value)) : List (Trend Value) :=
  trends.filter fun trend => trend.itemid == itemid

theorem hintsAlong_item {itemid : ItemId} (agree : AgreeOn itemid stored other)
    (trends : List (Trend Value)) :
    (hintsAlong stored trends).filter (fun hint => hint.1 == itemid) =
      hintsAlong other (itemTrends itemid trends) := by
  induction trends generalizing stored other with
  | nil => rfl
  | cons trend rest ih =>
    rw [hintsAlong, filter_append, itemTrends, filter_cons]
    by_cases same : trend.itemid = itemid
    · subst same
      rw [ih (agree.insert_both (keyOf trend))]
      simp only [beq_self_eq_true, if_true, hintsAlong]
      congr 1
      by_cases skips : Skips other trend
      · simp [(skips_congr agree).mpr skips, skips]
      · simp [mt (skips_congr agree).mp skips, skips]
    · rw [ih (agree.insert_other (keyOf trend) same)]
      split_ifs with skips isSame
      · exact absurd (beq_iff_eq.mp isSame) same
      · simp [same, itemTrends]
      · exact absurd (beq_iff_eq.mp ‹_›) same
      · simp [itemTrends]

theorem freshAlong_congr {itemid : ItemId} (agree : AgreeOn itemid stored other)
    {trends : List (Trend Value)} (items : ∀ trend ∈ trends, trend.itemid = itemid) :
    FreshAlong stored trends ↔ FreshAlong other trends := by
  induction trends generalizing stored other with
  | nil => exact Iff.rfl
  | cons trend rest ih =>
    have same := items trend mem_cons_self
    subst same
    rw [FreshAlong, FreshAlong, skips_congr agree, keyOf_mem_congr agree,
      ih (agree.insert_both (keyOf trend)) fun other member =>
        items other (mem_cons_of_mem _ member)]

theorem itemTrends_items (itemid : ItemId) (trends : List (Trend Value)) :
    ∀ trend ∈ itemTrends itemid trends, trend.itemid = itemid := by
  intro trend member
  exact beq_iff_eq.mp (mem_filter.mp member).2

/-- If no item meets a row, no insert does. -/
theorem freshAlong_of_items {trends : List (Trend Value)}
    (fresh : ∀ itemid, FreshAlong stored (itemTrends itemid trends)) :
    FreshAlong stored trends := by
  induction trends generalizing stored with
  | nil => trivial
  | cons trend rest ih =>
    have own := fresh trend.itemid
    rw [itemTrends, filter_cons, if_pos (beq_self_eq_true _)] at own
    refine ⟨own.1, ih ?_⟩
    intro itemid
    by_cases same : trend.itemid = itemid
    · subst same
      exact own.2
    · have others := fresh itemid
      rw [itemTrends, filter_cons, if_neg (by simpa using same)] at others
      exact (freshAlong_congr ((AgreeOn.refl itemid stored).insert_other
        (keyOf trend) same) (itemTrends_items itemid rest)).mpr others

end Zabbix.Trends.Order
