import Zabbix.Trends.Order

/-!
# Hints

A hint `disable_from` of an item is clear for a value type if the table of that
type has no row of the item from the hint on.  A flush keeps the hint of an item
clear for the type of its flushed trend.  Two things can spoil a hint: a change
of the value type, for which the hint was not probed, and two hours of an item
in one flush, when the hint of the earlier hour is stored last.
-/

namespace Zabbix.Trends.Hints

open Common.History Tables Flush Rounds Trends.Order

variable {Value : Type*} {stored : Set TrendKey} {itemid : ItemId}
variable {valueType : TrendType} {hint : Int} {trend first second : Trend Value}

/-- A hint, unless it is 0, says that no row exists from it on. -/
def Clear (stored : Set TrendKey) (itemid : ItemId) (valueType : TrendType) (hint : Int) :
    Prop :=
  hint ≠ 0 → ∀ clock, hint ≤ clock → (valueType, itemid, clock) ∉ stored

/-- The hours whose end is still an `int`. -/
def InRange (clock : Int) : Prop :=
  0 ≤ clock ∧ clock + secPerHour < 2 ^ 31

theorem nextHint_eq {clock : Int} (range : InRange clock) : nextHint clock = clock + 3600 := by
  unfold InRange secPerHour at range
  unfold nextHint secPerHour
  rw [Int.bmod_eq_of_le] <;> omega

open Classical in
/-- The hint of an item after one of its trends is flushed. -/
noncomputable def stepHint (stored : Set TrendKey) (hint : Int) (trend : Trend Value) : Int :=
  if Skips stored trend then nextHint trend.clock else hint

def lastHint (hint : Int) (hints : List (ItemId × Int)) : Int :=
  hints.foldl (fun _ next => next.2) hint

theorem lastHint_hintsAlong (stored : Set TrendKey) (hint : Int) (trend : Trend Value)
    (rest : List (Trend Value)) :
    lastHint hint (hintsAlong stored (trend :: rest)) =
      lastHint (stepHint stored hint trend) (hintsAlong (insert (keyOf trend) stored) rest) := by
  rw [hintsAlong, lastHint, List.foldl_append]
  unfold stepHint
  split_ifs <;> rfl

/-! ## One trend -/

/-- A trend that is inserted without a lookup has no row. -/
theorem fresh_of_clear (clear : Clear stored trend.itemid trend.valueType trend.disableFrom)
    (skips : Skips stored trend) :
    keyOf trend ∉ stored := by
  rcases skips with ⟨notZero, passed⟩ | ⟨-, -, missing⟩
  · exact clear notZero trend.clock passed
  · exact missing trend.clock (Int.le_refl _)

/-- No row follows an hour that is inserted without a lookup. -/
theorem missing_of_skips (clear : Clear stored trend.itemid trend.valueType trend.disableFrom)
    (skips : Skips stored trend) {clock : Int} (later : trend.clock ≤ clock) :
    (trend.valueType, trend.itemid, clock) ∉ stored := by
  rcases skips with ⟨notZero, passed⟩ | ⟨-, -, missing⟩
  · exact clear notZero clock (Int.le_trans passed later)
  · exact missing clock later

theorem clear_insert_otherType (clear : Clear stored itemid valueType hint)
    (different : trend.valueType ≠ valueType) :
    Clear (insert (keyOf trend) stored) itemid valueType hint := by
  intro notZero clock later
  rw [Set.mem_insert_iff, not_or]
  exact ⟨fun same => different (congrArg Prod.fst same).symm, clear notZero clock later⟩

theorem clear_insert_below (clear : Clear stored itemid valueType hint)
    (below : hint ≠ 0 → trend.clock < hint) :
    Clear (insert (keyOf trend) stored) itemid valueType hint := by
  intro notZero clock later
  rw [Set.mem_insert_iff, not_or]
  refine ⟨?_, clear notZero clock later⟩
  intro same
  have sameClock : clock = trend.clock := congrArg (fun key : TrendKey => key.2.2) same
  have before := below notZero
  omega

theorem clear_stepHint (range : InRange trend.clock)
    (clear : Clear stored trend.itemid trend.valueType trend.disableFrom) :
    Clear (insert (keyOf trend) stored) trend.itemid trend.valueType
      (stepHint stored trend.disableFrom trend) := by
  unfold stepHint
  by_cases skips : Skips stored trend
  · rw [if_pos skips, nextHint_eq range]
    refine clear_insert_below ?_ (fun _ => by omega)
    intro _ clock later
    exact missing_of_skips clear skips (by omega)
  · rw [if_neg skips]
    refine clear_insert_below clear ?_
    intro notZero
    by_contra passed
    exact skips (Or.inl ⟨notZero, by omega⟩)

/-! ## Two trends of one item -/

theorem clear_sameType (firstRange : InRange first.clock) (secondRange : InRange second.clock)
    (sameItem : second.itemid = first.itemid) (sameType : second.valueType = first.valueType)
    (sameHint : second.disableFrom = first.disableFrom) (different : first.clock ≠ second.clock)
    (ordered : first.disableFrom ≠ 0 → first.disableFrom ≤ first.clock →
      first.disableFrom ≤ second.clock → first.clock ≤ second.clock)
    (clear : Clear stored first.itemid first.valueType first.disableFrom) :
    FreshAlong stored [first, second] ∧
      Clear (insert (keyOf second) (insert (keyOf first) stored)) first.itemid first.valueType
        (stepHint (insert (keyOf first) stored)
          (stepHint stored first.disableFrom first) second) := by
  have firstKey (clock : Int) :
      (first.valueType, first.itemid, clock) ∈ insert (keyOf first) stored ↔
        clock = first.clock ∨ (first.valueType, first.itemid, clock) ∈ stored := by
    simp [keyOf, Trend.rowKey]
  have secondFresh : Skips (insert (keyOf first) stored) second →
      ∀ clock, second.clock ≤ clock →
        (first.valueType, first.itemid, clock) ∉ insert (keyOf first) stored := by
    rintro (⟨notZero, passed⟩ | ⟨-, -, missing⟩) clock later
    · rw [firstKey, not_or]
      rw [sameHint] at notZero passed
      refine ⟨?_, clear notZero clock (by omega)⟩
      rintro rfl
      have order := ordered notZero (by omega) passed
      omega
    · rw [← sameItem, ← sameType]
      exact missing clock later
  have secondKey : keyOf second = (first.valueType, first.itemid, second.clock) := by
    simp [keyOf, Trend.rowKey, sameType, sameItem]
  refine ⟨⟨fun skips => fresh_of_clear clear skips, ?_, trivial⟩, ?_⟩
  · intro skips
    rw [secondKey]
    exact secondFresh skips second.clock (Int.le_refl _)
  · by_cases skips : Skips (insert (keyOf first) stored) second
    · rw [stepHint, if_pos skips, nextHint_eq secondRange]
      refine clear_insert_below ?_ (fun _ => by omega)
      intro _ clock later
      exact secondFresh skips clock (by omega)
    · rw [stepHint, if_neg skips]
      refine clear_insert_below (clear_stepHint firstRange clear) ?_
      intro notZero
      by_contra passed
      apply skips
      rw [Skips, sameHint]
      unfold stepHint at notZero passed
      by_cases firstSkips : Skips stored first
      · rw [if_pos firstSkips, nextHint_eq firstRange] at passed
        by_cases unknown : first.disableFrom = 0
        · have early := firstRange.1
          refine Or.inr ⟨unknown, by omega, ?_⟩
          intro clock later
          rw [sameType, sameItem, firstKey, not_or]
          exact ⟨by omega, missing_of_skips clear firstSkips (by omega)⟩
        · rcases firstSkips with ⟨-, firstPassed⟩ | ⟨isUnknown, -⟩
          · exact Or.inl ⟨unknown, by omega⟩
          · exact absurd isUnknown unknown
      · rw [if_neg firstSkips] at notZero passed
        exact Or.inl ⟨notZero, by omega⟩

theorem skips_insert_otherType (different : trend.valueType ≠ first.valueType) :
    Skips (insert (keyOf first) stored) trend ↔ Skips stored trend := by
  have same (clock : Int) : (trend.valueType, trend.itemid, clock) ∈
      insert (keyOf first) stored ↔ (trend.valueType, trend.itemid, clock) ∈ stored := by
    rw [Set.mem_insert_iff]
    exact or_iff_right fun equal => different (congrArg Prod.fst equal)
  unfold Skips
  simp only [same]

theorem newType_spec {old new : Trend Value}
    (oldRange : InRange old.clock)
    (sameHint : new.disableFrom = old.disableFrom)
    (clearLeft : Clear stored new.itemid new.valueType (stepHint stored old.disableFrom old))
    (clearNew : new.disableFrom ≠ 0 → new.disableFrom ≤ new.clock →
      ∀ clock, new.clock ≤ clock → (new.valueType, new.itemid, clock) ∉ stored) :
    (Skips stored new → ∀ clock, new.clock ≤ clock →
        (new.valueType, new.itemid, clock) ∉ stored) ∧
      (¬Skips stored new → stepHint stored old.disableFrom old ≠ 0 →
        new.clock < stepHint stored old.disableFrom old) := by
  constructor
  · rintro (⟨notZero, passed⟩ | ⟨-, -, missing⟩) clock later
    · exact clearNew notZero passed clock later
    · exact missing clock later
  · intro notSkipped notZero
    by_contra passed
    apply notSkipped
    rw [Skips]
    by_cases unknown : new.disableFrom = 0
    · refine Or.inr ⟨unknown, ?_, ?_⟩
      · have positive := oldRange.1
        unfold stepHint at notZero passed
        by_cases oldSkips : Skips stored old
        · rw [if_pos oldSkips, nextHint_eq oldRange] at passed
          omega
        · rw [if_neg oldSkips] at notZero
          exact absurd (sameHint ▸ unknown) notZero
      · intro clock later
        exact clearLeft notZero clock (by omega)
    · left
      refine ⟨unknown, ?_⟩
      unfold stepHint at notZero passed
      by_cases oldSkips : Skips stored old
      · rw [if_pos oldSkips, nextHint_eq oldRange] at passed
        rcases oldSkips with ⟨-, oldPassed⟩ | ⟨isUnknown, -⟩
        · omega
        · exact absurd (sameHint.trans isUnknown) unknown
      · rw [if_neg oldSkips] at passed
        omega

variable {old new : Trend Value} (range : InRange new.clock) (oldRange : InRange old.clock)
variable (different : old.valueType ≠ new.valueType) (sameHint : new.disableFrom = old.disableFrom)
variable (clearOld : Clear stored old.itemid old.valueType old.disableFrom)
variable (clearLeft : Clear stored new.itemid new.valueType (stepHint stored old.disableFrom old))
variable (clearNew : new.disableFrom ≠ 0 → new.disableFrom ≤ new.clock →
  ∀ clock, new.clock ≤ clock → (new.valueType, new.itemid, clock) ∉ stored)

include range oldRange different sameHint clearOld clearLeft clearNew

theorem clear_newLast :
    FreshAlong stored [old, new] ∧
      Clear (insert (keyOf new) (insert (keyOf old) stored)) new.itemid new.valueType
        (stepHint (insert (keyOf old) stored) (stepHint stored old.disableFrom old) new) := by
  obtain ⟨missing, below⟩ := newType_spec oldRange sameHint clearLeft clearNew
  have same : Skips (insert (keyOf old) stored) new ↔ Skips stored new :=
    skips_insert_otherType (Ne.symm different)
  refine ⟨⟨fun skips => fresh_of_clear clearOld skips, ?_, trivial⟩, ?_⟩
  · intro skips
    rw [Set.mem_insert_iff, not_or]
    refine ⟨fun equal => different (congrArg Prod.fst equal).symm, ?_⟩
    exact missing (same.mp skips) new.clock (Int.le_refl _)
  · rw [Set.insert_comm]
    refine clear_insert_otherType ?_ different
    unfold stepHint
    by_cases skips : Skips stored new
    · rw [if_pos (same.mpr skips), nextHint_eq range]
      refine clear_insert_below ?_ (fun _ => by omega)
      intro _ clock later
      exact missing skips clock (by omega)
    · rw [if_neg (mt same.mp skips)]
      exact clear_insert_below clearLeft (below skips)

theorem clear_newFirst (ordered : Skips stored old → new.clock ≤ old.clock) :
    FreshAlong stored [new, old] ∧
      Clear (insert (keyOf old) (insert (keyOf new) stored)) new.itemid new.valueType
        (stepHint (insert (keyOf new) stored) (stepHint stored old.disableFrom new) old) := by
  obtain ⟨missing, below⟩ := newType_spec oldRange sameHint clearLeft clearNew
  have same : Skips (insert (keyOf new) stored) old ↔ Skips stored old :=
    skips_insert_otherType different
  refine ⟨⟨fun skips => missing skips new.clock (Int.le_refl _), ?_, trivial⟩, ?_⟩
  · intro skips
    rw [Set.mem_insert_iff, not_or]
    refine ⟨fun equal => different (congrArg Prod.fst equal), ?_⟩
    exact fresh_of_clear clearOld (same.mp skips)
  · refine clear_insert_otherType ?_ different
    unfold stepHint at clearLeft below ⊢
    by_cases oldSkips : Skips stored old
    · rw [if_pos oldSkips] at clearLeft
      rw [if_pos (same.mpr oldSkips)]
      refine clear_insert_below clearLeft ?_
      have order := ordered oldSkips
      rw [nextHint_eq oldRange]
      omega
    · rw [if_neg oldSkips] at clearLeft below
      rw [if_neg (mt same.mp oldSkips)]
      by_cases skips : Skips stored new
      · rw [if_pos skips, nextHint_eq range]
        refine clear_insert_below ?_ (fun _ => by omega)
        intro _ clock later
        exact missing skips clock (by omega)
      · rw [if_neg skips]
        exact clear_insert_below clearLeft (below skips)

end Zabbix.Trends.Hints
