import Mathlib.Tactic.ByContra

/-!
# Matchings left by crossing out

A relation is thinned out until it is a matching.  A pair is crossed out only for the sake of one
that is left alone in its row and in its column, so that what is left is maximal.
-/

namespace Zabbix.Library.Matching

variable {Row Column : Type*}

/-- A pair that is the only one of its row and of its column. -/
def Sole (relation : Row → Column → Prop) (row : Row) (column : Column) : Prop :=
  relation row column ∧ (∀ other, relation row other → other = column) ∧
    ∀ other, relation other column → other = row

/-- Each row and each column has one pair at most. -/
def IsMatching (relation : Row → Column → Prop) : Prop :=
  ∀ row column, relation row column → Sole relation row column

/-- Some pairs were crossed out, each in the row or the column of a pair that is left alone. -/
def Reduces (relation left : Row → Column → Prop) : Prop :=
  (∀ row column, left row column → relation row column) ∧
    ∀ row column, relation row column → ¬left row column →
      (∃ other, Sole left row other) ∨ ∃ other, Sole left other column

/-- The other pairs of the row and of the column of a pair are crossed out. -/
def crossOut (relation : Row → Column → Prop) (row : Row) (column : Column) :
    Row → Column → Prop :=
  fun otherRow otherColumn =>
    relation otherRow otherColumn ∧ (otherRow = row ↔ otherColumn = column)

variable {relation middle left : Row → Column → Prop} {row : Row} {column : Column}

theorem Reduces.refl (relation : Row → Column → Prop) : Reduces relation relation :=
  ⟨fun _ _ isPair => isPair, fun _ _ isPair notLeft => absurd isPair notLeft⟩

/-- A pair that is alone is never crossed out. -/
theorem Reduces.sole (reduces : Reduces relation left) (sole : Sole relation row column) :
    Sole left row column := by
  have isLeft : left row column := by
    by_contra notLeft
    obtain ⟨other, isOther⟩ | ⟨other, isOther⟩ := reduces.2 row column sole.1 notLeft
    · obtain rfl := sole.2.1 other (reduces.1 _ _ isOther.1)
      exact notLeft isOther.1
    · obtain rfl := sole.2.2 other (reduces.1 _ _ isOther.1)
      exact notLeft isOther.1
  exact ⟨isLeft, fun other isOther => sole.2.1 other (reduces.1 _ _ isOther),
    fun other isOther => sole.2.2 other (reduces.1 _ _ isOther)⟩

theorem Reduces.trans (first : Reduces relation middle) (second : Reduces middle left) :
    Reduces relation left := by
  refine ⟨fun row column isLeft => first.1 _ _ (second.1 _ _ isLeft), ?_⟩
  intro row column isPair notLeft
  by_cases isMiddle : middle row column
  · exact second.2 row column isMiddle notLeft
  · obtain ⟨other, sole⟩ | ⟨other, sole⟩ := first.2 row column isPair isMiddle
    · exact Or.inl ⟨other, second.sole sole⟩
    · exact Or.inr ⟨other, second.sole sole⟩

theorem sole_crossOut (isPair : relation row column) :
    Sole (crossOut relation row column) row column :=
  ⟨⟨isPair, iff_of_true rfl rfl⟩, fun _ isOther => isOther.2.mp rfl,
    fun _ isOther => isOther.2.mpr rfl⟩

theorem crossOut_reduces (isPair : relation row column) :
    Reduces relation (crossOut relation row column) := by
  refine ⟨fun _ _ isLeft => isLeft.1, fun otherRow otherColumn isOther notLeft => ?_⟩
  have sole := sole_crossOut isPair
  by_cases sameRow : otherRow = row
  · exact Or.inl ⟨column, sameRow ▸ sole⟩
  · by_cases sameColumn : otherColumn = column
    · exact Or.inr ⟨row, sameColumn ▸ sole⟩
    · exact absurd ⟨isOther, iff_of_false sameRow sameColumn⟩ notLeft

theorem Reduces.maximal (reduces : Reduces relation left) (isPair : relation row column) :
    (∃ other, left row other) ∨ ∃ other, left other column := by
  by_cases isLeft : left row column
  · exact Or.inl ⟨column, isLeft⟩
  · obtain ⟨other, sole⟩ | ⟨other, sole⟩ := reduces.2 row column isPair isLeft
    · exact Or.inl ⟨other, sole.1⟩
    · exact Or.inr ⟨other, sole.1⟩

end Zabbix.Library.Matching
