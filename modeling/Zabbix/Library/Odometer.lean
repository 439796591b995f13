import Mathlib.Algebra.BigOperators.Group.List.Basic
import Mathlib.Data.List.Range

/-!
# Odometers

A list of digits, each with its own lowest and highest value, counts up from the last digit.
Counting from the lowest digits visits every list of digits once, in lexicographic order.
-/

namespace Zabbix.Library.Odometer

open List

/-! ## Visiting by steps -/

section Visits

/-- The items that repeated steps reach, until no step is possible. -/
inductive Visits {α : Type} (step : α → Option α) : α → List α → Prop
  | last {first : α} (isLast : step first = none) : Visits step first [first]
  | more {first second : α} {others : List α} (isStep : step first = some second)
      (rest : Visits step second others) : Visits step first (first :: others)

variable {α : Type} {step : α → Option α} {first second : α} {items others : List α}

variable (visits : Visits step first items)

include visits

theorem Visits.head : items.head? = some first := by
  cases visits <;> rfl

theorem Visits.ne_nil : items ≠ [] := by
  cases visits <;> exact cons_ne_nil _ _

theorem Visits.congr {other : α → Option α}
    (same : ∀ item ∈ items, step item = other item) : Visits other first items := by
  induction visits with
  | last isLast => exact .last (by rw [← same _ mem_cons_self, isLast])
  | more isStep _ ih =>
    exact .more (by rw [← same _ mem_cons_self, isStep])
      (ih fun item isIn => same item (mem_cons_of_mem _ isIn))

theorem Visits.dropLast [DecidableEq α] {top : α}
    (isTop : items.getLast? = some top) (isOnce : top ∉ items.dropLast)
    (notEmpty : items.dropLast ≠ []) :
    Visits (fun item => (step item).filter (· ≠ top)) first items.dropLast := by
  induction visits with
  | last => exact absurd rfl notEmpty
  | @more first second others isStep rest ih =>
    cases rest with
    | last isLast =>
      obtain rfl : second = top := by simpa using isTop
      exact .last (by simp [isStep])
    | @more _ third others isNext rest =>
      have restNotEmpty := rest.ne_nil
      rw [dropLast_cons_of_ne_nil (cons_ne_nil _ _)] at isOnce ⊢
      rw [mem_cons, not_or] at isOnce
      have isOther : second ≠ top := by
        rintro rfl
        rw [dropLast_cons_of_ne_nil restNotEmpty] at isOnce
        exact isOnce.2 mem_cons_self
      refine .more (by simp [isStep, isOther]) (ih ?_ isOnce.2 ?_)
      · rwa [getLast?_cons_cons] at isTop
      · rw [dropLast_cons_of_ne_nil restNotEmpty]
        exact cons_ne_nil _ _

end Visits

/-! ## Cells -/

section Cells

variable {ρ : Type} (low high : ρ → Nat)

/-- All lists of digits, in lexicographic order. -/
def cells : List ρ → List (List Nat)
  | [] => [[]]
  | range :: ranges =>
    (range' (low range) (high range + 1 - low range)).flatMap fun digit =>
      (cells ranges).map (digit :: ·)

/-- The next list of digits: the last digit that can be raised is, and those behind it start
again. -/
def next : List ρ → List Nat → Option (List Nat)
  | range :: ranges, digit :: digits =>
    match next ranges digits with
    | some digits => some (digit :: digits)
    | none => if digit < high range then some ((digit + 1) :: ranges.map low) else none
  | _, _ => none

variable {low high} {ranges : List ρ} {digits : List Nat}

theorem mem_cells :
    digits ∈ cells low high ranges ↔
      List.Forall₂ (fun range digit => low range ≤ digit ∧ digit ≤ high range) ranges digits := by
  induction ranges generalizing digits with
  | nil => simp [cells]
  | cons range ranges ih =>
    simp only [cells, mem_flatMap, mem_range'_1, List.mem_map, ih, List.forall₂_cons_left_iff]
    constructor
    · rintro ⟨digit, isDigit, rest, isRest, rfl⟩
      exact ⟨digit, rest, by omega, isRest, rfl⟩
    · rintro ⟨digit, rest, isDigit, isRest, rfl⟩
      exact ⟨digit, by omega, rest, isRest, rfl⟩

theorem length_cells :
    (cells low high ranges).length =
      (ranges.map fun range => high range + 1 - low range).prod := by
  induction ranges with
  | nil => rfl
  | cons range ranges ih =>
    rw [cells, length_flatMap, map_cons, prod_cons, ← ih]
    simp

theorem pairwise_cells : (cells low high ranges).Pairwise (· < ·) := by
  induction ranges with
  | nil => exact pairwise_singleton _ _
  | cons range ranges ih =>
    rw [cells, pairwise_flatMap]
    refine ⟨fun digit _ => ?_, ?_⟩
    · rw [pairwise_map]
      exact ih.imp fun isLess => cons_lt_cons_self.mpr isLess
    · refine (pairwise_lt_range' 1).imp ?_
      intro digit later isLess digits isDigits others isOthers
      obtain ⟨rest, -, rfl⟩ := List.mem_map.mp isDigits
      obtain ⟨otherRest, -, rfl⟩ := List.mem_map.mp isOthers
      exact cons_lt_cons_iff.mpr (.inl isLess)

theorem visits_block {range : ρ} {digit : Nat} {items rest : List (List Nat)}
    (visits : Visits (next low high ranges) digits items)
    (goesOn : if digit < high range then
      Visits (next low high (range :: ranges)) ((digit + 1) :: ranges.map low) rest else rest = []) :
    Visits (next low high (range :: ranges)) (digit :: digits) (items.map (digit :: ·) ++ rest) := by
  induction visits with
  | last isLast =>
    by_cases isBelow : digit < high range
    · rw [if_pos isBelow] at goesOn
      exact .more (by simp [next, isLast, isBelow]) goesOn
    · rw [if_neg isBelow] at goesOn
      subst goesOn
      exact .last (by simp [next, isLast, isBelow])
  | more isStep _ ih =>
    exact .more (by simp [next, isStep]) ih

theorem visits_digits {range : ρ} {items : List (List Nat)}
    (visits : Visits (next low high ranges) (ranges.map low) items) (count digit : Nat)
    (isCount : digit + count = high range) :
    Visits (next low high (range :: ranges)) (digit :: ranges.map low)
      ((range' digit (count + 1)).flatMap fun digit => items.map (digit :: ·)) := by
  induction count generalizing digit with
  | zero =>
    rw [range'_succ, flatMap_cons]
    refine visits_block visits ?_
    rw [if_neg (by omega)]
    rfl
  | succ count ih =>
    rw [range'_succ, flatMap_cons]
    refine visits_block visits ?_
    rw [if_pos (by omega)]
    exact ih (digit + 1) (by omega)

theorem visits_cells (valid : ∀ range ∈ ranges, low range ≤ high range) :
    Visits (next low high ranges) (ranges.map low) (cells low high ranges) := by
  induction ranges with
  | nil => exact .last rfl
  | cons range ranges ih =>
    have isValid : low range ≤ high range := valid range mem_cons_self
    have visits := ih fun other isIn => valid other (mem_cons_of_mem _ isIn)
    rw [cells, show high range + 1 - low range = high range - low range + 1 by omega,
      map_cons]
    exact visits_digits visits (high range - low range) (low range) (by omega)

theorem getLast?_cells (valid : ∀ range ∈ ranges, low range ≤ high range) :
    (cells low high ranges).getLast? = some (ranges.map high) := by
  induction ranges with
  | nil => rfl
  | cons range ranges ih =>
    have isValid : low range ≤ high range := valid range mem_cons_self
    have isLast := ih fun other isIn => valid other (mem_cons_of_mem _ isIn)
    rw [cells, show high range + 1 - low range = high range - low range + 1 by omega,
      range'_concat, flatMap_append, flatMap_singleton, getLast?_append]
    rw [getLast?_map, isLast, Option.map_some, Option.some_or, map_cons]
    have isHigh : low range + 1 * (high range - low range) = high range := by omega
    rw [isHigh]

end Cells

end Zabbix.Library.Odometer
