import Mathlib.Algebra.Group.WithOne.Basic
import Mathlib.Order.MinMax
import Mathlib.Algebra.BigOperators.Group.List.Basic

/-!
# Summaries of values

A summary is the number of some values together with the least and the greatest
of them.  Summaries are joined by adding the numbers and comparing the bounds;
with an empty account added they form a commutative monoid, so that the
bookkeeping of a cache in front of a store can be written as a sum.
-/

namespace Zabbix.Library.Accounts

/-- The number of some values, the least and the greatest of them. -/
@[ext]
structure Summary (Value : Type*) where
  num : Nat
  least : Value
  greatest : Value
deriving DecidableEq, Repr

/-- A summary, or zero for no values. -/
abbrev Account (Value : Type*) := WithZero (Summary Value)

variable {Value : Type*}

/-- The account of a summary. -/
def ofSummary (num : Nat) (least greatest : Value) : Account Value :=
  ((⟨num, least, greatest⟩ : Summary Value) : WithZero (Summary Value))

/-- The account of one value. -/
def one (value : Value) : Account Value :=
  ofSummary 1 value value

/-- The number of values of an account. -/
def numOf : Account Value → Nat
  | none => 0
  | some summary => summary.num

@[simp]
theorem numOf_zero : numOf (0 : Account Value) = 0 :=
  rfl

@[simp]
theorem numOf_one (value : Value) : numOf (one value) = 1 :=
  rfl

variable [LinearOrder Value]

instance : AddCommSemigroup (Summary Value) where
  add first second :=
    ⟨first.num + second.num, min first.least second.least, max first.greatest second.greatest⟩
  add_assoc _ _ _ := Summary.ext (Nat.add_assoc _ _ _) (min_assoc _ _ _) (max_assoc _ _ _)
  add_comm _ _ := Summary.ext (Nat.add_comm _ _) (min_comm _ _) (max_comm _ _)

theorem ofSummary_add (num num' : Nat) (least least' greatest greatest' : Value) :
    ofSummary num least greatest + ofSummary num' least' greatest' =
      ofSummary (num + num') (min least least') (max greatest greatest') :=
  rfl

@[simp]
theorem numOf_add (first second : Account Value) :
    numOf (first + second) = numOf first + numOf second := by
  cases first with
  | none =>
    change numOf (0 + second) = numOf 0 + numOf second
    simp
  | some first =>
    cases second with
    | none =>
      change numOf (((first : Summary Value) : Account Value) + 0) = _ + numOf 0
      rw [add_zero]
      rfl
    | some second => rfl

end Zabbix.Library.Accounts
