import Mathlib.Data.List.Basic
import Mathlib.Tactic.IntervalCases

/-!
# Leading bits of words

Two sequences of words that agree in their first bits, most significant bits first, and masks for
the leading bits of one word.
-/

namespace Zabbix.Library.BitPrefix

variable {width : Nat}

/-- A bit of a sequence of words. -/
def bit (words : List (BitVec width)) (i : Nat) : Bool :=
  (words.getD (i / width) 0).getMsbD (i % width)

/-- The first `count` bits are the same. -/
def AgreeTo (count : Nat) (words words' : List (BitVec width)) : Prop :=
  ∀ i < count, bit words i = bit words' i

variable {word word' mask : BitVec width} {words words' : List (BitVec width)} {count : Nat}

theorem bit_cons_of_lt {i : Nat} (isFirst : i < width) :
    bit (word :: words) i = word.getMsbD i := by
  rw [bit, Nat.div_eq_of_lt isFirst, Nat.mod_eq_of_lt isFirst, List.getD_cons_zero]

theorem bit_cons_add (hasBits : 0 < width) (i : Nat) :
    bit (word :: words) (width + i) = bit words i := by
  rw [bit, Nat.add_mod_left, Nat.add_div_left _ hasBits, List.getD_cons_succ, bit]

@[simp]
theorem agreeTo_zero : AgreeTo 0 words words' :=
  nofun

theorem agreeTo_comm : AgreeTo count words words' ↔ AgreeTo count words' words :=
  ⟨fun agree i isLess => (agree i isLess).symm, fun agree i isLess => (agree i isLess).symm⟩

theorem agreeTo_cons (hasBits : 0 < width) :
    AgreeTo count (word :: words) (word' :: words') ↔
      (∀ i < width, i < count → word.getMsbD i = word'.getMsbD i) ∧
        AgreeTo (count - width) words words' := by
  constructor
  · intro agree
    refine ⟨fun i isFirst isLess => ?_, fun i isLess => ?_⟩
    · have same := agree i isLess
      rwa [bit_cons_of_lt isFirst, bit_cons_of_lt isFirst] at same
    · have same := agree (width + i) (by omega)
      rwa [bit_cons_add hasBits, bit_cons_add hasBits] at same
  · rintro ⟨first, rest⟩ i isLess
    by_cases isFirst : i < width
    · rw [bit_cons_of_lt isFirst, bit_cons_of_lt isFirst]
      exact first i isFirst isLess
    · obtain ⟨i, rfl⟩ := Nat.exists_eq_add_of_le (Nat.le_of_not_lt isFirst)
      rw [bit_cons_add hasBits, bit_cons_add hasBits]
      exact rest i (by omega)

theorem and_mask_eq_iff (masks : ∀ i < width, mask.getMsbD i = decide (i < count)) :
    word &&& mask = word' &&& mask ↔
      ∀ i < width, i < count → word.getMsbD i = word'.getMsbD i := by
  constructor
  · intro same i isBit isLess
    have sameBit := congrArg (·.getMsbD i) same
    simpa [masks i isBit, isLess] using sameBit
  · intro agree
    refine BitVec.eq_of_getMsbD_eq fun i isBit => ?_
    rw [BitVec.getMsbD_and, BitVec.getMsbD_and, masks i isBit]
    by_cases isLess : i < count
    · rw [agree i isBit isLess]
    · rw [decide_eq_false isLess, Bool.and_false, Bool.and_false]

end Zabbix.Library.BitPrefix
