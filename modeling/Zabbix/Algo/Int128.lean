import Mathlib.Data.Nat.ModEq
import Mathlib.Tactic.Ring

/-!
# Integers of 128 bits

`zbx_uint128_t` of `int128.c`, which sums and averages of trends are kept in.  The halves are words
of 64 bits, whose operators wrap.
-/

namespace Zabbix.Algo.Int128

/-- `zbx_uint128_t` -/
structure UInt128 where
  lo : BitVec 64
  hi : BitVec 64
deriving DecidableEq

def UInt128.toNat (value : UInt128) : Nat :=
  value.hi.toNat * 2 ^ 64 + value.lo.toNat

def udec128_128 (base value : UInt128) : UInt128 :=
  let lo := base.lo - value.lo
  { lo, hi := (if base.lo < lo then base.hi - 1 else base.hi) - value.hi }

def ushiftr128 (base : UInt128) (bits : Nat) : UInt128 :=
  if bits = 0 then base
  else if 64 ≤ bits then { lo := base.hi >>> (bits - 64), hi := 0 }
  else { lo := base.lo >>> bits ||| base.hi <<< (64 - bits), hi := base.hi >>> bits }

def ushiftl128 (base : UInt128) (bits : Nat) : UInt128 :=
  if bits = 0 then base
  else if 64 ≤ bits then { hi := base.lo <<< (bits - 64), lo := 0 }
  else { hi := base.hi <<< bits ||| base.lo >>> (64 - bits), lo := base.lo <<< bits }

def ucmp128_128 (value1 value2 : UInt128) : Int :=
  if value1.hi ≠ value2.hi then (if value1.hi < value2.hi then -1 else 1)
  else if value1.lo = value2.lo then 0
  else if value1.lo < value2.lo then -1 else 1

def uinc128_64 (base : UInt128) (value : BitVec 64) : UInt128 :=
  let lo := base.lo + value
  { lo, hi := if base.lo > lo then base.hi + 1 else base.hi }

def uinc128_128 (base value : UInt128) : UInt128 :=
  let lo := base.lo + value.lo
  { lo, hi := (if base.lo > lo then base.hi + 1 else base.hi) + value.hi }

def uint32BitMask : BitVec 64 :=
  ~~~ (~~~ 0#64 <<< 32)

def umul64_32_shift (base : UInt128) (value factor : BitVec 64) (shift : Nat) : UInt128 :=
  let base := uinc128_128 base
    (ushiftl128 { hi := 0, lo := (value &&& uint32BitMask) * factor } shift)
  uinc128_128 base (ushiftl128 { hi := 0, lo := (value >>> 32) * factor } (32 + shift))

def umul64_64 (value factor : BitVec 64) : UInt128 :=
  umul64_32_shift (umul64_32_shift { lo := 0, hi := 0 } value (factor &&& uint32BitMask) 0)
    value (factor >>> 32) 32

/-! ## Division -/

/-- The inner loop of `udiv128_64`. -/
def alignDivisor (reminder : UInt128) : Nat → UInt128 → BitVec 64 → Option (UInt128 × BitVec 64)
  | 0, _, _ => none
  | turns + 1, divisor, resultMask =>
    if ucmp128_128 reminder divisor < 0 then
      alignDivisor reminder turns (ushiftr128 divisor 1) (resultMask >>> 1)
    else some (divisor, resultMask)

/-- The outer loop, with the bits of the quotient and the reminder that is left. -/
def divideLoop : Nat → UInt128 → UInt128 → BitVec 64 → BitVec 64 → Option (BitVec 64 × UInt128)
  | 0, _, _, _, _ => none
  | turns + 1, reminder, divisor, resultMask, lo =>
    if reminder.hi ≠ 0 then
      (alignDivisor reminder turns divisor resultMask).bind fun (divisor, resultMask) =>
        divideLoop turns (udec128_128 reminder divisor) divisor resultMask (lo ||| resultMask)
    else some (lo, reminder)

/-- The integers in memory, by their addresses. -/
abbrev Store := Nat → UInt128

def setHi (store : Store) (address : Nat) (hi : BitVec 64) : Store := fun other =>
  if other = address then { store address with hi } else store other

def setLo (store : Store) (address : Nat) (lo : BitVec 64) : Store := fun other =>
  if other = address then { store address with lo } else store other

def divideHigh (store : Store) (result dividend : Nat) (value : BitVec 64) : Store × UInt128 :=
  let reminder := store dividend
  if (store dividend).hi ≥ value then
    let store := setHi store result ((store dividend).hi / value)
    (store, { reminder with hi := reminder.hi - (store result).hi * value })
  else (setHi store result 0, reminder)

/-- The loops may take as many turns as given. -/
def udiv128_64 (turns : Nat) (store : Store) (result dividend : Nat) (value : BitVec 64) :
    Option Store :=
  if (store dividend).hi = 0 then
    let store := setHi store result 0
    some (setLo store result ((store dividend).lo / value))
  else
    let (store, reminder) := divideHigh store result dividend value
    let store := setLo store result 0
    let divisor := ushiftr128 { hi := value, lo := 0 } 1
    (divideLoop turns reminder divisor (1#64 <<< 63) (store result).lo).map fun (lo, reminder) =>
      setLo store result (lo ||| reminder.lo / value)

example : (udiv128_64 130 (fun _ => { hi := 5, lo := 7 }) 0 0 9).map (fun store => store 0) =
    some { hi := 0, lo := 10248191152060862009#64 } := by
  decide

/-! ## Words -/

variable {base value : UInt128} {first second : BitVec 64} {bits k : Nat}

theorem toNat_or_of_dvd (isMultiple : 2 ^ k ∣ first.toNat) (isSmall : second.toNat < 2 ^ k) :
    (first ||| second).toNat = first.toNat + second.toNat := by
  obtain ⟨factor, isFirst⟩ := isMultiple
  rw [BitVec.toNat_or, isFirst, Nat.two_pow_add_eq_or_of_lt isSmall]

theorem toNat_one : (1 : BitVec 64).toNat = 1 :=
  rfl

theorem toNat_zero : (0 : BitVec 64).toNat = 0 :=
  rfl

theorem toNat_lt (value : UInt128) : value.toNat < 2 ^ 128 := by
  have hi := value.hi.isLt
  have lo := value.lo.isLt
  rw [UInt128.toNat]
  omega

/-! ## Sums and differences -/

theorem toNat_uinc128_64 (base : UInt128) (value : BitVec 64) :
    (uinc128_64 base value).toNat = (base.toNat + value.toNat) % 2 ^ 128 := by
  have baseHi := base.hi.isLt
  have baseLo := base.lo.isLt
  have isLt := value.isLt
  simp only [uinc128_64, UInt128.toNat, gt_iff_lt, BitVec.lt_def, BitVec.toNat_add]
  split_ifs with carries
  · rw [BitVec.toNat_add]
    rw [toNat_one]
    omega
  · omega

theorem toNat_uinc128_128 (base value : UInt128) :
    (uinc128_128 base value).toNat = (base.toNat + value.toNat) % 2 ^ 128 := by
  have baseHi := base.hi.isLt
  have baseLo := base.lo.isLt
  have valueHi := value.hi.isLt
  have valueLo := value.lo.isLt
  simp only [uinc128_128, UInt128.toNat, gt_iff_lt, BitVec.lt_def, BitVec.toNat_add]
  split_ifs with carries
  · rw [BitVec.toNat_add]
    rw [toNat_one]
    omega
  · omega

theorem toNat_udec128_128 (atMost : value.toNat ≤ base.toNat) :
    (udec128_128 base value).toNat = base.toNat - value.toNat := by
  have baseHi := base.hi.isLt
  have baseLo := base.lo.isLt
  have valueHi := value.hi.isLt
  have valueLo := value.lo.isLt
  simp only [UInt128.toNat] at atMost
  simp only [udec128_128, UInt128.toNat, BitVec.lt_def, BitVec.toNat_sub]
  split_ifs with borrows
  · rw [BitVec.toNat_sub]
    rw [toNat_one]
    omega
  · omega

theorem ucmp128_128_neg_iff (value1 value2 : UInt128) :
    ucmp128_128 value1 value2 < 0 ↔ value1.toNat < value2.toNat := by
  have lo1 := value1.lo.isLt
  have lo2 := value2.lo.isLt
  simp only [ucmp128_128, UInt128.toNat, ne_eq, BitVec.toNat_eq, BitVec.lt_def]
  split_ifs <;> omega

/-! ## Shifts -/

theorem two_pow_split (atMost : bits ≤ 64) : 2 ^ bits * 2 ^ (64 - bits) = 2 ^ 64 := by
  rw [← Nat.pow_add, Nat.add_sub_cancel' atMost]

theorem toNat_shiftLeft_split (first : BitVec 64) (atMost : bits ≤ 64) :
    (first <<< (64 - bits)).toNat = 2 ^ (64 - bits) * (first.toNat % 2 ^ bits) := by
  rw [BitVec.toNat_shiftLeft, Nat.shiftLeft_eq, ← two_pow_split atMost, Nat.mul_comm (2 ^ bits),
    Nat.mul_comm first.toNat, Nat.mul_mod_mul_left]

theorem toNat_ushiftr128 (base : UInt128) (bits : Nat) :
    (ushiftr128 base bits).toNat = base.toNat / 2 ^ bits := by
  rw [ushiftr128]
  split_ifs with noBits isWord
  · rw [noBits, Nat.pow_zero, Nat.div_one]
  · obtain ⟨above, rfl⟩ := Nat.exists_eq_add_of_le isWord
    have isHigh : (base.hi.toNat * 2 ^ 64 + base.lo.toNat) / 2 ^ 64 = base.hi.toNat := by
      have isLt := base.lo.isLt
      omega
    rw [UInt128.toNat, UInt128.toNat, Nat.pow_add, ← Nat.div_div_eq_div_mul, isHigh,
      Nat.add_sub_cancel_left]
    simp [Nat.shiftRight_eq_div_pow]
  · have atMost : bits ≤ 64 := by omega
    have isSmall : (base.lo >>> bits).toNat < 2 ^ (64 - bits) := by
      rw [BitVec.toNat_ushiftRight, Nat.shiftRight_eq_div_pow]
      refine Nat.div_lt_of_lt_mul ?_
      rw [two_pow_split atMost]
      exact base.lo.isLt
    have isMultiple : 2 ^ (64 - bits) ∣ (base.hi <<< (64 - bits)).toNat := by
      rw [toNat_shiftLeft_split _ atMost]
      exact Nat.dvd_mul_right _ _
    have isWhole : base.toNat / 2 ^ bits =
        base.hi.toNat * 2 ^ (64 - bits) + base.lo.toNat / 2 ^ bits := by
      rw [UInt128.toNat, ← two_pow_split atMost, Nat.mul_left_comm,
        Nat.mul_add_div (Nat.two_pow_pos bits)]
    rw [isWhole, UInt128.toNat, BitVec.or_comm, toNat_or_of_dvd isMultiple isSmall,
      toNat_shiftLeft_split _ atMost, BitVec.toNat_ushiftRight, BitVec.toNat_ushiftRight,
      Nat.shiftRight_eq_div_pow, Nat.shiftRight_eq_div_pow, ← two_pow_split atMost]
    nth_rewrite 3 [← Nat.div_add_mod base.hi.toNat (2 ^ bits)]
    ring

theorem toNat_ushiftl128 (base : UInt128) (isShort : bits < 128) :
    (ushiftl128 base bits).toNat = base.toNat * 2 ^ bits % 2 ^ 128 := by
  rw [ushiftl128]
  split_ifs with noBits isWord
  · rw [noBits, Nat.pow_zero, Nat.mul_one, Nat.mod_eq_of_lt (toNat_lt base)]
  · obtain ⟨above, rfl⟩ := Nat.exists_eq_add_of_le isWord
    rw [UInt128.toNat, UInt128.toNat, Nat.add_sub_cancel_left, BitVec.toNat_shiftLeft,
      Nat.shiftLeft_eq]
    have isWhole : (base.hi.toNat * 2 ^ 64 + base.lo.toNat) * 2 ^ (64 + above) =
        base.hi.toNat * 2 ^ above * 2 ^ 128 + base.lo.toNat * 2 ^ above * 2 ^ 64 := by
      rw [Nat.pow_add]
      ring
    rw [isWhole, toNat_zero]
    omega
  · have atMost : bits ≤ 64 := by omega
    have pos := Nat.two_pow_pos bits
    have isMultiple : 2 ^ bits ∣ (base.hi <<< bits).toNat := by
      have split := @toNat_shiftLeft_split (64 - bits) base.hi (Nat.sub_le 64 bits)
      rw [Nat.sub_sub_self atMost] at split
      rw [split]
      exact Nat.dvd_mul_right _ _
    have isCarry : (base.lo >>> (64 - bits)).toNat = base.lo.toNat * 2 ^ bits / 2 ^ 64 := by
      rw [BitVec.toNat_ushiftRight, Nat.shiftRight_eq_div_pow, ← two_pow_split atMost,
        Nat.mul_comm base.lo.toNat, Nat.mul_div_mul_left _ _ pos]
    have isSmall : (base.lo >>> (64 - bits)).toNat < 2 ^ bits := by
      rw [isCarry]
      refine Nat.div_lt_of_lt_mul ?_
      exact Nat.mul_lt_mul_of_pos_right base.lo.isLt pos
    have fits : (base.hi <<< bits ||| base.lo >>> (64 - bits)).toNat < 2 ^ 64 :=
      BitVec.isLt _
    have isWhole : base.toNat * 2 ^ bits =
        base.hi.toNat * 2 ^ bits * 2 ^ 64 + base.lo.toNat * 2 ^ bits := by
      rw [UInt128.toNat]
      ring
    rw [toNat_or_of_dvd isMultiple isSmall, isCarry, BitVec.toNat_shiftLeft,
      Nat.shiftLeft_eq] at fits
    rw [isWhole, UInt128.toNat, toNat_or_of_dvd isMultiple isSmall, isCarry,
      BitVec.toNat_shiftLeft, BitVec.toNat_shiftLeft, Nat.shiftLeft_eq, Nat.shiftLeft_eq]
    omega

/-! ## Products -/

theorem toNat_low (first : BitVec 64) : (first &&& uint32BitMask).toNat = first.toNat % 2 ^ 32 := by
  have isMask : uint32BitMask.toNat = 2 ^ 32 - 1 := rfl
  rw [BitVec.toNat_and, isMask, Nat.and_two_pow_sub_one_eq_mod]

theorem toNat_high (first : BitVec 64) : (first >>> 32).toNat = first.toNat / 2 ^ 32 := by
  rw [BitVec.toNat_ushiftRight, Nat.shiftRight_eq_div_pow]

theorem toNat_mul_of_lt (firstSmall : first.toNat < 2 ^ 32) (secondSmall : second.toNat < 2 ^ 32) :
    (first * second).toNat = first.toNat * second.toNat := by
  rw [BitVec.toNat_mul, Nat.mod_eq_of_lt]
  calc first.toNat * second.toNat < 2 ^ 32 * 2 ^ 32 :=
        Nat.mul_lt_mul'' firstSmall secondSmall
    _ = 2 ^ 64 := by rw [← Nat.pow_add]

theorem toNat_word (first : BitVec 64) : UInt128.toNat { hi := 0, lo := first } = first.toNat := by
  rw [UInt128.toNat]
  simp

theorem toNat_umul64_32_shift (base : UInt128) (value : BitVec 64) {factor : BitVec 64}
    (isSmall : factor.toNat < 2 ^ 32) {shift : Nat} (isShort : shift < 96) :
    (umul64_32_shift base value factor shift).toNat =
      (base.toNat + value.toNat * factor.toNat * 2 ^ shift) % 2 ^ 128 := by
  have lowSmall : (value &&& uint32BitMask).toNat < 2 ^ 32 := by
    rw [toNat_low]
    exact Nat.mod_lt _ (Nat.two_pow_pos 32)
  have highSmall : (value >>> 32).toNat < 2 ^ 32 := by
    rw [toNat_high]
    exact Nat.div_lt_of_lt_mul value.isLt
  have isSplit := Nat.div_add_mod value.toNat (2 ^ 32)
  rw [umul64_32_shift, toNat_uinc128_128, toNat_uinc128_128, toNat_ushiftl128 _ (by omega),
    toNat_ushiftl128 _ (by omega), toNat_word, toNat_word, toNat_mul_of_lt lowSmall isSmall,
    toNat_mul_of_lt highSmall isSmall, toNat_low, toNat_high, Nat.add_mod_mod, Nat.mod_add_mod,
    Nat.add_right_comm, Nat.add_mod_mod]
  have isWhole : base.toNat + value.toNat / 2 ^ 32 * factor.toNat * 2 ^ (32 + shift) +
      value.toNat % 2 ^ 32 * factor.toNat * 2 ^ shift =
        base.toNat + value.toNat * factor.toNat * 2 ^ shift := by
    nth_rewrite 3 [← isSplit]
    rw [Nat.pow_add]
    ring
  rw [isWhole]

/-- The product of two words is exact. -/
theorem toNat_umul64_64 (value factor : BitVec 64) :
    (umul64_64 value factor).toNat = value.toNat * factor.toNat := by
  have lowSmall : (factor &&& uint32BitMask).toNat < 2 ^ 32 := by
    rw [toNat_low]
    exact Nat.mod_lt _ (Nat.two_pow_pos 32)
  have highSmall : (factor >>> 32).toNat < 2 ^ 32 := by
    rw [toNat_high]
    exact Nat.div_lt_of_lt_mul factor.isLt
  have isSplit := Nat.div_add_mod factor.toNat (2 ^ 32)
  have fits : value.toNat * factor.toNat < 2 ^ 128 := by
    calc value.toNat * factor.toNat < 2 ^ 64 * 2 ^ 64 := Nat.mul_lt_mul'' value.isLt factor.isLt
      _ = 2 ^ 128 := by rw [← Nat.pow_add]
  rw [umul64_64, toNat_umul64_32_shift _ _ highSmall (by omega),
    toNat_umul64_32_shift _ _ lowSmall (by omega), toNat_word, toNat_low, toNat_high,
    Nat.mod_add_mod]
  have isWhole : (0#64).toNat + value.toNat * (factor.toNat % 2 ^ 32) * 2 ^ 0 +
      value.toNat * (factor.toNat / 2 ^ 32) * 2 ^ 32 = value.toNat * factor.toNat := by
    nth_rewrite 3 [← isSplit]
    rw [BitVec.toNat_zero]
    ring
  exact (congrArg (· % 2 ^ 128) isWhole).trans (Nat.mod_eq_of_lt fits)

/-! ## Quotients -/

section

variable {reminder divisor : UInt128} {resultMask lo : BitVec 64} {quantity : Nat}

/-- The divisor is the value, shifted left as the bit of the quotient is. -/
structure Aligned (quantity k : Nat) (divisor : UInt128) (resultMask : BitVec 64) : Prop where
  divisor : divisor.toNat = quantity * 2 ^ k
  mask : resultMask.toNat = 2 ^ k

theorem Aligned.shift (aligned : Aligned quantity (k + 1) divisor resultMask) :
    Aligned quantity k (ushiftr128 divisor 1) (resultMask >>> 1) where
  divisor := by
    rw [toNat_ushiftr128, aligned.divisor, Nat.pow_succ, ← Nat.mul_assoc, Nat.pow_one,
      Nat.mul_div_cancel _ Nat.zero_lt_two]
  mask := by
    rw [BitVec.toNat_ushiftRight, aligned.mask, Nat.shiftRight_eq_div_pow, Nat.pow_one,
      Nat.pow_succ, Nat.mul_div_cancel _ Nat.zero_lt_two]

theorem alignDivisor_eq {turns : Nat} (aligned : Aligned quantity k divisor resultMask)
    (atLeast : quantity ≤ reminder.toNat) (enough : k < turns) :
    ∃ j divisor' resultMask',
      alignDivisor reminder turns divisor resultMask = some (divisor', resultMask') ∧
      Aligned quantity j divisor' resultMask' ∧ divisor'.toNat ≤ reminder.toNat ∧
      (j = k ∨ (j < k ∧ reminder.toNat < quantity * 2 ^ (j + 1))) := by
  induction k generalizing divisor resultMask turns with
  | zero =>
    obtain ⟨turns, rfl⟩ := Nat.exists_eq_succ_of_ne_zero (Nat.pos_iff_ne_zero.mp enough)
    have notBelow : divisor.toNat ≤ reminder.toNat := by
      rwa [aligned.divisor, Nat.pow_zero, Nat.mul_one]
    rw [alignDivisor, if_neg (by rw [ucmp128_128_neg_iff]; omega)]
    exact ⟨0, divisor, resultMask, rfl, aligned, notBelow, Or.inl rfl⟩
  | succ k ih =>
    obtain ⟨turns, rfl⟩ := Nat.exists_eq_succ_of_ne_zero (by omega : turns ≠ 0)
    rw [alignDivisor]
    split_ifs with isBelow
    all_goals rw [ucmp128_128_neg_iff] at isBelow
    · obtain ⟨j, divisor', resultMask', isAligned, aligned', notBelow, isLast⟩ :=
        ih aligned.shift (Nat.lt_of_succ_lt_succ enough)
      refine ⟨j, divisor', resultMask', isAligned, aligned', notBelow, Or.inr ?_⟩
      rw [aligned.divisor] at isBelow
      obtain rfl | ⟨isLess, isLast⟩ := isLast
      · exact ⟨Nat.lt_succ_self j, isBelow⟩
      · exact ⟨Nat.lt_succ_of_lt isLess, isLast⟩
    · exact ⟨k + 1, divisor, resultMask, rfl, aligned, Nat.le_of_not_lt isBelow, Or.inl rfl⟩

/-- The loop takes multiples of the value from the reminder to the quotient, whose lower bits stay
free. -/
theorem divideLoop_eq {m turns : Nat} (isWord : quantity < 2 ^ 64)
    (aligned : Aligned quantity k divisor resultMask) (fits : reminder.toNat < quantity * 2 ^ m)
    (atMost : m ≤ k + 1) (isFree : 2 ^ m ∣ lo.toNat) (isShort : k ≤ 63)
    (enough : m + 65 < turns) :
    ∃ lo' reminder' m', divideLoop turns reminder divisor resultMask lo = some (lo', reminder') ∧
      reminder'.hi = 0 ∧ 2 ^ m' ∣ lo'.toNat ∧ reminder'.toNat < quantity * 2 ^ m' ∧
      lo'.toNat * quantity + reminder'.toNat = lo.toNat * quantity + reminder.toNat := by
  induction m using Nat.strong_induction_on generalizing k reminder divisor resultMask lo turns with
  | _ m ih =>
    obtain ⟨turns, rfl⟩ := Nat.exists_eq_succ_of_ne_zero (by omega : turns ≠ 0)
    rw [divideLoop]
    split_ifs with isHigh
    · have highPos : reminder.hi.toNat ≠ 0 := fun isZero =>
        isHigh (BitVec.eq_of_toNat_eq isZero)
      have isLarge : 2 ^ 64 ≤ reminder.toNat := by
        rw [UInt128.toNat]
        omega
      obtain ⟨j, divisor', resultMask', isAligned, aligned', notBelow, isLast⟩ :=
        @alignDivisor_eq _ reminder _ _ _ turns aligned (by omega) (by omega)
      rw [isAligned, Option.bind_some]
      have isBit : j < m := by
        by_contra notLess
        have grows : 2 ^ m ≤ 2 ^ j := Nat.pow_le_pow_right Nat.zero_lt_two (by omega)
        have multiplied := Nat.mul_le_mul_left quantity grows
        rw [aligned'.divisor] at notBelow
        omega
      have isNext : reminder.toNat < quantity * 2 ^ (j + 1) := by
        obtain rfl | ⟨-, isLast⟩ := isLast
        · have grows : 2 ^ m ≤ 2 ^ (j + 1) := Nat.pow_le_pow_right Nat.zero_lt_two atMost
          have multiplied := Nat.mul_le_mul_left quantity grows
          omega
        · exact isLast
      have isTaken : (lo ||| resultMask').toNat = lo.toNat + 2 ^ j := by
        rw [toNat_or_of_dvd isFree, aligned'.mask]
        rw [aligned'.mask]
        exact Nat.pow_lt_pow_right Nat.one_lt_two isBit
      have isLeft := toNat_udec128_128 notBelow
      have shorter : j ≤ k := by omega
      have freeBits : 2 ^ j ∣ (lo ||| resultMask').toNat := by
        rw [isTaken]
        exact Nat.dvd_add (Nat.dvd_trans (Nat.pow_dvd_pow 2 isBit.le) isFree) (Nat.dvd_refl _)
      have stillFits : (udec128_128 reminder divisor').toNat < quantity * 2 ^ j := by
        rw [Nat.pow_succ, ← Nat.mul_assoc, ← aligned'.divisor] at isNext
        rw [isLeft, ← aligned'.divisor]
        omega
      obtain ⟨lo', reminder', m', isDivided, noHigh, isFree', fits', isSum⟩ :=
        @ih j isBit j (udec128_128 reminder divisor') divisor' resultMask'
          (lo ||| resultMask') turns aligned' stillFits (Nat.le_succ j) freeBits (by omega)
          (by omega)
      refine ⟨lo', reminder', m', isDivided, noHigh, isFree', fits', isSum.trans ?_⟩
      rw [isTaken, isLeft, Nat.add_mul, Nat.mul_comm (2 ^ j), ← aligned'.divisor]
      omega
    · exact ⟨lo, reminder, m, rfl, not_not.mp isHigh, isFree, fits, rfl⟩

/-! ## Quotients in memory -/

variable {store : Store} {result dividend : Nat} {word : BitVec 64}

theorem setHi_self (store : Store) (address : Nat) (hi : BitVec 64) :
    setHi store address hi address = { store address with hi } :=
  if_pos rfl

theorem setHi_other {other address : Nat} (isOther : other ≠ address) (hi : BitVec 64) :
    setHi store address hi other = store other :=
  if_neg isOther

theorem setLo_self (store : Store) (address : Nat) (lo : BitVec 64) :
    setLo store address lo address = { store address with lo } :=
  if_pos rfl

theorem setLo_other {other address : Nat} (isOther : other ≠ address) (lo : BitVec 64) :
    setLo store address lo other = store other :=
  if_neg isOther

/-- The low word of the dividend is there after the high word of the result is stored. -/
theorem lo_setHi (store : Store) (address other : Nat) (hi : BitVec 64) :
    (setHi store address hi other).lo = (store other).lo := by
  rw [setHi]
  split_ifs with isSame
  · rw [isSame]
  · rfl

/-- The high quotient with what is left gives the quotient, and the left reminder fits. -/
theorem divideHigh_eq (positive : word ≠ 0) :
    ∃ hi reminder, divideHigh store result dividend word = (setHi store result hi, reminder) ∧
      reminder.toNat < word.toNat * 2 ^ 64 ∧
      hi.toNat * 2 ^ 64 * word.toNat + reminder.toNat = (store dividend).toNat := by
  have isPos : 0 < word.toNat :=
    Nat.pos_of_ne_zero fun isZero => positive (BitVec.eq_of_toNat_eq isZero)
  have isLo := (store dividend).lo.isLt
  rw [divideHigh]
  simp only
  split_ifs with atLeast
  · rw [setHi_self]
    refine ⟨_, _, rfl, ?_⟩
    have isQuotient := BitVec.toNat_udiv (x := (store dividend).hi) (y := word)
    have isSplit := Nat.div_add_mod (store dividend).hi.toNat word.toNat
    have isLess := Nat.mod_lt (store dividend).hi.toNat isPos
    have isHi := (store dividend).hi.isLt
    have isProduct : ((store dividend).hi / word * word).toNat =
        word.toNat * ((store dividend).hi.toNat / word.toNat) := by
      rw [BitVec.toNat_mul, isQuotient, Nat.mul_comm, Nat.mod_eq_of_lt (by omega)]
    have isLeft : ((store dividend).hi - (store dividend).hi / word * word).toNat =
        (store dividend).hi.toNat % word.toNat := by
      rw [BitVec.toNat_sub, isProduct]
      omega
    have isTwice : (store dividend).hi.toNat / word.toNat * 2 ^ 64 * word.toNat =
        word.toNat * ((store dividend).hi.toNat / word.toNat) * 2 ^ 64 := by
      ring
    rw [UInt128.toNat, UInt128.toNat, isLeft, isQuotient, isTwice]
    constructor
    · omega
    · nth_rewrite 3 [← isSplit]
      ring
  · refine ⟨0, store dividend, rfl, ?_, ?_⟩
    · rw [ge_iff_le, BitVec.le_def, Nat.not_le] at atLeast
      rw [UInt128.toNat]
      omega
    · rw [toNat_zero]
      omega

theorem toNat_udiv128_64 {turns : Nat} (positive : word ≠ 0) (enough : 130 ≤ turns) :
    ∃ store', udiv128_64 turns store result dividend word = some store' ∧
      (store' result).toNat = (store dividend).toNat / word.toNat ∧
      ∀ other, other ≠ result → store' other = store other := by
  have isPos : 0 < word.toNat :=
    Nat.pos_of_ne_zero fun isZero => positive (BitVec.eq_of_toNat_eq isZero)
  rw [udiv128_64]
  split_ifs with isShort
  · refine ⟨_, rfl, ?_, fun other isOther => ?_⟩
    · have isWord : (store dividend).toNat = (store dividend).lo.toNat := by
        rw [UInt128.toNat, isShort, toNat_zero, Nat.zero_mul, Nat.zero_add]
      rw [setLo_self, setHi_self, lo_setHi, isWord, UInt128.toNat, toNat_zero, Nat.zero_mul,
        Nat.zero_add, BitVec.toNat_udiv]
    · rw [setLo_other isOther, setHi_other isOther]
  · obtain ⟨hi, reminder, isHigh, fits, isSum⟩ :=
      @divideHigh_eq store result dividend word positive
    have aligned : Aligned word.toNat 63 (ushiftr128 { hi := word, lo := 0 } 1) (1#64 <<< 63) := by
      have isShifted : UInt128.toNat { hi := word, lo := 0 } = word.toNat * 2 ^ 64 := by
        rw [UInt128.toNat, toNat_zero, Nat.add_zero]
      refine ⟨?_, rfl⟩
      rw [toNat_ushiftr128, isShifted]
      omega
    obtain ⟨lo', reminder', m', isDivided, noHigh, isFree, isSmall, isTotal⟩ :=
      @divideLoop_eq 63 reminder _ _ 0 _ 64 turns word.isLt aligned fits (by omega)
        (by rw [toNat_zero]; exact Nat.dvd_zero _) (by omega) (by omega)
    have isWord : reminder'.lo.toNat = reminder'.toNat := by
      rw [UInt128.toNat, noHigh, toNat_zero, Nat.zero_mul, Nat.zero_add]
    have isQuotient : (reminder'.lo / word).toNat = reminder'.toNat / word.toNat := by
      rw [BitVec.toNat_udiv, isWord]
    have quotientSmall : (reminder'.lo / word).toNat < 2 ^ m' := by
      rw [isQuotient]
      exact Nat.div_lt_of_lt_mul isSmall
    simp only [isHigh, setLo_self, isDivided, Option.map_some]
    refine ⟨_, rfl, ?_, fun other isOther => ?_⟩
    · rw [setLo_self, setLo_self, setHi_self, UInt128.toNat,
        toNat_or_of_dvd isFree quotientSmall, isQuotient, ← isSum]
      rw [toNat_zero, Nat.zero_mul, Nat.zero_add] at isTotal
      have isWhole : hi.toNat * 2 ^ 64 * word.toNat + reminder.toNat =
          reminder'.toNat + (hi.toNat * 2 ^ 64 + lo'.toNat) * word.toNat := by
        rw [← isTotal]
        ring
      rw [isWhole, Nat.add_mul_div_right _ _ isPos]
      simp only
      omega
    · rw [setLo_other isOther, setLo_other isOther, setHi_other isOther]

/-- Products, sums and quotients are exact, and division comes to an end. -/
theorem arithmetic_exact :
    (∀ value factor : BitVec 64,
      (umul64_64 value factor).toNat = value.toNat * factor.toNat) ∧
    (∀ base value : UInt128,
      (uinc128_128 base value).toNat = (base.toNat + value.toNat) % 2 ^ 128) ∧
    (∀ (base : UInt128) (value : BitVec 64),
      (uinc128_64 base value).toNat = (base.toNat + value.toNat) % 2 ^ 128) ∧
    ∀ (store : Store) (result dividend : Nat) (value : BitVec 64), value ≠ 0 →
      ∃ enough, ∀ turns, enough ≤ turns →
        ∃ store', udiv128_64 turns store result dividend value = some store' ∧
          (store' result).toNat = (store dividend).toNat / value.toNat ∧
          ∀ other, other ≠ result → store' other = store other :=
  ⟨toNat_umul64_64, toNat_uinc128_128, toNat_uinc128_64,
    fun _ _ _ _ positive => ⟨130, fun _ enough => toNat_udiv128_64 positive enough⟩⟩

/-- The average of a sum above one word, stored over the sum. -/
theorem arithmetic_exact_average :
    ∃ enough, ∀ turns, enough ≤ turns →
      ∃ store', udiv128_64 turns (fun _ => { hi := 5, lo := 7 }) 0 0 9 = some store' ∧
        (store' 0).toNat = 10248191152060862009 := by
  obtain ⟨enough, areExact⟩ :=
    arithmetic_exact.2.2.2 (fun _ => { hi := 5, lo := 7 }) 0 0 9 (by decide)
  refine ⟨enough, fun turns atLeast => ?_⟩
  obtain ⟨store', isDivided, isQuotient, -⟩ := areExact turns atLeast
  exact ⟨store', isDivided, isQuotient⟩

end

end Zabbix.Algo.Int128
