import Mathlib.Data.UInt
import Zabbix.Expression.Numbers
import Zabbix.Library.Binary64

/-!
# Comparing variants

`zbx_variant_compare` compares integers exactly, numbers of which one is no integer as doubles,
and everything else as text.  How a double is printed is a parameter.
-/

namespace Zabbix.Common.Variant

open Text Expression.Numbers Library.Binary64 List

/-- `zbx_variant_t` -/
inductive ZbxVariant where
  | none
  | ui64 (value : UInt64)
  | dbl (value : ℚ)
  | str (text : Text)
  | bin (data : List UInt8)
deriving DecidableEq

/-- `ZBX_DOUBLE_EPSILON`, which the server raises for databases without double precision. -/
def zbxDoubleEpsilon (dblPrecision : Bool) : ℚ :=
  if dblPrecision then nearest (222 / 10 ^ 18) else nearest (1 / 10 ^ 6)

/-- `fabs(a - b) <= ZBX_DOUBLE_EPSILON` -/
def zbxDoubleCompare (dblPrecision : Bool) (a b : ℚ) : Bool :=
  |nearest (a - b)| ≤ zbxDoubleEpsilon dblPrecision

/-! ## Numbers in text -/

/-- The text without a leading sign. -/
def unsigned (str : Text) : Text :=
  match str with
  | c :: rest => if isSign c then rest else c :: rest
  | [] => []

def isDoubleValidSyntax (str : Text) : Bool :=
  match zbxNumberParse (unsigned str) with
  | some len => (unsigned str).drop len = []
  | none => false

/-- `strtod` on a text of valid syntax; nothing stands for `HUGE_VAL`. -/
def strtod (str : Text) : Option ℚ :=
  let value := nearest (if str.head? = some '-' then -atof (unsigned str) else atof (unsigned str))
  if maxFinite < |value| then none else some value

def isDouble (str : Text) : Bool :=
  isDoubleValidSyntax str && (strtod str).isSome

/-! ## Comparisons -/

/-- `ZBX_RETURN_IF_NOT_EQUAL`, with zero behind it. -/
def orderOf {α : Type} [LT α] [DecidableLT α] (value1 value2 : α) : Ordering :=
  if value1 < value2 then .lt else if value2 < value1 then .gt else .eq

/-- `strcmp` and `memcmp` -/
def compareLists {α : Type} [LT α] [DecidableLT α] [DecidableEq α] (first second : List α) :
    Ordering :=
  if first < second then .lt else if first = second then .eq else .gt

def variantCompareEmpty (value1 value2 : ZbxVariant) : Ordering :=
  if value1 = .none then if value2 = .none then .eq else .lt else .gt

def variantCompareBin : ZbxVariant → ZbxVariant → Ordering
  | .bin data1, .bin data2 =>
    (orderOf data1.length data2.length).then (compareLists data1 data2)
  | .bin _, _ => .gt
  | _, _ => .lt

/-- The conversions of `variant_compare_dbl`, which is called for numbers only. -/
def doubleValue : ZbxVariant → ℚ
  | .dbl value => value
  | .ui64 value => nearest value.toNat
  | .str text => (strtod text).getD 0
  | .none | .bin _ => 0

def variantCompareDbl (dblPrecision : Bool) (value1 value2 : ZbxVariant) : Ordering :=
  if zbxDoubleCompare dblPrecision (doubleValue value1) (doubleValue value2) then .eq
  else orderOf (doubleValue value1) (doubleValue value2)

def variantCompareUi64 (value1 value2 : UInt64) : Ordering :=
  orderOf value1 value2

/-- `zbx_variant_value_desc` of a number or a text. -/
def zbxVariantValueDesc (printDouble : ℚ → Text) : ZbxVariant → Text
  | .ui64 value => Nat.toDigits 10 value.toNat
  | .dbl value => printDouble value
  | .str text => text
  | .none | .bin _ => []

def variantCompareStr (printDouble : ℚ → Text) (value1 value2 : ZbxVariant) : Ordering :=
  compareLists (zbxVariantValueDesc printDouble value1) (zbxVariantValueDesc printDouble value2)

/-- No text, or a text that is a double. -/
def isNumber : ZbxVariant → Bool
  | .str text => isDouble text
  | _ => true

def isBin : ZbxVariant → Bool
  | .bin _ => true
  | _ => false

def zbxVariantCompare (printDouble : ℚ → Text) (dblPrecision : Bool) (value1 value2 : ZbxVariant) :
    Ordering :=
  if value1 = .none ∨ value2 = .none then variantCompareEmpty value1 value2
  else if isBin value1 || isBin value2 then variantCompareBin value1 value2
  else
    match value1, value2 with
    | .ui64 value1, .ui64 value2 => variantCompareUi64 value1 value2
    | _, _ =>
      if isNumber value1 && isNumber value2 then variantCompareDbl dblPrecision value1 value2
      else variantCompareStr printDouble value1 value2

/-! ## Unsigned numbers -/

/-- An unsigned number as it is, or as decimal text. -/
def Represents (number : Nat) : ZbxVariant → Prop
  | .ui64 value => value.toNat = number
  | .str text => text ≠ [] ∧ (∀ c ∈ text, c.isDigit = true) ∧ digitsValue text = number ∧
      number < 2 ^ 64
  | _ => False

variable {printDouble : ℚ → Text} {dblPrecision : Bool} {number1 number2 : Nat}
  {value1 value2 : ZbxVariant}

theorem unsigned_digits {text : Text} (areDigits : ∀ c ∈ text, c.isDigit = true) :
    unsigned text = text := by
  cases text with
  | nil => rfl
  | cons c rest =>
    rw [unsigned, not_isSign_of_isDigit (areDigits c mem_cons_self)]
    rfl

theorem isDoubleValidSyntax_digits {text : Text} (nonempty : text ≠ [])
    (areDigits : ∀ c ∈ text, c.isDigit = true) : isDoubleValidSyntax text = true := by
  have isRun : ∀ c ∈ text, isMantissa c = true := fun c isIn => by
    rw [isMantissa, areDigits c isIn, Bool.true_or]
  have allDigits : text.countP Char.isDigit = text.length := countP_eq_length.mpr areDigits
  have noPoint : text.count '.' = 0 := by
    refine count_eq_zero_of_not_mem fun isIn => ?_
    exact absurd (areDigits '.' isIn) (by decide)
  have isLength : zbxNumberParse text = some text.length := by
    have atEnd := numberLoop_run isRun [] 0 0 0
    rw [append_nil, allDigits, noPoint] at atEnd
    rw [zbxNumberParse, atEnd, numberLoop, checkNumber, Nat.zero_add, if_neg]
    have isLong := length_pos_iff.mpr nonempty
    omega
  rw [isDoubleValidSyntax, unsigned_digits areDigits, isLength]
  exact decide_eq_true drop_length

theorem atof_digits {text : Text} (areDigits : ∀ c ∈ text, c.isDigit = true) :
    atof text = digitsValue text := by
  have isWhole : text.takeWhile Char.isDigit = text := takeWhile_eq_self_iff.mpr areDigits
  have isRest : text.dropWhile Char.isDigit = [] := dropWhile_eq_nil_iff.mpr areDigits
  simp [atof, isWhole, isRest, splitFraction, exponentValue]

theorem nearest_le_maxFinite {number : Nat} (isWord : number < 2 ^ 64) :
    |nearest number| ≤ maxFinite := by
  rw [abs_of_nonneg (nearest_nonneg (Nat.cast_nonneg number))]
  have isFinite : (2 : ℚ) * 2 ^ 64 ≤ maxFinite :=
    calc (2 : ℚ) * 2 ^ 64 ≤ (2 ^ 53 - 1) * 2 ^ 13 := by norm_num
      _ ≤ (2 ^ 53 - 1) * 2 ^ 971 :=
        mul_le_mul_of_nonneg_left (pow_le_pow_right₀ (by norm_num) (by norm_num)) (by norm_num)
  obtain rfl | isPositive := number.eq_zero_or_pos
  · rw [Nat.cast_zero, nearest_zero]
    exact le_trans (by norm_num) isFinite
  · have isBelow : (number : ℚ) ≤ 2 ^ 64 := by exact_mod_cast isWord.le
    calc nearest number ≤ 2 * number := nearest_le_double (by exact_mod_cast isPositive)
      _ ≤ 2 * 2 ^ 64 := by linarith
      _ ≤ maxFinite := isFinite

theorem strtod_digits {text : Text} (areDigits : ∀ c ∈ text, c.isDigit = true)
    (isWord : digitsValue text < 2 ^ 64) : strtod text = some (nearest (digitsValue text)) := by
  have noSign : text.head? ≠ some '-' := fun isSign =>
    absurd (areDigits '-' (mem_of_mem_head? isSign)) (by decide)
  rw [strtod, if_neg noSign, unsigned_digits areDigits, atof_digits areDigits]
  exact if_neg (not_lt.mpr (nearest_le_maxFinite isWord))

theorem Represents.doubleValue {number : Nat} {value : ZbxVariant}
    (represents : Represents number value) :
    isNumber value = true ∧ isBin value = false ∧ value ≠ .none ∧
      doubleValue value = nearest number := by
  cases value with
  | ui64 value =>
    obtain rfl : value.toNat = number := represents
    exact ⟨rfl, rfl, nofun, rfl⟩
  | str text =>
    obtain ⟨nonempty, areDigits, rfl, isWord⟩ := represents
    have isDouble := strtod_digits areDigits isWord
    refine ⟨?_, rfl, nofun, ?_⟩
    · rw [isNumber, Variant.isDouble, isDoubleValidSyntax_digits nonempty areDigits, isDouble]
      rfl
    · rw [Variant.doubleValue, isDouble, Option.getD_some]
  | none => exact represents.elim
  | dbl => exact represents.elim
  | bin => exact represents.elim

theorem zbxDoubleEpsilon_bounds (dblPrecision : Bool) :
    0 ≤ zbxDoubleEpsilon dblPrecision ∧ zbxDoubleEpsilon dblPrecision < 1 := by
  unfold zbxDoubleEpsilon
  split
  · exact ⟨nearest_nonneg (by norm_num), nearest_lt_one (by norm_num) (by norm_num)⟩
  · exact ⟨nearest_nonneg (by norm_num), nearest_lt_one (by norm_num) (by norm_num)⟩

theorem zbxDoubleCompare_iff (number1 number2 : Nat) :
    zbxDoubleCompare dblPrecision (nearest number1) (nearest number2) = true ↔
      nearest number1 = nearest number2 := by
  obtain ⟨notNegative, isSmall⟩ := zbxDoubleEpsilon_bounds dblPrecision
  obtain ⟨rounded1, is1⟩ := exists_nearest_intCast number1
  obtain ⟨rounded2, is2⟩ := exists_nearest_intCast number2
  rw [Int.cast_natCast] at is1 is2
  rw [zbxDoubleCompare, decide_eq_true_eq]
  constructor
  · intro isClose
    by_contra differ
    have notZero : rounded1 - rounded2 ≠ 0 := by
      rintro same
      exact differ (by rw [is1, is2, sub_eq_zero.mp same])
    have isFar : 1 ≤ |nearest number1 - nearest number2| := by
      rw [is1, is2]
      exact_mod_cast Int.one_le_abs notZero
    exact absurd ((one_le_abs_nearest isFar).trans isClose) (not_le.mpr isSmall)
  · intro same
    rw [same, sub_self, nearest_zero, abs_zero]
    exact notNegative

theorem orderOf_eq_iff {α : Type} [LT α] [DecidableLT α] (irrefl : ∀ value : α, ¬value < value)
    (total : ∀ value1 value2 : α, ¬value1 < value2 → ¬value2 < value1 → value1 = value2)
    {first second : α} : orderOf first second = .eq ↔ first = second := by
  unfold orderOf
  constructor
  · intro isEq
    split_ifs at isEq with isLess isGreater
    exact total first second isLess isGreater
  · rintro rfl
    rw [if_neg (irrefl _), if_neg (irrefl _)]

theorem variantCompareDbl_iff (represents1 : Represents number1 value1)
    (represents2 : Represents number2 value2) :
    variantCompareDbl dblPrecision value1 value2 = .eq ↔ nearest number1 = nearest number2 := by
  rw [variantCompareDbl, represents1.doubleValue.2.2.2, represents2.doubleValue.2.2.2]
  split
  · next isClose => exact iff_of_true rfl ((zbxDoubleCompare_iff _ _).mp isClose)
  · exact orderOf_eq_iff lt_irrefl fun _ _ notLess notGreater =>
      le_antisymm (not_lt.mp notGreater) (not_lt.mp notLess)

/-- The numbers are equal, or the doubles nearest to them where not both are given as integers. -/
def SameValue (number1 number2 : Nat) : ZbxVariant → ZbxVariant → Prop
  | .ui64 _, .ui64 _ => number1 = number2
  | _, _ => nearest number1 = nearest number2

theorem zbxVariantCompare_iff (represents1 : Represents number1 value1)
    (represents2 : Represents number2 value2) :
    zbxVariantCompare printDouble dblPrecision value1 value2 = .eq ↔
      SameValue number1 number2 value1 value2 := by
  obtain ⟨isNumber1, notBin1, notNone1, -⟩ := represents1.doubleValue
  obtain ⟨isNumber2, notBin2, notNone2, -⟩ := represents2.doubleValue
  have ofDoubles : variantCompareDbl dblPrecision value1 value2 = .eq ↔ _ :=
    variantCompareDbl_iff represents1 represents2
  rw [zbxVariantCompare.eq_def, if_neg (not_or.mpr ⟨notNone1, notNone2⟩), notBin1, notBin2,
    Bool.false_or, if_neg Bool.false_ne_true, isNumber1, isNumber2, Bool.and_true, if_pos rfl]
  split
  · obtain rfl := represents1
    obtain rfl := represents2
    refine (orderOf_eq_iff UInt64.lt_irrefl fun _ _ notLess notGreater => ?_).trans
      UInt64.toNat_inj.symm
    exact UInt64.le_antisymm (UInt64.not_lt.mp notGreater) (UInt64.not_lt.mp notLess)
  · next notBoth =>
      rw [ofDoubles, SameValue]
      exact notBoth

end Zabbix.Common.Variant
