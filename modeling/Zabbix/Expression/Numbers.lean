import Mathlib.Algebra.Order.Field.Rat
import Zabbix.Common.Text

/-!
# Suffixed numbers

The numbers of expressions, such as `12.345K`, and how the parser reads them.  A
`double` is the rational number it denotes.
-/

namespace Zabbix.Expression.Numbers

open Common.Text List Option

def zbxUnitSymbols : Text :=
  "KMGTsmhdw".toList

def suffix2factor (c : Char) : ℚ :=
  match c with
  | 'K' => 1024
  | 'M' => 1024 * 1024
  | 'G' => 1024 * 1024 * 1024
  | 'T' => 1024 * 1024 * 1024 * 1024
  | 's' => 1
  | 'm' => 60
  | 'h' => 60 * 60
  | 'd' => 24 * 60 * 60
  | 'w' => 7 * 24 * 60 * 60
  | _ => 1

/-! ## Parsing -/

def isExponent (c : Char) : Bool :=
  c = 'e' || c = 'E'

def isSign (c : Char) : Bool :=
  c = '-' || c = '+'

/-- The checks at the end of `zbx_number_parse`. -/
def checkNumber (digits dots len : Nat) : Option Nat :=
  if digits < 1 ∨ 1 < dots then none else some len

def exponentLength (text : Text) : Option Nat :=
  let sign := text.takeWhile isSign |>.take 1
  let digits := (text.drop sign.length).takeWhile Char.isDigit
  if digits = [] then none
  else
    match text.drop (sign.length + digits.length) with
    | c :: _ => if c = '.' || isExponent c then none else some (sign.length + digits.length)
    | [] => some (sign.length + digits.length)

/-- The loop of `zbx_number_parse`. -/
def numberLoop : Text → Nat → Nat → Nat → Option Nat
  | [], digits, dots, len => checkNumber digits dots len
  | c :: rest, digits, dots, len =>
    if c.isDigit then numberLoop rest (digits + 1) dots (len + 1)
    else if c = '.' then numberLoop rest digits (dots + 1) (len + 1)
    else if isExponent c then
      (exponentLength rest).bind fun exponent => checkNumber digits dots (len + 1 + exponent)
    else checkNumber digits dots len

/-- `zbx_number_parse`: the length of the number. -/
def zbxNumberParse (number : Text) : Option Nat :=
  numberLoop number 0 0 0

/-- `zbx_suffixed_number_parse`: the length of the number with its suffix. -/
def zbxSuffixedNumberParse (number : Text) : Option Nat :=
  (zbxNumberParse number).map fun len =>
    match number.drop len with
    | c :: _ => if c.isAlpha && zbxUnitSymbols.contains c then len + 1 else len
    | [] => len

/-! ## Values -/

/-- The number that decimal digits denote. -/
def digitsValue (digits : Text) : Nat :=
  digits.foldl (fun value digit => 10 * value + (digit.toNat - '0'.toNat)) 0

/-- The decimal exponent at the start of a text, which is 0 if there is none. -/
def exponentValue : Text → Int
  | c :: '-' :: rest => if isExponent c then -digitsValue (rest.takeWhile Char.isDigit) else 0
  | c :: '+' :: rest => if isExponent c then digitsValue (rest.takeWhile Char.isDigit) else 0
  | c :: rest => if isExponent c then digitsValue (rest.takeWhile Char.isDigit) else 0
  | [] => 0

/-- The digits after a point, and the rest. -/
def splitFraction : Text → Text × Text
  | '.' :: rest => (rest.takeWhile Char.isDigit, rest.dropWhile Char.isDigit)
  | rest => ([], rest)

/-- `atof` on a text that starts with a digit or a point: the decimal number there. -/
def atof (text : Text) : ℚ :=
  let whole := text.takeWhile Char.isDigit
  let (fraction, rest) := splitFraction (text.dropWhile Char.isDigit)
  digitsValue (whole ++ fraction) * 10 ^ (exponentValue rest - fraction.length)

/-- The number at the start of a text, with its suffix, if it has the given length. -/
def suffixedValue (text : Text) (len : Nat) : ℚ :=
  atof text * suffix2factor ((text.drop (len - 1)).headD '\x00')

def wholeValue (number : Text) : Option ℚ :=
  (zbxSuffixedNumberParse number).bind fun len =>
    if len = number.length then some (suffixedValue number len) else none

/-- `evaluate_string_to_double`; `none` is `ZBX_INFINITY`. -/
def evaluateStringToDouble (input : Text) : Option ℚ :=
  if 1 < input.length ∧ input.head? = some '-' then
    (wholeValue input.tail).map fun value => -value
  else wholeValue input

/-! ## The form of numbers -/

/-- An exponent: its letter, its sign and its digits. -/
structure Exponent where
  letter : Char
  sign : Option Char
  digits : Text
  isLetter : isExponent letter = true
  isSigned : ∀ c ∈ sign, isSign c = true
  areDigits : ∀ c ∈ digits, c.isDigit = true
  nonempty : digits ≠ []

def Exponent.text (exponent : Exponent) : Text :=
  exponent.letter :: (exponent.sign.toList ++ exponent.digits)

def Exponent.value (exponent : Exponent) : Int :=
  if exponent.sign = some '-' then -digitsValue exponent.digits else digitsValue exponent.digits

/-- A number with at least one digit, at most one point, and perhaps an exponent and a unit. -/
structure SuffixedNumber where
  whole : Text
  fraction : Option Text
  exponent : Option Exponent
  suffix : Option Char
  areDigits : ∀ c ∈ whole ++ fraction.getD [], c.isDigit = true
  nonempty : whole ++ fraction.getD [] ≠ []
  isUnit : ∀ c ∈ suffix, c ∈ zbxUnitSymbols

namespace SuffixedNumber

def mantissa (number : SuffixedNumber) : Text :=
  number.whole ++ number.fraction.elim [] fun fraction => '.' :: fraction

def text (number : SuffixedNumber) : Text :=
  number.mantissa ++ (number.exponent.elim [] Exponent.text ++ number.suffix.toList)

def value (number : SuffixedNumber) : ℚ :=
  digitsValue (number.whole ++ number.fraction.getD []) *
    10 ^ (number.exponent.elim 0 Exponent.value - (number.fraction.getD []).length) *
      number.suffix.elim 1 suffix2factor

end SuffixedNumber

/-! ## Reading numbers -/

def isMantissa (c : Char) : Bool :=
  c.isDigit || c = '.'

/-- A predicate does not hold of the first character, if there is one. -/
def StopsAt (continues : Char → Bool) (text : Text) : Prop :=
  ∀ c ∈ text.head?, continues c = false

theorem takeWhile_append_of_stopsAt {continues : Char → Bool} {run rest : Text}
    (isRun : ∀ c ∈ run, continues c = true) (stops : StopsAt continues rest) :
    (run ++ rest).takeWhile continues = run ∧ (run ++ rest).dropWhile continues = rest := by
  rw [takeWhile_append_of_pos isRun, dropWhile_append_of_pos isRun]
  cases rest with
  | nil => simp
  | cons c rest => simp [stops c rfl]

theorem stopsAt_dropWhile (continues : Char → Bool) (text : Text) :
    StopsAt continues (text.dropWhile continues) := by
  intro c isFirst
  have stopped := head?_dropWhile_not continues text
  rw [mem_def.mp isFirst] at stopped
  simpa using stopped

theorem numberLoop_run {run : Text} (isRun : ∀ c ∈ run, isMantissa c = true) (rest : Text)
    (digits dots len : Nat) :
    numberLoop (run ++ rest) digits dots len =
      numberLoop rest (digits + run.countP Char.isDigit) (dots + run.count '.')
        (len + run.length) := by
  induction run generalizing digits dots len with
  | nil => rfl
  | cons c run ih =>
    have later := ih fun other member => isRun other (mem_cons_of_mem _ member)
    rw [cons_append, numberLoop]
    by_cases isDigit : c.isDigit = true
    · have notDot : c ≠ '.' := by
        rintro rfl
        exact absurd isDigit (by decide)
      rw [if_pos isDigit, later, countP_cons_of_pos isDigit, count_cons_of_ne notDot, length_cons]
      congr 1
      · omega
      · omega
    · have isDot : c = '.' := by
        have either := isRun c mem_cons_self
        simpa [isMantissa, isDigit] using either
      rw [if_neg isDigit, if_pos isDot, later, countP_cons_of_neg isDigit, isDot,
        count_cons_self, length_cons]
      congr 1
      · omega
      · omega

/-- A character that a number cannot end before. -/
def isNumberChar (c : Char) : Bool :=
  c.isDigit || c = '.' || c.isAlpha

theorem StopsAt.mono {continues further : Char → Bool} {text : Text}
    (stops : StopsAt further text) (weaker : ∀ c, continues c = true → further c = true) :
    StopsAt continues text := by
  intro c isFirst
  rw [← Bool.not_eq_true]
  intro isOne
  exact absurd (weaker c isOne) (by simp [stops c isFirst])

theorem isAlpha_of_isExponent {c : Char} (isLetter : isExponent c = true) : c.isAlpha = true := by
  simp only [isExponent, Bool.or_eq_true, decide_eq_true_eq] at isLetter
  obtain rfl | rfl := isLetter
  · decide
  · decide

/-- What may follow the digits of a number. -/
def continuesNumber (c : Char) : Bool :=
  c.isDigit || c = '.' || isExponent c

theorem isNumberChar_of_continuesNumber {c : Char} (continues : continuesNumber c = true) :
    isNumberChar c = true := by
  simp only [continuesNumber, isNumberChar, Bool.or_eq_true] at continues ⊢
  exact continues.imp_right isAlpha_of_isExponent

theorem not_isSign_of_isDigit {c : Char} (isDigit : c.isDigit = true) : isSign c = false := by
  rw [isSign, Bool.or_eq_false_iff, decide_eq_false_iff_not, decide_eq_false_iff_not]
  constructor
  · rintro rfl
    exact absurd isDigit (by decide)
  · rintro rfl
    exact absurd isDigit (by decide)

theorem exponentLength_text (exponent : Exponent) {rest : Text}
    (stops : StopsAt continuesNumber rest) :
    exponentLength (exponent.sign.toList ++ exponent.digits ++ rest) =
      some (exponent.sign.toList.length + exponent.digits.length) := by
  have signRun : (exponent.sign.toList ++ (exponent.digits ++ rest)).takeWhile isSign =
      exponent.sign.toList := by
    refine (takeWhile_append_of_stopsAt (fun c member => ?_) ?_).1
    · exact exponent.isSigned c (mem_toList.mp member)
    · obtain ⟨first, others, shape⟩ := exists_cons_of_ne_nil exponent.nonempty
      intro c isFirst
      rw [shape, cons_append, head?_cons, mem_some_iff] at isFirst
      subst isFirst
      exact not_isSign_of_isDigit (exponent.areDigits _ (shape ▸ mem_cons_self))
  have oneSign : exponent.sign.toList.take 1 = exponent.sign.toList := by
    cases exponent.sign <;> rfl
  have digitRun := (takeWhile_append_of_stopsAt exponent.areDigits
    (stops.mono fun c isDigit => by simp [continuesNumber, isDigit])).1
  rw [exponentLength, append_assoc, signRun, oneSign]
  simp only [drop_left, digitRun, exponent.nonempty, if_false]
  rw [← append_assoc, ← length_append, drop_left]
  cases rest with
  | nil => rfl
  | cons c rest =>
    have stopped := stops c rfl
    simp only [continuesNumber, Bool.or_eq_false_iff] at stopped
    simp [stopped]

theorem exponentLength_eq_some {text : Text} {len : Nat}
    (parsed : exponentLength text = some len) (letter : Char)
    (isLetter : isExponent letter = true) :
    ∃ (exponent : Exponent) (rest : Text), exponent.letter = letter ∧
      text = exponent.sign.toList ++ exponent.digits ++ rest ∧
      len = exponent.sign.toList.length + exponent.digits.length ∧
      StopsAt continuesNumber rest := by
  unfold exponentLength at parsed
  obtain ⟨sign, tail, signed, signText, split⟩ : ∃ (sign : Option Char) (tail : Text),
      (∀ c ∈ sign, isSign c = true) ∧ (text.takeWhile isSign).take 1 = sign.toList ∧
      text = sign.toList ++ tail := by
    cases text with
    | nil => exact ⟨none, [], nofun, rfl, rfl⟩
    | cons c rest =>
      by_cases isOne : isSign c = true
      · exact ⟨some c, rest, by simpa using isOne, by simp [isOne], rfl⟩
      · exact ⟨none, c :: rest, nofun, by simp [isOne], rfl⟩
  subst split
  have afterDigits : (sign.toList ++ tail).drop
      (sign.toList.length + (tail.takeWhile Char.isDigit).length) = tail.dropWhile Char.isDigit := by
    rw [← drop_drop, drop_left, drop_length_takeWhile]
  have stops := stopsAt_dropWhile Char.isDigit tail
  simp only [signText, drop_left, afterDigits] at parsed
  split_ifs at parsed with noDigits
  refine ⟨⟨letter, sign, tail.takeWhile Char.isDigit, isLetter, signed,
    fun c member => mem_takeWhile_imp member, noDigits⟩, tail.dropWhile Char.isDigit, rfl,
    ?_, ?_, ?_⟩
  · rw [append_assoc, takeWhile_append_dropWhile]
  · split at parsed
    · split_ifs at parsed
      exact (some.inj parsed).symm
    · exact (some.inj parsed).symm
  · intro c isFirst
    split at parsed
    next first others shape =>
      rw [shape] at isFirst stops
      rw [head?_cons, mem_some_iff] at isFirst
      subst isFirst
      split_ifs at parsed with wrong
      rw [continuesNumber, Bool.or_assoc, stops first rfl, Bool.false_or, Bool.eq_false_iff]
      exact wrong
    next shape =>
      rw [shape] at isFirst
      cases isFirst

theorem not_isMantissa_of_isExponent {c : Char} (isLetter : isExponent c = true) :
    c.isDigit = false ∧ c ≠ '.' := by
  simp only [isExponent, Bool.or_eq_true, decide_eq_true_eq] at isLetter
  obtain rfl | rfl := isLetter
  · decide
  · decide

theorem numberLoop_exponent {c : Char} (isLetter : isExponent c = true) (tail : Text)
    (digits dots len : Nat) :
    numberLoop (c :: tail) digits dots len =
      (exponentLength tail).bind fun exponent => checkNumber digits dots (len + 1 + exponent) := by
  obtain ⟨notDigit, notDot⟩ := not_isMantissa_of_isExponent isLetter
  rw [numberLoop, if_neg (by simp [notDigit]), if_neg notDot, if_pos isLetter]

theorem numberLoop_of_stopsAt {rest : Text} (stops : StopsAt continuesNumber rest)
    (digits dots len : Nat) :
    numberLoop rest digits dots len = checkNumber digits dots len := by
  cases rest with
  | nil => rfl
  | cons c tail =>
    have stopped := stops c rfl
    rw [continuesNumber, Bool.or_eq_false_iff, Bool.or_eq_false_iff,
      decide_eq_false_iff_not] at stopped
    obtain ⟨⟨notDigit, notDot⟩, notLetter⟩ := stopped
    rw [numberLoop, if_neg (by simp [notDigit]), if_neg notDot, if_neg (by simp [notLetter])]

theorem isMantissa_of_mem_mantissa (number : SuffixedNumber) :
    ∀ c ∈ number.mantissa, isMantissa c = true := by
  intro c member
  have digit := number.areDigits c
  rw [SuffixedNumber.mantissa] at member
  rw [isMantissa, Bool.or_eq_true, decide_eq_true_eq]
  cases shape : number.fraction with
  | none =>
    rw [shape] at member digit
    exact Or.inl (digit member)
  | some fraction =>
    rw [shape] at member digit
    simp only [elim_some, mem_append, mem_cons] at member
    obtain isWhole | isDot | isFraction := member
    · exact Or.inl (digit (mem_append_left _ isWhole))
    · exact Or.inr isDot
    · exact Or.inl (digit (mem_append_right _ isFraction))

theorem count_eq_zero_of_digits {digits : Text} (areDigits : ∀ c ∈ digits, c.isDigit = true) :
    digits.count '.' = 0 := by
  rw [count_eq_zero]
  intro member
  exact absurd (areDigits _ member) (by decide)

theorem checkNumber_mantissa (number : SuffixedNumber) (len : Nat) :
    checkNumber (number.mantissa.countP Char.isDigit) (number.mantissa.count '.') len =
      some len := by
  have areDigits := number.areDigits
  have nonempty := length_pos_iff.mpr number.nonempty
  have counted : number.mantissa.countP Char.isDigit =
        (number.whole ++ number.fraction.getD []).length ∧
      number.mantissa.count '.' ≤ 1 := by
    rw [SuffixedNumber.mantissa]
    cases shape : number.fraction with
    | none =>
      rw [shape] at areDigits
      simp only [elim_none, getD_none] at areDigits ⊢
      exact ⟨countP_eq_length.mpr areDigits, (count_eq_zero_of_digits areDigits).le.trans
        (Nat.zero_le 1)⟩
    | some fraction =>
      rw [shape] at areDigits
      simp only [elim_some, getD_some, mem_append] at areDigits ⊢
      have wholeDigits := fun c member => areDigits c (Or.inl member)
      have fractionDigits := fun c member => areDigits c (Or.inr member)
      rw [countP_append, countP_cons_of_neg (by decide), length_append,
        countP_eq_length.mpr wholeDigits, countP_eq_length.mpr fractionDigits,
        count_append, count_cons_self, count_eq_zero_of_digits wholeDigits,
        count_eq_zero_of_digits fractionDigits]
      exact ⟨rfl, le_rfl⟩
  rw [checkNumber, if_neg]
  omega

def exponentText (exponent : Option Exponent) : Text :=
  exponent.elim [] Exponent.text

theorem numberParse_text (number : SuffixedNumber) {rest : Text}
    (stops : StopsAt continuesNumber rest) :
    zbxNumberParse (number.mantissa ++ (exponentText number.exponent ++ rest)) =
      some (number.mantissa.length + (exponentText number.exponent).length) := by
  rw [zbxNumberParse, numberLoop_run (isMantissa_of_mem_mantissa number), Nat.zero_add,
    Nat.zero_add, Nat.zero_add]
  cases number.exponent with
  | none =>
    change numberLoop rest _ _ _ = some (number.mantissa.length + 0)
    rw [numberLoop_of_stopsAt stops, checkNumber_mantissa]
    rfl
  | some exponent =>
    change numberLoop (exponent.letter :: (exponent.sign.toList ++ exponent.digits ++ rest))
      _ _ _ = some (number.mantissa.length + (exponent.sign.toList ++ exponent.digits).length.succ)
    rw [numberLoop_exponent exponent.isLetter, exponentLength_text exponent stops,
      bind_some, checkNumber_mantissa, length_append]
    congr 1
    omega

/-- Digits with at most one point are a whole part and perhaps a fraction. -/
theorem split_mantissa {run : Text} (isRun : ∀ c ∈ run, isMantissa c = true)
    (digits : 0 < run.countP Char.isDigit) (dots : run.count '.' ≤ 1) :
    ∃ number : SuffixedNumber, number.exponent = none ∧ number.suffix = none ∧
      number.mantissa = run := by
  have isDigit {c : Char} (member : c ∈ run) (notDot : c ≠ '.') : c.isDigit = true := by
    have either := isRun c member
    rw [isMantissa, Bool.or_eq_true, decide_eq_true_eq] at either
    exact either.resolve_right notDot
  obtain ⟨digit, member, itsDigit⟩ := countP_pos_iff.mp digits
  by_cases isPointed : '.' ∈ run
  · obtain ⟨whole, fraction, rfl⟩ := append_of_mem isPointed
    rw [count_append, count_cons_self] at dots
    have wholeDots : '.' ∉ whole := count_eq_zero.mp (by omega)
    have fractionDots : '.' ∉ fraction := count_eq_zero.mp (by omega)
    have areDigits : ∀ c ∈ whole ++ fraction, c.isDigit = true := by
      intro c isOne
      obtain isWhole | isFraction := mem_append.mp isOne
      · exact isDigit (mem_append_left _ isWhole) fun same => wholeDots (same ▸ isWhole)
      · exact isDigit (mem_append_right _ (mem_cons_of_mem _ isFraction))
          fun same => fractionDots (same ▸ isFraction)
    have nonempty : whole ++ fraction ≠ [] := by
      rintro isEmpty
      obtain ⟨rfl, rfl⟩ := append_eq_nil_iff.mp isEmpty
      rw [nil_append, mem_singleton] at member
      subst member
      exact absurd itsDigit (by decide)
    exact ⟨⟨whole, some fraction, none, none, areDigits, nonempty, nofun⟩, rfl, rfl, rfl⟩
  · have areDigits : ∀ c ∈ run ++ [], c.isDigit = true := by
      intro c isOne
      rw [append_nil] at isOne
      exact isDigit isOne fun same => isPointed (same ▸ isOne)
    have nonempty : run ++ [] ≠ [] := by
      rw [append_nil]
      exact ne_nil_of_mem member
    exact ⟨⟨run, none, none, none, areDigits, nonempty, nofun⟩, rfl, rfl, append_nil run⟩

theorem checkNumber_eq_some {digits dots len result : Nat}
    (checked : checkNumber digits dots len = some result) :
    0 < digits ∧ dots ≤ 1 ∧ result = len := by
  rw [checkNumber] at checked
  split_ifs at checked with wrong
  exact ⟨by omega, by omega, (some.inj checked).symm⟩

theorem numberParse_eq_some {text : Text} {len : Nat} (parsed : zbxNumberParse text = some len) :
    ∃ (number : SuffixedNumber) (rest : Text), number.suffix = none ∧
      text = number.mantissa ++ (exponentText number.exponent ++ rest) ∧
      len = number.mantissa.length + (exponentText number.exponent).length ∧
      StopsAt continuesNumber rest := by
  obtain ⟨run, tail, split, isRun, stops⟩ : ∃ run tail, text = run ++ tail ∧
      (∀ c ∈ run, isMantissa c = true) ∧ StopsAt isMantissa tail :=
    ⟨text.takeWhile isMantissa, text.dropWhile isMantissa,
      takeWhile_append_dropWhile.symm, fun c member => mem_takeWhile_imp member,
      stopsAt_dropWhile isMantissa text⟩
  subst split
  rw [zbxNumberParse, numberLoop_run isRun, Nat.zero_add, Nat.zero_add, Nat.zero_add] at parsed
  by_cases noExponent : StopsAt isExponent tail
  · have tailStops : StopsAt continuesNumber tail := by
      intro c isFirst
      have stopped := stops c isFirst
      rw [isMantissa] at stopped
      rw [continuesNumber, stopped, noExponent c isFirst]
      rfl
    rw [numberLoop_of_stopsAt tailStops] at parsed
    obtain ⟨someDigit, oneDot, rfl⟩ := checkNumber_eq_some parsed
    obtain ⟨number, noPart, noSuffix, rfl⟩ := split_mantissa isRun someDigit oneDot
    refine ⟨number, tail, noSuffix, ?_, ?_, tailStops⟩
    · rw [noPart]
      rfl
    · rw [noPart]
      rfl
  · obtain ⟨c, others, rfl, isLetter⟩ :
        ∃ c others, tail = c :: others ∧ isExponent c = true := by
      cases tail with
      | nil => exact absurd (show StopsAt isExponent [] from nofun) noExponent
      | cons c others =>
        refine ⟨c, others, rfl, (Bool.not_eq_false _).mp fun notLetter => noExponent ?_⟩
        intro other isFirst
        rw [head?_cons, mem_some_iff] at isFirst
        exact isFirst ▸ notLetter
    rw [numberLoop_exponent isLetter] at parsed
    obtain ⟨exponentLen, isExponentLen, checked⟩ := bind_eq_some_iff.mp parsed
    obtain ⟨exponent, rest, rfl, rfl, rfl, exponentStops⟩ :=
      exponentLength_eq_some isExponentLen c isLetter
    obtain ⟨someDigit, oneDot, rfl⟩ := checkNumber_eq_some checked
    obtain ⟨number, -, noSuffix, rfl⟩ := split_mantissa isRun someDigit oneDot
    refine ⟨{ number with exponent := some exponent }, rest, noSuffix, rfl, ?_, exponentStops⟩
    change _ = number.mantissa.length + exponent.text.length
    rw [Exponent.text, length_cons, length_append]
    omega

/-! ## Suffixes and values -/

theorem isAlpha_of_unit {c : Char} (isUnit : c ∈ zbxUnitSymbols) : c.isAlpha = true :=
  List.all_eq_true.mp (show zbxUnitSymbols.all Char.isAlpha = true by decide) c isUnit

theorem not_continuesNumber_of_unit {c : Char} (isUnit : c ∈ zbxUnitSymbols) :
    continuesNumber c = false := by
  have noUnit : zbxUnitSymbols.all (fun c => !continuesNumber c) = true := by decide
  have notContinued := List.all_eq_true.mp noUnit c isUnit
  rwa [Bool.not_eq_true'] at notContinued

theorem SuffixedNumber.length_text (number : SuffixedNumber) :
    number.text.length = number.mantissa.length + (exponentText number.exponent).length +
      number.suffix.toList.length := by
  rw [SuffixedNumber.text, length_append, length_append, Nat.add_assoc]
  rfl

theorem stopsAt_suffix (number : SuffixedNumber) {rest : Text} (stops : StopsAt isNumberChar rest) :
    StopsAt continuesNumber (number.suffix.toList ++ rest) := by
  cases shape : number.suffix with
  | none => exact stops.mono fun c => isNumberChar_of_continuesNumber
  | some unit =>
    intro c isFirst
    rw [toList_some, singleton_append, head?_cons, mem_some_iff] at isFirst
    exact isFirst ▸ not_continuesNumber_of_unit (number.isUnit unit shape)

theorem suffixedNumberParse_text (number : SuffixedNumber) {rest : Text}
    (stops : StopsAt isNumberChar rest) :
    zbxSuffixedNumberParse (number.text ++ rest) = some number.text.length := by
  have split : number.text ++ rest =
      number.mantissa ++ (exponentText number.exponent ++ (number.suffix.toList ++ rest)) := by
    rw [SuffixedNumber.text, append_assoc, append_assoc]
    rfl
  have afterDrop : (number.text ++ rest).drop
      (number.mantissa.length + (exponentText number.exponent).length) =
        number.suffix.toList ++ rest := by
    rw [split, ← append_assoc, ← length_append, drop_left]
  have parsed := numberParse_text number (stopsAt_suffix number stops)
  rw [← split] at parsed
  rw [zbxSuffixedNumberParse, parsed, map_some, afterDrop, number.length_text]
  cases shape : number.suffix with
  | none =>
    cases rest with
    | nil => rfl
    | cons c rest =>
      have stopped := stops c rfl
      rw [isNumberChar, Bool.or_eq_false_iff] at stopped
      simp [stopped.2]
  | some unit =>
    have isUnit := number.isUnit unit shape
    simp [isAlpha_of_unit isUnit, isUnit]

theorem suffixedNumberParse_eq_some {text : Text} {len : Nat}
    (parsed : zbxSuffixedNumberParse text = some len) :
    ∃ (number : SuffixedNumber) (rest : Text), text = number.text ++ rest ∧
      len = number.text.length := by
  obtain ⟨plainLen, plain, rfl⟩ := map_eq_some_iff.mp parsed
  obtain ⟨number, rest, noSuffix, rfl, rfl, -⟩ := numberParse_eq_some plain
  have plainText : number.text = number.mantissa ++ exponentText number.exponent := by
    rw [SuffixedNumber.text, noSuffix, toList_none, append_nil]
    rfl
  rw [← append_assoc, ← length_append, drop_left, ← plainText]
  cases rest with
  | nil => exact ⟨number, [], rfl, rfl⟩
  | cons c rest =>
    dsimp only
    split_ifs with isSuffix
    · rw [Bool.and_eq_true, contains_iff_mem] at isSuffix
      refine ⟨{ number with
          suffix := some c
          isUnit := fun unit isOne => by
            rw [mem_some_iff] at isOne
            exact isOne ▸ isSuffix.2 }, rest, ?_, ?_⟩
      · rw [plainText, SuffixedNumber.text, toList_some, append_assoc,
          append_assoc, append_assoc]
        rfl
      · rw [plainText, SuffixedNumber.length_text, length_append]
        rfl
    · exact ⟨number, c :: rest, rfl, rfl⟩

theorem exponentValue_unsigned (c : Char) {rest : Text} (stops : StopsAt isSign rest) :
    exponentValue (c :: rest) =
      if isExponent c then (digitsValue (rest.takeWhile Char.isDigit) : Int) else 0 := by
  have notSign (sign : Char) (tail : Text) (isOne : isSign sign = true) : rest ≠ sign :: tail := by
    rintro rfl
    exact absurd isOne (by simp [stops sign rfl])
  rw [exponentValue]
  · intro tail
    exact notSign '-' tail rfl
  · intro tail
    exact notSign '+' tail rfl

theorem exponentValue_text (exponent : Exponent) {rest : Text}
    (stops : StopsAt Char.isDigit rest) :
    exponentValue (exponent.text ++ rest) = exponent.value := by
  have digitRun := (takeWhile_append_of_stopsAt exponent.areDigits stops).1
  rw [Exponent.text, cons_append, append_assoc, Exponent.value]
  cases shape : exponent.sign with
  | none =>
    have unsigned : StopsAt isSign (exponent.digits ++ rest) := by
      obtain ⟨first, others, digits⟩ := exists_cons_of_ne_nil exponent.nonempty
      intro c isFirst
      rw [digits, cons_append, head?_cons, mem_some_iff] at isFirst
      exact isFirst ▸ not_isSign_of_isDigit
        (exponent.areDigits first (digits ▸ mem_cons_self))
    rw [toList_none, nil_append, exponentValue_unsigned _ unsigned,
      if_pos exponent.isLetter, digitRun]
    rfl
  | some sign =>
    have isSigned := exponent.isSigned sign shape
    rw [isSign, Bool.or_eq_true, decide_eq_true_eq, decide_eq_true_eq] at isSigned
    rw [toList_some, singleton_append]
    obtain rfl | rfl := isSigned
    · rw [exponentValue, if_pos exponent.isLetter, digitRun, if_pos rfl]
    · rw [exponentValue, if_pos exponent.isLetter, digitRun, if_neg (by decide)]

theorem exponentValue_of_stopsAt {rest : Text} (stops : StopsAt isExponent rest) :
    exponentValue rest = 0 := by
  cases rest with
  | nil => rfl
  | cons c rest =>
    have stopped := stops c rfl
    unfold exponentValue
    split
    · simp_all
    · simp_all
    · simp_all
    · rfl

/-- The exponent, the unit and what follows do not continue the digits before them. -/
theorem stopsAt_tail (number : SuffixedNumber) {rest : Text} (stops : StopsAt isNumberChar rest) :
    StopsAt isMantissa
      (exponentText number.exponent ++ (number.suffix.toList ++ rest)) := by
  intro c isFirst
  cases shape : number.exponent with
  | some exponent =>
    rw [shape, exponentText, elim_some, Exponent.text, cons_append, head?_cons,
      mem_some_iff] at isFirst
    obtain ⟨notDigit, notDot⟩ := not_isMantissa_of_isExponent exponent.isLetter
    rw [← isFirst, isMantissa, notDigit, decide_eq_false notDot]
    rfl
  | none =>
    rw [shape, exponentText, elim_none, nil_append] at isFirst
    have stopped := stopsAt_suffix number stops c isFirst
    rw [continuesNumber, Bool.or_eq_false_iff] at stopped
    exact stopped.1

theorem atof_text (number : SuffixedNumber) {rest : Text} (stops : StopsAt isNumberChar rest) :
    atof (number.text ++ rest) =
      digitsValue (number.whole ++ number.fraction.getD []) *
        10 ^ (number.exponent.elim 0 Exponent.value - (number.fraction.getD []).length) := by
  have areDigits := number.areDigits
  have tailStops := stopsAt_tail number stops
  have digitStops : StopsAt Char.isDigit
      (exponentText number.exponent ++ (number.suffix.toList ++ rest)) :=
    tailStops.mono fun c isDigit => by simp [isMantissa, isDigit]
  have exponent : exponentValue (exponentText number.exponent ++ (number.suffix.toList ++ rest)) =
      number.exponent.elim 0 Exponent.value := by
    cases shape : number.exponent with
    | some exponent =>
      exact exponentValue_text exponent ((stopsAt_suffix number stops).mono
        fun c isDigit => by simp [continuesNumber, isDigit])
    | none =>
      exact exponentValue_of_stopsAt ((stopsAt_suffix number stops).mono
        fun c isLetter => by simp [continuesNumber, isLetter])
  have split : number.text ++ rest =
      number.mantissa ++ (exponentText number.exponent ++ (number.suffix.toList ++ rest)) := by
    rw [SuffixedNumber.text, append_assoc, append_assoc]
    rfl
  rw [split, SuffixedNumber.mantissa]
  generalize exponentText number.exponent ++ (number.suffix.toList ++ rest) = tail at *
  cases shape : number.fraction with
  | none =>
    rw [shape, getD_none, append_nil] at areDigits
    obtain ⟨isWhole, isTail⟩ := takeWhile_append_of_stopsAt areDigits digitStops
    rw [elim_none, append_nil, atof, isWhole, isTail]
    have noFraction : splitFraction tail = ([], tail) := by
      rw [splitFraction]
      rintro others rfl
      exact absurd (tailStops '.' rfl) (by decide)
    simp only [noFraction, exponent, getD_none]
  | some fraction =>
    rw [shape, getD_some] at areDigits
    have wholeDigits : ∀ c ∈ number.whole, c.isDigit = true :=
      fun c member => areDigits c (mem_append_left _ member)
    have fractionDigits : ∀ c ∈ fraction, c.isDigit = true :=
      fun c member => areDigits c (mem_append_right _ member)
    have pointStops : StopsAt Char.isDigit ('.' :: (fraction ++ tail)) := by
      intro c isFirst
      rw [head?_cons, mem_some_iff] at isFirst
      exact isFirst ▸ rfl
    obtain ⟨isWhole, isPoint⟩ := takeWhile_append_of_stopsAt wholeDigits pointStops
    obtain ⟨isFraction, isTail⟩ := takeWhile_append_of_stopsAt fractionDigits digitStops
    rw [elim_some, append_assoc, cons_append, atof, isWhole, isPoint]
    simp only [splitFraction, isFraction, isTail, exponent, getD_some]

theorem SuffixedNumber.mantissa_ne_nil (number : SuffixedNumber) : number.mantissa ≠ [] := by
  intro isEmpty
  apply number.nonempty
  rw [SuffixedNumber.mantissa, append_eq_nil_iff] at isEmpty
  cases shape : number.fraction with
  | none => simp [isEmpty.1]
  | some fraction =>
    rw [shape] at isEmpty
    cases isEmpty.2

/-- A number starts with a digit or a point. -/
theorem SuffixedNumber.text_eq_cons (number : SuffixedNumber) :
    ∃ first rest, number.text = first :: rest ∧ isMantissa first = true := by
  obtain ⟨first, rest, shape⟩ := exists_cons_of_ne_nil number.mantissa_ne_nil
  refine ⟨first, rest ++ (number.exponent.elim [] Exponent.text ++ number.suffix.toList), ?_, ?_⟩
  · rw [SuffixedNumber.text, shape]
    rfl
  · exact isMantissa_of_mem_mantissa number first (shape ▸ mem_cons_self)

theorem suffix2factor_of_isMantissa {c : Char} (isOne : isMantissa c = true) :
    suffix2factor c = 1 := by
  unfold suffix2factor
  split
  all_goals first | rfl | exact absurd isOne (by decide)

theorem lastFactor_text (number : SuffixedNumber) (rest : Text) :
    suffix2factor (((number.text ++ rest).drop (number.text.length - 1)).headD '\x00') =
      number.suffix.elim 1 suffix2factor := by
  obtain ⟨front, last, shape⟩ : ∃ front last, number.text = front ++ [last] ∧
      suffix2factor last = number.suffix.elim 1 suffix2factor := by
    cases suffixShape : number.suffix with
    | some unit =>
      refine ⟨number.mantissa ++ exponentText number.exponent, unit, ?_, rfl⟩
      rw [SuffixedNumber.text, suffixShape, append_assoc]
      rfl
    | none =>
      have plainText : number.text = number.mantissa ++ exponentText number.exponent := by
        rw [SuffixedNumber.text, suffixShape, toList_none, append_nil]
        rfl
      cases exponentShape : number.exponent with
      | some exponent =>
        obtain ⟨front, last, digits⟩ : ∃ front last, exponent.digits = front ++ [last] :=
          ⟨_, _, (dropLast_concat_getLast exponent.nonempty).symm⟩
        refine ⟨number.mantissa ++ exponent.letter :: (exponent.sign.toList ++ front), last, ?_, ?_⟩
        · rw [plainText, exponentShape, exponentText, elim_some, Exponent.text, digits]
          simp
        · apply suffix2factor_of_isMantissa
          have isDigit := exponent.areDigits last (by simp [digits])
          simp [isMantissa, isDigit]
      | none =>
        obtain ⟨front, last, mantissa⟩ : ∃ front last, number.mantissa = front ++ [last] :=
          ⟨_, _, (dropLast_concat_getLast number.mantissa_ne_nil).symm⟩
        refine ⟨front, last, ?_, suffix2factor_of_isMantissa ?_⟩
        · rw [plainText, exponentShape, exponentText, elim_none, append_nil,
            mantissa]
        · exact isMantissa_of_mem_mantissa number last (by simp [mantissa])
  rw [shape.1, length_append, length_singleton, Nat.add_sub_cancel, append_assoc, drop_left]
  exact shape.2

theorem suffixedValue_text (number : SuffixedNumber) {rest : Text}
    (stops : StopsAt isNumberChar rest) :
    suffixedValue (number.text ++ rest) number.text.length = number.value := by
  rw [suffixedValue, atof_text number stops, lastFactor_text]
  rfl

theorem wholeValue_eq_some_iff {input : Text} {value : ℚ} :
    wholeValue input = some value ↔
      ∃ number : SuffixedNumber, input = number.text ∧ value = number.value := by
  have atEnd : StopsAt isNumberChar [] := nofun
  rw [wholeValue, bind_eq_some_iff]
  constructor
  · rintro ⟨len, parsed, isValue⟩
    obtain ⟨number, rest, rfl, rfl⟩ := suffixedNumberParse_eq_some parsed
    split_ifs at isValue with sameLength
    rw [length_append, Nat.left_eq_add, length_eq_zero_iff] at sameLength
    subst sameLength
    rw [suffixedValue_text number atEnd, some.injEq] at isValue
    exact ⟨number, append_nil _, isValue.symm⟩
  · rintro ⟨number, rfl, rfl⟩
    have parsed := suffixedNumberParse_text number atEnd
    have read := suffixedValue_text number atEnd
    rw [append_nil] at parsed read
    exact ⟨_, parsed, by rw [if_pos rfl, read]⟩

theorem evaluateStringToDouble_eq_some_iff {input : Text} {value : ℚ} :
    evaluateStringToDouble input = some value ↔
      ∃ number : SuffixedNumber, (input = number.text ∧ value = number.value) ∨
        (input = '-' :: number.text ∧ value = -number.value) := by
  have notMinus (number : SuffixedNumber) (rest : Text) : number.text ≠ '-' :: rest := by
    obtain ⟨first, others, shape, isOne⟩ := number.text_eq_cons
    intro same
    rw [shape, List.cons.injEq] at same
    rw [same.1] at isOne
    exact absurd isOne (by decide)
  rw [evaluateStringToDouble]
  split_ifs with negative
  · obtain ⟨long, isMinus⟩ := negative
    obtain ⟨rest, rfl⟩ := head?_eq_some_iff.mp isMinus
    rw [tail_cons, map_eq_some_iff]
    constructor
    · rintro ⟨positive, isValue, rfl⟩
      obtain ⟨number, rfl, rfl⟩ := wholeValue_eq_some_iff.mp isValue
      exact ⟨number, Or.inr ⟨rfl, rfl⟩⟩
    · rintro ⟨number, ⟨isText, -⟩ | ⟨isText, rfl⟩⟩
      · exact absurd isText.symm (notMinus number rest)
      · exact ⟨number.value, wholeValue_eq_some_iff.mpr ⟨number, (List.cons.inj isText).2, rfl⟩,
          rfl⟩
  · rw [wholeValue_eq_some_iff]
    refine exists_congr fun number => (or_iff_left ?_).symm
    rintro ⟨rfl, -⟩
    apply negative
    obtain ⟨first, others, shape, -⟩ := number.text_eq_cons
    simp [shape]

end Zabbix.Expression.Numbers
