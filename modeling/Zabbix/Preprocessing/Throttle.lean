import Zabbix.Common.History
import Zabbix.Common.Integers
import Zabbix.Common.Variant

/-!
# Discarding unchanged values

The preprocessing steps that discard a value equal to the one before it, always or only within
a period since the last value that was kept.
-/

namespace Zabbix.Preprocessing.Throttle

open Common.Text Common.History Common.Integers Common.Variant List Option
  Zabbix.Expression.Numbers Zabbix.Library.Binary64

/-- `history_value` and `history_ts` -/
structure StepHistory where
  value : ZbxVariant
  ts : TimeSpec
deriving DecidableEq

/-- The value that a step leaves, which is none when it is discarded, and the history. -/
structure StepResult where
  value : ZbxVariant
  history : StepHistory
deriving DecidableEq

section Steps

variable (compare : ZbxVariant → ZbxVariant → Ordering)

def itemPreprocThrottleValue (value : ZbxVariant) (ts : TimeSpec) (history : StepHistory) :
    StepResult :=
  if compare value history.value = .eq then
    { value := .none, history := { history with value := value } }
  else { value := value, history := { value := value, ts := ts } }

/-- An invalid period is an error, with its message, which also clears the history value. -/
def itemPreprocThrottleTimedValue (value : ZbxVariant) (ts : TimeSpec) (params : Text)
    (history : StepHistory) : Except (Text × StepHistory) StepResult :=
  match isTimeSuffix params (some params.length) with
  | none =>
    .error ("invalid time period: ".toList ++ params, { history with value := .none })
  | some timeout =>
    let period := if value = .none then 0 else ts.sec - history.ts.sec
    if compare value history.value = .eq ∧ period < timeout then
      .ok { value := .none, history := { history with value := value } }
    else .ok { value := value, history := { value := value, ts := ts } }

/-- `ZBX_PREPROC_THROTTLE_VALUE` and `ZBX_PREPROC_THROTTLE_TIMED_VALUE` -/
inductive ThrottleOp where
  | value
  | timedValue (params : Text)
deriving DecidableEq

def throttleStep (op : ThrottleOp) (value : ZbxVariant) (ts : TimeSpec) (history : StepHistory) :
    Except (Text × StepHistory) StepResult :=
  match op with
  | .value => .ok (itemPreprocThrottleValue compare value ts history)
  | .timedValue params => itemPreprocThrottleTimedValue compare value ts params history

end Steps

/-! ## Sequences of values -/

/-- A value of an item. -/
structure Sample where
  variant : ZbxVariant
  number : Nat
  ts : TimeSpec
  represents : Represents number variant

/-- The values that are left of a sequence, each given the history that the one before it left. -/
def throttleRun (compare : ZbxVariant → ZbxVariant → Ordering) (op : ThrottleOp) :
    List Sample → StepHistory → Except (Text × StepHistory) (List ZbxVariant)
  | [], _ => .ok []
  | sample :: samples, history => do
      let result ← throttleStep compare op sample.variant sample.ts history
      let values ← throttleRun compare op samples result.history
      return result.value :: values

def ThrottleOp.HasPeriod : ThrottleOp → Option Nat → Prop
  | .value, period => period = none
  | .timedValue params, period =>
    period = isTimeSuffix params (some params.length) ∧ period ≠ none

/-- The last value kept was kept before, and the period has passed since. -/
def PeriodPassed (samples : List Sample) (kept : Nat → Prop) (index period : Nat) : Prop :=
  ∃ last < index, kept last ∧ (∀ between, last < between → between < index → ¬kept between) ∧
    ∃ first ∈ samples[last]?, ∃ second ∈ samples[index]?,
      (period : Int) ≤ second.ts.sec - first.ts.sec

/-- A value is kept when it is the first, when it differs from the one before, or when the period
has passed. -/
def KeepsChanges (differ : Sample → Sample → Prop) (samples : List Sample) (period : Option Nat)
    (kept : Nat → Prop) : Prop :=
  ∀ index < samples.length, kept index ↔ index = 0 ∨
    (∃ first ∈ samples[index - 1]?, ∃ second ∈ samples[index]?, differ first second) ∨
    ∃ time ∈ period, PeriodPassed samples kept index time

def NumbersDiffer (first second : Sample) : Prop :=
  first.number ≠ second.number

/-- The numbers differ, or the doubles nearest to them where not both are given as integers. -/
def ValuesDiffer (first second : Sample) : Prop :=
  ¬SameValue second.number first.number second.variant first.variant

/-- The step leaves of each value the value or none, and keeps the changes. -/
def RunKeeps (differ : Sample → Sample → Prop) (compare : ZbxVariant → ZbxVariant → Ordering)
    (op : ThrottleOp) (period : Option Nat) (samples : List Sample) (history : StepHistory) : Prop :=
  ∃ values : List ZbxVariant, throttleRun compare op samples history = .ok values ∧
    values.length = samples.length ∧
    (∀ (index : Nat) (sample : Sample) (value : ZbxVariant), samples[index]? = some sample →
      values[index]? = some value → value = .none ∨ value = sample.variant) ∧
    KeepsChanges differ samples period fun index => ∃ value ∈ values[index]?, value ≠ .none

/-! ## One step -/

section Runs

variable {compare : ZbxVariant → ZbxVariant → Ordering} {op : ThrottleOp} {period : Option Nat}
  {sample : Sample} {samples : List Sample} {history : StepHistory}

/-- What decides whether a step keeps a value. -/
def Keeps (compare : ZbxVariant → ZbxVariant → Ordering) (period : Option Nat) (sample : Sample)
    (history : StepHistory) : Prop :=
  compare sample.variant history.value ≠ .eq ∨
    ∃ time ∈ period, (time : Int) ≤ sample.ts.sec - history.ts.sec

open Classical in
/-- The history behind a step. -/
noncomputable def historyAfter (compare : ZbxVariant → ZbxVariant → Ordering)
    (period : Option Nat) (history : StepHistory) (sample : Sample) : StepHistory where
  value := sample.variant
  ts := if Keeps compare period sample history then sample.ts else history.ts

theorem Sample.variant_ne_none (sample : Sample) : sample.variant ≠ .none :=
  sample.represents.doubleValue.2.2.1

open Classical in
theorem throttleStep_eq (hasPeriod : op.HasPeriod period) (sample : Sample)
    (history : StepHistory) :
    throttleStep compare op sample.variant sample.ts history =
      .ok
        { value := if Keeps compare period sample history then sample.variant else .none
          history := historyAfter compare period history sample } := by
  cases op with
  | value =>
    obtain rfl := hasPeriod
    have noPeriod : Keeps compare none sample history ↔
        compare sample.variant history.value ≠ .eq :=
      or_iff_left fun ⟨_, isTime, _⟩ => absurd isTime (not_mem_none _)
    rw [throttleStep, itemPreprocThrottleValue, historyAfter, noPeriod]
    split
    · next isSame => simp only [if_neg (not_not.mpr isSame)]
    · rfl
  | timedValue params =>
    obtain ⟨isPeriod, notNone⟩ := hasPeriod
    obtain ⟨time, rfl⟩ := ne_none_iff_exists'.mp notNone
    have withPeriod : Keeps compare (some time) sample history ↔
        ¬(compare sample.variant history.value = .eq ∧
          sample.ts.sec - history.ts.sec < time) := by
      rw [Keeps, not_and_or, not_lt]
      exact or_congr_right ⟨fun ⟨_, isTime, passed⟩ => some.inj isTime ▸ passed,
        fun passed => ⟨time, rfl, passed⟩⟩
    rw [throttleStep, itemPreprocThrottleTimedValue, ← isPeriod, historyAfter, withPeriod]
    simp only [if_neg sample.variant_ne_none]
    split
    · rfl
    · rfl

/-! ## Histories -/

/-- The history before the value at an index. -/
noncomputable def historyAt (compare : ZbxVariant → ZbxVariant → Ordering) (period : Option Nat)
    (samples : List Sample) (history : StepHistory) (index : Nat) : StepHistory :=
  (samples.take index).foldl (historyAfter compare period) history

theorem historyAt_succ {index : Nat} (isAt : samples[index]? = some sample) :
    historyAt compare period samples history (index + 1) =
      historyAfter compare period (historyAt compare period samples history index) sample := by
  rw [historyAt, take_add_one, isAt, foldl_append]
  rfl

open Classical in
theorem throttleRun_eq (hasPeriod : op.HasPeriod period) (samples : List Sample)
    (history : StepHistory) :
    ∃ values, throttleRun compare op samples history = .ok values ∧
      values.length = samples.length ∧ ∀ index, values[index]? = samples[index]?.map fun sample =>
        if Keeps compare period sample (historyAt compare period samples history index) then
          sample.variant
        else .none := by
  induction samples generalizing history with
  | nil => exact ⟨[], rfl, rfl, fun index => rfl⟩
  | cons sample samples ih =>
    obtain ⟨values, ran, sameLength, areValues⟩ := ih (historyAfter compare period history sample)
    refine ⟨(if Keeps compare period sample history then sample.variant else .none) :: values,
      ?_, congrArg (· + 1) sameLength, ?_⟩
    · rw [throttleRun, throttleStep_eq hasPeriod sample history]
      change (throttleRun compare op samples _).bind _ = _
      rw [ran]
      rfl
    · intro index
      cases index with
      | zero => rfl
      | succ index =>
        rw [getElem?_cons_succ, areValues, getElem?_cons_succ]
        rfl

theorem historyAt_spec {kept : Nat → Prop}
    (isKept : ∀ index, ∀ sample ∈ samples[index]?, kept index ↔
      Keeps compare period sample (historyAt compare period samples history index))
    (isFirst : ∀ sample ∈ samples[0]?, Keeps compare period sample history) (index : Nat)
    (inside : index < samples.length) :
    (∃ sample ∈ samples[index]?,
      (historyAt compare period samples history (index + 1)).value = sample.variant) ∧
    ∃ last ≤ index, kept last ∧ (∀ between, last < between → between ≤ index → ¬kept between) ∧
      ∃ sample ∈ samples[last]?,
        (historyAt compare period samples history (index + 1)).ts = sample.ts := by
  have isAt := getElem?_eq_getElem inside
  generalize samples[index] = sample at isAt
  rw [historyAt_succ isAt]
  refine ⟨⟨sample, isAt, rfl⟩, ?_⟩
  by_cases keeps : Keeps compare period sample (historyAt compare period samples history index)
  · refine ⟨index, le_rfl, (isKept index sample isAt).mpr keeps,
      fun between isAfter isBefore => absurd isAfter (not_lt.mpr isBefore), sample, isAt, ?_⟩
    exact if_pos keeps
  · have notKept := mt (isKept index sample isAt).mp keeps
    cases index with
    | zero => exact absurd (isFirst sample isAt) keeps
    | succ index =>
      obtain ⟨-, last, isBelow, lastKept, noneBetween, first, isLast, isTs⟩ :=
        historyAt_spec isKept isFirst index (Nat.lt_of_succ_lt inside)
      refine ⟨last, Nat.le_succ_of_le isBelow, lastKept, ?_, first, isLast, ?_⟩
      · intro between isAfter isBefore
        obtain rfl | isBefore := Nat.le_succ_iff.mp isBefore |>.symm
        · exact notKept
        · exact noneBetween between isAfter isBefore
      · exact (if_neg keeps).trans isTs

theorem runKeeps {differ : Sample → Sample → Prop} (hasPeriod : op.HasPeriod period)
    (compares : ∀ first second : Sample, compare second.variant first.variant ≠ .eq ↔
      differ first second)
    (isNew : ∀ sample : Sample, compare sample.variant .none ≠ .eq) (noValue : history.value = .none)
    (samples : List Sample) : RunKeeps differ compare op period samples history := by
  obtain ⟨values, ran, sameLength, areValues⟩ : ∃ values, throttleRun compare op samples history =
    .ok values ∧ _ := throttleRun_eq hasPeriod samples history
  have isKept (index : Nat) (sample : Sample) (isAt : sample ∈ samples[index]?) :
      (∃ value ∈ values[index]?, value ≠ .none) ↔
        Keeps compare period sample (historyAt compare period samples history index) := by
    rw [areValues, mem_def.mp isAt, map_some]
    simp only [mem_some_iff, exists_eq_left']
    split
    · next keeps => exact iff_of_true sample.variant_ne_none keeps
    · next notKept => exact iff_of_false (not_not.mpr rfl) notKept
  have isFirst (sample : Sample) : Keeps compare period sample history := by
    rw [Keeps, noValue]
    exact Or.inl (isNew sample)
  refine ⟨values, ran, sameLength, fun index sample value isAt isValue => ?_,
    fun index inside => ?_⟩
  · rw [areValues, isAt, map_some, some.injEq] at isValue
    rw [← isValue]
    split
    · exact Or.inr rfl
    · exact Or.inl rfl
  · have isAt := getElem?_eq_getElem inside
    generalize samples[index] = sample at isAt
    refine (isKept index sample isAt).trans ?_
    cases index with
    | zero => exact iff_of_true (isFirst sample) (Or.inl rfl)
    | succ index =>
      obtain ⟨⟨before, isBefore, isValue⟩, last, isBelow, lastKept, noneBetween, keptSample,
        isLast, isTs⟩ := historyAt_spec isKept (fun sample _ => isFirst sample) index
          (Nat.lt_of_succ_lt inside)
      rw [Keeps, isValue, isTs, compares]
      constructor
      · rintro (differs | ⟨time, isTime, passed⟩)
        · exact Or.inr (Or.inl ⟨before, isBefore, sample, isAt, differs⟩)
        · exact Or.inr (Or.inr ⟨time, isTime, last, Nat.lt_succ_of_le isBelow, lastKept,
            fun between isAfter isEarlier =>
              noneBetween between isAfter (Nat.le_of_lt_succ isEarlier),
            keptSample, isLast, sample, isAt, passed⟩)
      · rintro (isZero | ⟨first, isOne, second, isOther, differs⟩ |
          ⟨time, isTime, other, otherBelow, otherKept, noOther, first, isOne, second, isOther,
            passed⟩)
        · cases isZero
        · obtain rfl := mem_unique isOne isBefore
          obtain rfl := mem_unique isOther isAt
          exact Or.inl differs
        · obtain rfl : other = last := by
            obtain isLess | isSame | isMore := Nat.lt_trichotomy other last
            · exact absurd lastKept (noOther last isLess (Nat.lt_succ_of_le isBelow))
            · exact isSame
            · exact absurd otherKept
                (noneBetween other isMore (Nat.le_of_lt_succ otherBelow))
          obtain rfl := mem_unique isOne isLast
          obtain rfl := mem_unique isOther isAt
          exact Or.inr ⟨time, isTime, passed⟩

end Runs

/-! ## Unsigned numbers -/

variable {op : ThrottleOp} {period : Option Nat} {history : StepHistory}

theorem compare_ne_eq_iff (printDouble : ℚ → Text) (dblPrecision : Bool) (first second : Sample) :
    zbxVariantCompare printDouble dblPrecision second.variant first.variant ≠ .eq ↔
      ValuesDiffer first second :=
  not_congr (zbxVariantCompare_iff second.represents first.represents)

theorem compare_none_ne_eq (printDouble : ℚ → Text) (dblPrecision : Bool) (sample : Sample) :
    zbxVariantCompare printDouble dblPrecision sample.variant .none ≠ .eq := by
  rw [zbxVariantCompare.eq_def, if_pos (Or.inr rfl), variantCompareEmpty,
    if_neg sample.variant_ne_none]
  simp

/-- `3` as an integer, and as text two seconds later. -/
def threeTwice : List Sample :=
  [⟨.ui64 3, 3, ⟨0, 0⟩, rfl⟩,
    ⟨.str ['3'], 3, ⟨2, 0⟩, by decide, List.all_eq_true.mp (by decide), by decide, by decide⟩]

/-- Two neighbours that are nearest to the same double. -/
theorem nearest_above_53_bits : nearest (9007199254740993 : Nat) = nearest (9007199254740992 : Nat) := by
  have isPower (number : Nat) (atLeast : 2 ^ 53 ≤ number) (isBelow : number < 2 ^ 54) :
      quantum (number : ℚ) = 2 := by
    have isLog : Nat.log 2 number = 53 := Nat.log_eq_of_pow_le_of_lt_pow atLeast isBelow
    rw [quantum, abs_of_nonneg (Nat.cast_nonneg number), Int.log_natCast, isLog]
    norm_num
  have isHalf : roundEven ((9007199254740993 : Nat) / 2) = 4503599627370496 := by
    have isFloor : ⌊((9007199254740993 : Nat) / 2 : ℚ)⌋ = 4503599627370496 := by
      rw [Int.floor_eq_iff]
      norm_num
    rw [roundEven, isFloor]
    norm_num
  have isExact : roundEven ((9007199254740992 : Nat) / 2) = 4503599627370496 := by
    rw [show ((9007199254740992 : Nat) / 2 : ℚ) = (4503599627370496 : ℤ) by norm_num]
    exact roundEven_intCast _
  rw [nearest, nearest, isPower 9007199254740993 (by decide) (by decide),
    isPower 9007199254740992 (by decide) (by decide), isHalf, isExact]

/-- A large number as text, and the next one. -/
def largeNeighbours : List Sample :=
  [⟨.str "9007199254740992".toList, 9007199254740992, ⟨0, 0⟩, by decide,
      List.all_eq_true.mp (by decide), by decide, by decide⟩,
    ⟨.str "9007199254740993".toList, 9007199254740993, ⟨1, 0⟩, by decide,
      List.all_eq_true.mp (by decide), by decide, by decide⟩]

end Zabbix.Preprocessing.Throttle
