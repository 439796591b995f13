import Mathlib.Order.Bounds.Basic
import Zabbix.Maintenance.Periods

/-!
# Scheduled maintenance periods

When the starts of a period are scheduled, and when a running period is one that was scheduled.
The search for the last start may end at a day before the maintenance is active.
-/

namespace Zabbix.Maintenance.Schedule

open Periods Option

/-- The local day of a time. -/
def dayOf (utcOffset clock : Int) : Int :=
  (clock + utcOffset) / secPerDay

def startOf (utcOffset : Int) (period : DcMaintenancePeriod) (day : Int) : Int :=
  day * secPerDay - utcOffset + period.startTime

def weekOf (day : Int) : Int :=
  (day + 3) / 7

def onWeekday (period : DcMaintenancePeriod) (day : Int) : Prop :=
  period.dayofweek.testBit ((day + 3) % 7).toNat = true

/-- The first to fourth or the last one of its day of the week in a month. -/
def IsNth (every : Int) (day : Int) : Prop :=
  if every = 5 then zbxDayInMonth (civil day).1 (civil day).2.1 < (civil day).2.2 + 7
  else ((civil day).2.2 - 1) / 7 + 1 = every

/-- The day matches the rule of the period, counted from the day or the week of `active_since`. -/
def Scheduled (utcOffset activeSince : Int) (period : DcMaintenancePeriod) (day : Int) : Prop :=
  match period.type with
  | .onetime => False
  | .daily => (day - dayOf utcOffset activeSince) % period.every = 0
  | .weekly =>
    (weekOf day - weekOf (dayOf utcOffset activeSince)) % period.every = 0 ∧
      onWeekday period day
  | .monthly =>
    period.month.testBit ((civil day).2.1 - 1).toNat = true ∧
      if period.day ≠ 0 then (civil day).2.2 = period.day
      else onWeekday period day ∧ IsNth period.every day

section

variable (utcOffset : Int) (maintenance : DcMaintenance) (period : DcMaintenancePeriod) (now : Int)

/-- A scheduled start whose period is running. -/
def Due (since : Int) : Prop :=
  (∃ day, since = startOf utcOffset period day ∧
    Scheduled utcOffset maintenance.activeSince period day) ∧
    maintenance.activeSince ≤ since ∧ since ≤ now ∧
    now < min (since + period.period) maintenance.activeUntil

/-- The period is running exactly when one was scheduled, from the latest start on. -/
def RunsAsScheduled : Prop :=
  ((dcCheckMaintenancePeriod utcOffset maintenance period now).isSome = true ↔
    ∃ since, Due utcOffset maintenance period now since) ∧
    ∀ running ∈ dcCheckMaintenancePeriod utcOffset maintenance period now,
      IsGreatest { since | Due utcOffset maintenance period now since } running.runningSince ∧
        running.runningUntil =
          min (running.runningSince + period.period) maintenance.activeUntil

/-- Some start is scheduled while the maintenance is active, up to now. -/
def StartsInTime : Prop :=
  ∃ day, Scheduled utcOffset maintenance.activeSince period day ∧
    maintenance.activeSince ≤ startOf utcOffset period day ∧ startOf utcOffset period day ≤ now

/-- The time of the day has come while the maintenance is active. -/
def SomeDayStarts : Prop :=
  ∃ day, maintenance.activeSince ≤ startOf utcOffset period day ∧
    startOf utcOffset period day ≤ now

/-- The day before `active_since` where the search ends when no start is scheduled in time: the
day of activation, the last scheduled day in the week of activation or the day before that week,
and the last day that starts before `active_since`. -/
def EndsEarly (day : Int) : Prop :=
  let activation := dayOf utcOffset maintenance.activeSince
  let isEarly (day : Int) := startOf utcOffset period day < maintenance.activeSince
  match period.type with
  | .onetime => False
  | .daily => SomeDayStarts utcOffset maintenance period now ∧ day = activation
  | .weekly =>
    SomeDayStarts utcOffset maintenance period now ∧
      (weekOf (day + 1) = weekOf activation ∧ weekOf day ≠ weekOf activation ∨
        weekOf day = weekOf activation ∧ isEarly day ∧
          Scheduled utcOffset maintenance.activeSince period day) ∧
      ∀ later, day < later → isEarly later →
        ¬Scheduled utcOffset maintenance.activeSince period later
  | .monthly => isEarly day ∧ startOf utcOffset period day ≤ now ∧
      ∀ later, day < later → startOf utcOffset period later ≤ now → ¬isEarly later

end

/-! ## Days -/

section

variable {utcOffset now : Int} {maintenance : DcMaintenance} {period : DcMaintenancePeriod}
  {day latest : Int}

/-- The start time is one of a day. -/
def InDay (period : DcMaintenancePeriod) : Prop :=
  0 ≤ period.startTime ∧ period.startTime < secPerDay

theorem dcSubstractTime_eq (utcOffset minuend subtrahend : Int) :
    dcSubstractTime utcOffset minuend subtrahend = minuend - subtrahend := by
  simp only [dcSubstractTime, zbxGetTimezoneOffset, Int.sub_self, Int.sub_zero]

theorem daySeconds_localtime (utcOffset clock : Int) :
    daySeconds (localtime utcOffset clock) = (clock + utcOffset) % secPerDay := by
  simp only [daySeconds, localtime, secPerHour, secPerMin, secPerDay]
  omega

theorem weekday_localtime (utcOffset clock : Int) :
    weekday (localtime utcOffset clock) = (dayOf utcOffset clock + 3) % 7 := by
  have isDay : (localtime utcOffset clock).tmWday = (dayOf utcOffset clock + 4) % 7 := rfl
  by_cases isSunday : (dayOf utcOffset clock + 4) % 7 = 0
  · rw [weekday, isDay, if_pos isSunday]
    omega
  · rw [weekday, isDay, if_neg isSunday]
    omega

theorem dayOf_startOf (inDay : InDay period) (utcOffset day : Int) :
    dayOf utcOffset (startOf utcOffset period day) = day := by
  simp only [InDay, dayOf, startOf, secPerDay] at inDay ⊢
  omega

theorem startOf_le_iff {other : Int} :
    startOf utcOffset period day ≤ startOf utcOffset period other ↔ day ≤ other := by
  simp only [startOf, secPerDay]
  omega

theorem startOf_sub_day (utcOffset day : Int) :
    dcSubstractTime utcOffset (startOf utcOffset period day) secPerDay =
      startOf utcOffset period (day - 1) := by
  rw [dcSubstractTime_eq]
  simp only [startOf, secPerDay]
  omega

theorem startOf_lt_of_dayOf_lt (day : Int) (inDay : InDay period) {clock : Int}
    (isEarlier : day < dayOf utcOffset clock) : startOf utcOffset period day < clock := by
  simp only [InDay, dayOf, startOf, secPerDay] at inDay isEarlier ⊢
  omega

theorem lt_startOf_of_dayOf_lt (day : Int) (inDay : InDay period) {clock : Int}
    (isLater : dayOf utcOffset clock < day) : clock < startOf utcOffset period day := by
  simp only [InDay, dayOf, startOf, secPerDay] at inDay isLater ⊢
  omega

theorem dcCheckMaintenancePeriod_eq (inDay : InDay period) (utcOffset : Int)
    (maintenance : DcMaintenance) (now : Int) :
    ∃ latest, (∀ day, startOf utcOffset period day ≤ now ↔ day ≤ latest) ∧
      dcCheckMaintenancePeriod utcOffset maintenance period now =
        (dcCalculateMaintenancePeriod utcOffset maintenance period
          (startOf utcOffset period latest)).filter fun running =>
            running.runningSince ≤ now && now < running.runningUntil := by
  have isStart : now - (now + utcOffset) % secPerDay - -period.startTime =
      startOf utcOffset period (dayOf utcOffset now) := by
    simp only [dayOf, startOf, secPerDay]
    omega
  have isTime : period.startTime =
      (startOf utcOffset period (dayOf utcOffset now) + utcOffset) % secPerDay := by
    simp only [InDay, startOf, secPerDay] at inDay ⊢
    omega
  have isYesterday := dcSubstractTime_eq utcOffset
    (startOf utcOffset period (dayOf utcOffset now)) secPerDay
  simp only [dcCheckMaintenancePeriod, dcSubstractTime_eq, daySeconds_localtime, isStart]
  rw [if_neg (not_not.mpr isTime), ← isYesterday, startOf_sub_day]
  by_cases isBefore : now < startOf utcOffset period (dayOf utcOffset now)
  · refine ⟨dayOf utcOffset now - 1, fun day => ?_, by rw [if_pos isBefore]⟩
    simp only [InDay, dayOf, startOf, secPerDay] at inDay isBefore ⊢
    omega
  · refine ⟨dayOf utcOffset now, fun day => ?_, by rw [if_neg isBefore]⟩
    simp only [InDay, dayOf, startOf, secPerDay] at inDay isBefore ⊢
    omega

theorem searchBack_spec (period : DcMaintenancePeriod) (utcOffset : Int) (accepts : Int → Bool)
    (activeSince latest : Int) :
    ∃ day ≤ latest, searchBack utcOffset accepts activeSince (startOf utcOffset period latest) =
        startOf utcOffset period day ∧
      (startOf utcOffset period day < activeSince ∨
        accepts (startOf utcOffset period day) = true) ∧
      ∀ later, day < later → later ≤ latest →
        activeSince ≤ startOf utcOffset period later ∧
          accepts (startOf utcOffset period later) = false := by
  generalize isStart : startOf utcOffset period latest = startDate
  fun_induction searchBack utcOffset accepts activeSince startDate generalizing latest with
  | case1 startDate isEarly =>
    exact ⟨latest, le_rfl, isStart.symm, Or.inl (isStart ▸ isEarly), fun later isAfter isBefore =>
      absurd isAfter (not_lt.mpr isBefore)⟩
  | case2 startDate notEarly accepted =>
    exact ⟨latest, le_rfl, isStart.symm, Or.inr (isStart ▸ accepted),
      fun later isAfter isBefore => absurd isAfter (not_lt.mpr isBefore)⟩
  | case3 startDate notEarly notAccepted ih =>
    subst isStart
    obtain ⟨day, isBefore, isEnd, ended, others⟩ :=
      ih (latest - 1) (startOf_sub_day utcOffset latest).symm
    refine ⟨day, by omega, isEnd, ended, fun later isAfter isUpTo => ?_⟩
    obtain rfl | isLess := isUpTo.eq_or_lt
    · exact ⟨not_lt.mp notEarly, Bool.not_eq_true _ ▸ notAccepted⟩
    · exact others later isAfter (by omega)

/-! ## The checks of a day -/

theorem civil_mday_le (day : Int) : (civil day).2.2 ≤ 31 := by
  have ofYear (dayOfYear : Int) :
      dayOfYear - (153 * ((5 * dayOfYear + 2) / 153) + 2) / 5 + 1 ≤ 31 := by
    omega
  simp only [civil]
  split
  · exact ofYear _
  · exact ofYear _

theorem zbxDayInMonth_bounds (year mon : Int) :
    28 ≤ zbxDayInMonth year mon ∧ zbxDayInMonth year mon ≤ 31 := by
  unfold zbxDayInMonth
  split
  · next isMonth =>
      have lengths : ∀ index < 12, 28 ≤
            [31, 28, 31, 30, 31, 30, 31, 31, 30, 31, 30, 31].getD index (0 : Int) ∧
          [31, 28, 31, 30, 31, 30, 31, 31, 30, 31, 30, 31].getD index (0 : Int) ≤
            if index = 1 then 28 else 31 := by
        decide
      obtain ⟨atLeast, atMost⟩ := lengths (mon - 1).toNat (by omega)
      split
      · next isLeap =>
          rw [if_pos (by omega)] at atMost
          omega
      · split at atMost <;> omega
  · decide

theorem isNth_iff (every day : Int) :
    (if every = 5 ∧ ((civil day).2.2 - 1) / 7 + 1 = 4 then
        decide (zbxDayInMonth (civil day).1 (civil day).2.1 < (civil day).2.2 + 7)
      else decide (every = ((civil day).2.2 - 1) / 7 + 1)) = true ↔ IsNth every day := by
  have isDay := civil_mday_le day
  obtain ⟨atLeast, atMost⟩ := zbxDayInMonth_bounds (civil day).1 (civil day).2.1
  unfold IsNth
  split
  · next isLast =>
      rw [if_pos isLast.1, decide_eq_true_eq]
  · next notLast =>
      rw [decide_eq_true_eq]
      split
      · next isFive => omega
      · exact eq_comm

theorem acceptsMonthly_iff (inDay : InDay period) (isMonthly : period.type = .monthly)
    (utcOffset activeSince day : Int) :
    acceptsMonthly utcOffset period (startOf utcOffset period day) = true ↔
      Scheduled utcOffset activeSince period day := by
  have isDate : (startOf utcOffset period day + utcOffset) / secPerDay = day :=
    dayOf_startOf inDay utcOffset day
  have onDay : period.dayofweek.testBit
      (weekday (localtime utcOffset (startOf utcOffset period day))).toNat = true ↔
        onWeekday period day := by
    rw [weekday_localtime, dayOf_startOf inDay, onWeekday]
  have isYear (year : Int) : 1900 + (year - 1900) = year := by omega
  rw [acceptsMonthly, Scheduled, isMonthly]
  simp only [Bool.and_eq_true]
  refine and_congr ?_ ?_
  · simp only [localtime, isDate]
  · split
    · simp only [localtime, isDate, decide_eq_true_eq]
      exact eq_comm
    · rw [Bool.and_eq_true, onDay, ← isNth_iff]
      simp only [localtime, isDate, isYear, Int.sub_add_cancel]

theorem weekStart_eq (utcOffset activeSince : Int) :
    dcSubstractTime utcOffset activeSince
        (weekday (localtime utcOffset activeSince) * secPerDay +
          daySeconds (localtime utcOffset activeSince)) =
      (7 * weekOf (dayOf utcOffset activeSince) - 3) * secPerDay - utcOffset := by
  rw [dcSubstractTime_eq, weekday_localtime, daySeconds_localtime]
  simp only [weekOf, dayOf, secPerDay]
  omega

theorem acceptsWeekly_iff (inDay : InDay period) (isWeekly : period.type = .weekly)
    (utcOffset activeSince day : Int) :
    acceptsWeekly utcOffset period
        ((7 * weekOf (dayOf utcOffset activeSince) - 3) * secPerDay - utcOffset)
        (startOf utcOffset period day) = true ↔ Scheduled utcOffset activeSince period day := by
  have isWeek : (startOf utcOffset period day -
      ((7 * weekOf (dayOf utcOffset activeSince) - 3) * secPerDay - utcOffset)) / secPerWeek =
        weekOf day - weekOf (dayOf utcOffset activeSince) := by
    generalize weekOf (dayOf utcOffset activeSince) = first
    simp only [InDay, startOf, weekOf, secPerDay, secPerWeek] at inDay ⊢
    omega
  rw [acceptsWeekly, isWeek, Scheduled, isWeekly, Bool.and_eq_true, decide_eq_true_eq,
    weekday_localtime, dayOf_startOf inDay]
  rfl

/-! ## The search -/

/-- The period that starts on a day. -/
def runningFrom (utcOffset : Int) (maintenance : DcMaintenance) (period : DcMaintenancePeriod)
    (day : Int) : Running where
  runningSince := startOf utcOffset period day
  runningUntil := min (startOf utcOffset period day + period.period) maintenance.activeUntil

/-- Where the search back from the latest day ends, if it does not fail. -/
structure Search (utcOffset : Int) (maintenance : DcMaintenance) (period : DcMaintenancePeriod)
    (now latest : Int) (found : Option Int) : Prop where
  calculated : dcCalculateMaintenancePeriod utcOffset maintenance period
    (startOf utcOffset period latest) = found.map (runningFrom utcOffset maintenance period)
  notLater : ∀ day ∈ found, day ≤ latest
  last : ∀ day ∈ found, ∀ later, day < later → later ≤ latest →
    ¬Scheduled utcOffset maintenance.activeSince period later
  scheduled : ∀ day ∈ found, maintenance.activeSince ≤ startOf utcOffset period day →
    Scheduled utcOffset maintenance.activeSince period day
  covers : found = none → ∀ day ≤ latest, startOf utcOffset period day < maintenance.activeSince
  early : ¬StartsInTime utcOffset maintenance period now →
    ∀ day, day ∈ found ↔ EndsEarly utcOffset maintenance period now day

theorem someDayStarts_iff (isLatest : ∀ day, startOf utcOffset period day ≤ now ↔ day ≤ latest) :
    SomeDayStarts utcOffset maintenance period now ↔
      maintenance.activeSince ≤ startOf utcOffset period latest := by
  constructor
  · rintro ⟨day, isActive, hasStarted⟩
    exact isActive.trans (startOf_le_iff.mpr ((isLatest day).mp hasStarted))
  · exact fun isActive => ⟨latest, isActive, (isLatest latest).mpr le_rfl⟩

theorem search_none (isLatest : ∀ day, startOf utcOffset period day ≤ now ↔ day ≤ latest)
    (fails : dcCalculateMaintenancePeriod utcOffset maintenance period
      (startOf utcOffset period latest) = none)
    (isEarly : startOf utcOffset period latest < maintenance.activeSince)
    (needsStart : ∀ day, EndsEarly utcOffset maintenance period now day →
      SomeDayStarts utcOffset maintenance period now) :
    Search utcOffset maintenance period now latest none where
  calculated := fails
  notLater := nofun
  last := nofun
  scheduled := nofun
  covers _ _ isBefore := (startOf_le_iff.mpr isBefore).trans_lt isEarly
  early _ day := iff_of_false (not_mem_none day) fun endsEarly =>
    absurd ((someDayStarts_iff isLatest).mp (needsStart day endsEarly)) (not_le.mpr isEarly)

theorem search_daily (inDay : InDay period) (isDaily : period.type = .daily)
    (isPositive : 1 ≤ period.every)
    (isLatest : ∀ day, startOf utcOffset period day ≤ now ↔ day ≤ latest) :
    ∃ found, Search utcOffset maintenance period now latest found := by
  have isRule (day : Int) : Scheduled utcOffset maintenance.activeSince period day ↔
      period.every ∣ day - dayOf utcOffset maintenance.activeSince := by
    rw [Scheduled, isDaily]
    exact Int.dvd_iff_emod_eq_zero.symm
  have isEnd (day : Int) : EndsEarly utcOffset maintenance period now day ↔
      SomeDayStarts utcOffset maintenance period now ∧
        day = dayOf utcOffset maintenance.activeSince := by
    rw [EndsEarly, isDaily]
  by_cases isEarly : startOf utcOffset period latest < maintenance.activeSince
  · refine ⟨none, search_none isLatest ?_ isEarly fun day endsEarly => ((isEnd day).mp endsEarly).1⟩
    rw [dcCalculateMaintenancePeriod, isDaily]
    exact if_pos isEarly
  · have isActive := not_lt.mp isEarly
    have notBefore : dayOf utcOffset maintenance.activeSince ≤ latest :=
      not_lt.mp (mt (startOf_lt_of_dayOf_lt _ inDay) isEarly)
    generalize isActivation : dayOf utcOffset maintenance.activeSince = activation at *
    have isDifference : (startOf utcOffset period latest -
        (maintenance.activeSince - (maintenance.activeSince + utcOffset) % secPerDay)) / secPerDay =
          latest - activation := by
      simp only [InDay, dayOf, startOf, secPerDay] at inDay isActivation ⊢
      omega
    have divides := Int.mul_ediv_add_emod (latest - activation) period.every
    have steps : 0 ≤ (latest - activation) / period.every :=
      Int.ediv_nonneg (by omega) (by omega)
    have isLess := Int.emod_lt_of_pos (latest - activation) (show 0 < period.every by omega)
    have notNegative := Int.emod_nonneg (latest - activation) (show period.every ≠ 0 by omega)
    have isScheduled : period.every ∣
        latest - (latest - activation) % period.every - activation :=
      ⟨(latest - activation) / period.every, by omega⟩
    have notBelow : activation ≤ latest - (latest - activation) % period.every := by
      have product := Int.mul_nonneg (show 0 ≤ period.every by omega) steps
      omega
    refine ⟨some (latest - (latest - activation) % period.every), ?_, ?_, ?_, ?_, nofun, ?_⟩
    · rw [dcCalculateMaintenancePeriod, isDaily]
      simp only [if_neg isEarly, dcSubstractTime_eq, daySeconds_localtime, isDifference,
        map_some, runningFrom]
      rw [show startOf utcOffset period latest -
          secPerDay * ((latest - activation) % period.every) =
            startOf utcOffset period (latest - (latest - activation) % period.every) by
        simp only [startOf, secPerDay]
        omega]
    · rintro day ⟨⟩
      omega
    · rintro day ⟨⟩ later isAfter isBefore isOther
      have difference := Int.dvd_sub ((isRule later).mp isOther) isScheduled
      have notLess := Int.le_of_dvd (by omega) difference
      omega
    · rintro day ⟨⟩ -
      exact (isRule _).mpr isScheduled
    · intro notInTime day
      have hasStarted := (isLatest (latest - (latest - activation) % period.every)).mpr (by omega)
      have isBefore : startOf utcOffset period (latest - (latest - activation) % period.every) <
          maintenance.activeSince :=
        not_le.mp fun inTime => notInTime ⟨_, (isRule _).mpr isScheduled, inTime, hasStarted⟩
      have notAbove : latest - (latest - activation) % period.every ≤ activation := by
        refine not_lt.mp fun isAbove => isBefore.not_gt (lt_startOf_of_dayOf_lt _ inDay ?_)
        rwa [isActivation]
      rw [isEnd, and_iff_right ((someDayStarts_iff isLatest).mpr isActive), mem_some_iff,
        le_antisymm notAbove notBelow, eq_comm]

theorem search_weekly (inDay : InDay period) (isWeekly : period.type = .weekly)
    (isLatest : ∀ day, startOf utcOffset period day ≤ now ↔ day ≤ latest) :
    ∃ found, Search utcOffset maintenance period now latest found := by
  have isEnd (day : Int) : EndsEarly utcOffset maintenance period now day ↔
      SomeDayStarts utcOffset maintenance period now ∧
        (weekOf (day + 1) = weekOf (dayOf utcOffset maintenance.activeSince) ∧
            weekOf day ≠ weekOf (dayOf utcOffset maintenance.activeSince) ∨
          weekOf day = weekOf (dayOf utcOffset maintenance.activeSince) ∧
            startOf utcOffset period day < maintenance.activeSince ∧
              Scheduled utcOffset maintenance.activeSince period day) ∧
        ∀ later, day < later → startOf utcOffset period later < maintenance.activeSince →
          ¬Scheduled utcOffset maintenance.activeSince period later := by
    rw [EndsEarly, isWeekly]
  by_cases isEarly : startOf utcOffset period latest < maintenance.activeSince
  · refine ⟨none, search_none isLatest ?_ isEarly fun day endsEarly => ((isEnd day).mp endsEarly).1⟩
    rw [dcCalculateMaintenancePeriod, isWeekly]
    exact if_pos isEarly
  · have isActive := not_lt.mp isEarly
    obtain ⟨day, notLater, isFound, ended, others⟩ := searchBack_spec period utcOffset
      (acceptsWeekly utcOffset period
        ((7 * weekOf (dayOf utcOffset maintenance.activeSince) - 3) * secPerDay - utcOffset))
      ((7 * weekOf (dayOf utcOffset maintenance.activeSince) - 3) * secPerDay - utcOffset) latest
    have inWeek (day : Int) :
        (7 * weekOf (dayOf utcOffset maintenance.activeSince) - 3) * secPerDay - utcOffset ≤
            startOf utcOffset period day ↔
          weekOf (dayOf utcOffset maintenance.activeSince) ≤ weekOf day := by
      generalize weekOf (dayOf utcOffset maintenance.activeSince) = first
      simp only [InDay, startOf, weekOf, secPerDay] at inDay ⊢
      omega
    have notAfter (day : Int) (isBefore : startOf utcOffset period day < maintenance.activeSince) :
        weekOf day ≤ weekOf (dayOf utcOffset maintenance.activeSince) := by
      have upTo := mt (lt_startOf_of_dayOf_lt day inDay) isBefore.not_gt
      simp only [weekOf]
      omega
    have isWeekOf (day : Int) (isActive : maintenance.activeSince ≤ startOf utcOffset period day) :
        weekOf (dayOf utcOffset maintenance.activeSince) ≤ weekOf day := by
      have fromDay := mt (startOf_lt_of_dayOf_lt day inDay) isActive.not_gt
      simp only [weekOf]
      omega
    have notScheduled (later : Int) (isAfter : day < later) (isUpTo : later ≤ latest) :
        ¬Scheduled utcOffset maintenance.activeSince period later := by
      rw [← acceptsWeekly_iff inDay isWeekly, (others later isAfter isUpTo).2]
      exact Bool.false_ne_true
    have isAccepted (fromWeek : weekOf (dayOf utcOffset maintenance.activeSince) ≤ weekOf day) :
        Scheduled utcOffset maintenance.activeSince period day :=
      (acceptsWeekly_iff inDay isWeekly ..).mp
        (ended.resolve_left (not_lt.mpr ((inWeek day).mpr fromWeek)))
    refine ⟨some day, ?_, ?_, ?_, ?_, nofun, ?_⟩
    · rw [dcCalculateMaintenancePeriod, isWeekly]
      simp only [if_neg isEarly, weekStart_eq, isFound, map_some, runningFrom]
    · rintro _ ⟨⟩
      exact notLater
    · rintro _ ⟨⟩
      exact notScheduled
    · rintro _ ⟨⟩ inTime
      exact isAccepted (isWeekOf day inTime)
    · intro notInTime other
      have endsHere : EndsEarly utcOffset maintenance period now day := by
        refine (isEnd day).mpr ⟨(someDayStarts_iff isLatest).mpr isActive, ?_,
          fun later isAfter isBefore => notScheduled later isAfter
            (startOf_le_iff.mp (isBefore.le.trans isActive))⟩
        by_cases fromWeek : weekOf (dayOf utcOffset maintenance.activeSince) ≤ weekOf day
        · have isBefore : startOf utcOffset period day < maintenance.activeSince :=
            not_le.mp fun inTime => notInTime
              ⟨day, isAccepted fromWeek, inTime, (isLatest day).mpr notLater⟩
          exact Or.inr ⟨le_antisymm (notAfter day isBefore) fromWeek, isBefore, isAccepted fromWeek⟩
        · -- the search has left the week, one day before its Monday
          have isLess : day < latest := lt_of_le_of_ne notLater fun isLast =>
            fromWeek (isLast ▸ isWeekOf latest isActive)
          have isNext := (inWeek (day + 1)).mp (others (day + 1) (by omega) (by omega)).1
          simp only [weekOf] at fromWeek isNext ⊢
          omega
      refine ⟨fun isOther => mem_some_iff.mp isOther ▸ endsHere, fun endsThere => ?_⟩
      have notBelow {day other : Int} (isLower : day < other)
          (endsHere : EndsEarly utcOffset maintenance period now day)
          (endsThere : EndsEarly utcOffset maintenance period now other) : False := by
        obtain ⟨-, isHere, lastHere⟩ := (isEnd day).mp endsHere
        obtain ⟨-, isThere | isThere, -⟩ := (isEnd other).mp endsThere
        · simp only [weekOf] at isHere isThere
          omega
        · exact lastHere other isLower isThere.2.1 isThere.2.2
      exact mem_some_iff.mpr (le_antisymm
        (not_lt.mp fun isLower => notBelow isLower endsThere endsHere)
        (not_lt.mp fun isLower => notBelow isLower endsHere endsThere))

theorem search_monthly (inDay : InDay period) (isMonthly : period.type = .monthly)
    (isLatest : ∀ day, startOf utcOffset period day ≤ now ↔ day ≤ latest) :
    ∃ found, Search utcOffset maintenance period now latest found := by
  have isEnd (day : Int) : EndsEarly utcOffset maintenance period now day ↔
      startOf utcOffset period day < maintenance.activeSince ∧
        startOf utcOffset period day ≤ now ∧
          ∀ later, day < later → startOf utcOffset period later ≤ now →
            ¬startOf utcOffset period later < maintenance.activeSince := by
    rw [EndsEarly, isMonthly]
  obtain ⟨day, notLater, isFound, ended, others⟩ := searchBack_spec period utcOffset
    (acceptsMonthly utcOffset period) maintenance.activeSince latest
  have isAccepted (isActive : maintenance.activeSince ≤ startOf utcOffset period day) :
      Scheduled utcOffset maintenance.activeSince period day :=
    (acceptsMonthly_iff inDay isMonthly ..).mp (ended.resolve_left (not_lt.mpr isActive))
  refine ⟨some day, ?_, ?_, ?_, ?_, nofun, ?_⟩
  · rw [dcCalculateMaintenancePeriod, isMonthly]
    simp only [isFound, map_some, runningFrom]
  · rintro _ ⟨⟩
    exact notLater
  · rintro _ ⟨⟩ later isAfter isUpTo
    rw [← acceptsMonthly_iff inDay isMonthly, (others later isAfter isUpTo).2]
    exact Bool.false_ne_true
  · rintro _ ⟨⟩
    exact isAccepted
  · intro notInTime other
    have hasStarted := (isLatest day).mpr notLater
    have isBefore : startOf utcOffset period day < maintenance.activeSince :=
      not_le.mp fun isActive => notInTime ⟨day, isAccepted isActive, isActive, hasStarted⟩
    rw [isEnd, mem_some_iff]
    constructor
    · rintro rfl
      exact ⟨isBefore, hasStarted, fun later isAfter laterStarted =>
        not_lt.mpr (others later isAfter ((isLatest later).mp laterStarted)).1⟩
    · rintro ⟨otherBefore, otherStarted, isLast⟩
      refine le_antisymm (not_lt.mp fun isLower => ?_) (not_lt.mp fun isLower => ?_)
      · exact isLast day isLower hasStarted isBefore
      · exact otherBefore.not_ge (others other isLower ((isLatest other).mp otherStarted)).1

theorem search_exists (maintenance : DcMaintenance) (inDay : InDay period)
    (isPositive : 1 ≤ period.every)
    (isRecurring : period.type ≠ .onetime)
    (isLatest : ∀ day, startOf utcOffset period day ≤ now ↔ day ≤ latest) :
    ∃ found, Search utcOffset maintenance period now latest found := by
  cases isType : period.type with
  | onetime => exact absurd isType isRecurring
  | daily => exact search_daily inDay isType isPositive isLatest
  | weekly => exact search_weekly inDay isType isLatest
  | monthly => exact search_monthly inDay isType isLatest

/-! ## Running periods -/

theorem Due.startsInTime {since : Int} (isDue : Due utcOffset maintenance period now since) :
    StartsInTime utcOffset maintenance period now := by
  obtain ⟨⟨day, rfl, isScheduled⟩, isActive, hasStarted, -⟩ := isDue
  exact ⟨day, isScheduled, isActive, hasStarted⟩

variable (isLatest : ∀ day, startOf utcOffset period day ≤ now ↔ day ≤ latest)

include isLatest

theorem Search.latest_scheduled {found : Option Int}
    (search : Search utcOffset maintenance period now latest found)
    (inTime : StartsInTime utcOffset maintenance period now) :
    ∃ day, found = some day ∧ maintenance.activeSince ≤ startOf utcOffset period day ∧
      Scheduled utcOffset maintenance.activeSince period day := by
  obtain ⟨first, isScheduled, isActive, hasStarted⟩ := inTime
  have isBefore := (isLatest first).mp hasStarted
  cases isFound : found with
  | none => exact absurd (search.covers isFound first isBefore) (not_lt.mpr isActive)
  | some day =>
    have notLess : first ≤ day := not_lt.mp fun isLess =>
      search.last day isFound first isLess isBefore isScheduled
    have dayActive := isActive.trans (startOf_le_iff.mpr notLess)
    exact ⟨day, rfl, dayActive, search.scheduled day isFound dayActive⟩

theorem Search.runsAsScheduled_of_startsInTime {found : Option Int}
    (search : Search utcOffset maintenance period now latest found)
    (checked : dcCheckMaintenancePeriod utcOffset maintenance period now =
      (found.map (runningFrom utcOffset maintenance period)).filter fun running =>
        running.runningSince ≤ now && now < running.runningUntil)
    (inTime : StartsInTime utcOffset maintenance period now) :
    RunsAsScheduled utcOffset maintenance period now := by
  obtain ⟨day, rfl, isActive, isScheduled⟩ := search.latest_scheduled isLatest inTime
  have hasStarted := (isLatest day).mpr (search.notLater day rfl)
  have notLater {since : Int} (isDue : Due utcOffset maintenance period now since) :
      since ≤ startOf utcOffset period day := by
    obtain ⟨⟨other, rfl, otherScheduled⟩, -, otherStarted, -⟩ := isDue
    exact startOf_le_iff.mpr (not_lt.mp fun isAfter =>
      search.last day rfl other isAfter ((isLatest other).mp otherStarted) otherScheduled)
  by_cases isRunning :
      now < min (startOf utcOffset period day + period.period) maintenance.activeUntil
  · have isDue : Due utcOffset maintenance period now (startOf utcOffset period day) :=
      ⟨⟨day, rfl, isScheduled⟩, isActive, hasStarted, isRunning⟩
    have isSome : dcCheckMaintenancePeriod utcOffset maintenance period now =
        some (runningFrom utcOffset maintenance period day) := by
      rw [checked, map_some, filter_some, if_pos]
      exact Bool.and_eq_true_iff.mpr ⟨decide_eq_true hasStarted, decide_eq_true isRunning⟩
    rw [RunsAsScheduled, isSome]
    refine ⟨iff_of_true rfl ⟨_, isDue⟩, ?_⟩
    rintro running ⟨⟩
    exact ⟨⟨isDue, fun since => notLater⟩, rfl⟩
  · have isNone : dcCheckMaintenancePeriod utcOffset maintenance period now = none := by
      rw [checked, map_some, filter_some, if_neg]
      exact fun passes => isRunning (of_decide_eq_true (Bool.and_eq_true_iff.mp passes).2)
    rw [RunsAsScheduled, isNone]
    refine ⟨iff_of_false Bool.false_ne_true ?_, nofun⟩
    rintro ⟨since, isDue⟩
    have isLess := notLater isDue
    have lasts := isDue.2.2.2
    omega

theorem Search.runsAsScheduled_iff_of_not_startsInTime {found : Option Int}
    (search : Search utcOffset maintenance period now latest found)
    (checked : dcCheckMaintenancePeriod utcOffset maintenance period now =
      (found.map (runningFrom utcOffset maintenance period)).filter fun running =>
        running.runningSince ≤ now && now < running.runningUntil)
    (isActive : now < maintenance.activeUntil)
    (notInTime : ¬StartsInTime utcOffset maintenance period now) :
    RunsAsScheduled utcOffset maintenance period now ↔
      ∀ day, EndsEarly utcOffset maintenance period now day →
        startOf utcOffset period day + period.period ≤ now := by
  have notDue : ¬∃ since, Due utcOffset maintenance period now since :=
    fun ⟨_, isDue⟩ => notInTime isDue.startsInTime
  have isNone : RunsAsScheduled utcOffset maintenance period now ↔
      dcCheckMaintenancePeriod utcOffset maintenance period now = none := by
    constructor
    · intro runs
      exact not_isSome_iff_eq_none.mp (mt runs.1.mp notDue)
    · intro isNone
      rw [RunsAsScheduled, isNone]
      exact ⟨iff_of_false Bool.false_ne_true notDue, nofun⟩
  rw [isNone, checked, filter_eq_none_iff]
  constructor
  · intro notRunning day endsEarly
    have isFound := (search.early notInTime day).mpr endsEarly
    have hasStarted := (isLatest day).mpr (search.notLater day isFound)
    exact not_lt.mp fun isRunning => notRunning _ (mem_map_of_mem _ isFound)
      (Bool.and_eq_true_iff.mpr
        ⟨decide_eq_true hasStarted, decide_eq_true (lt_min isRunning isActive)⟩)
  · intro isOver running isFound
    obtain ⟨day, dayFound, rfl⟩ := mem_map.mp isFound
    have endedBefore := isOver day ((search.early notInTime day).mp dayFound)
    intro passes
    have lasts := of_decide_eq_true (Bool.and_eq_true_iff.mp passes).2
    exact endedBefore.not_gt (lasts.trans_le (min_le_left ..))

omit isLatest

/-- A period runs exactly as scheduled unless no start is scheduled in time and the search ends at
an earlier day whose period is not over. -/
theorem dcCheckMaintenancePeriod_runsAsScheduled_iff (utcOffset : Int) (maintenance : DcMaintenance)
    (period : DcMaintenancePeriod) (now : Int) (isRecurring : period.type ≠ .onetime)
    (isPositive : 1 ≤ period.every) (inDay : 0 ≤ period.startTime ∧ period.startTime < 86400)
    (isActive : now < maintenance.activeUntil) :
    RunsAsScheduled utcOffset maintenance period now ↔
      StartsInTime utcOffset maintenance period now ∨
        ∀ day, EndsEarly utcOffset maintenance period now day →
          startOf utcOffset period day + period.period ≤ now := by
  obtain ⟨latest, isLatest, calculated⟩ :=
    dcCheckMaintenancePeriod_eq inDay utcOffset maintenance now
  obtain ⟨found, search⟩ := search_exists maintenance inDay isPositive isRecurring
    isLatest
  rw [search.calculated] at calculated
  by_cases inTime : StartsInTime utcOffset maintenance period now
  · exact iff_of_true (search.runsAsScheduled_of_startsInTime isLatest calculated inTime)
      (Or.inl inTime)
  · rw [search.runsAsScheduled_iff_of_not_startsInTime isLatest calculated isActive inTime,
      or_iff_right inTime]

end

/-- Every Monday from 23:00 to Tuesday 05:00, on a Tuesday at 02:00. -/
theorem dcCheckMaintenancePeriod_runsAsScheduled_overnight :
    RunsAsScheduled 0 ⟨345600, 2592000⟩ ⟨.weekly, 1, 0, 1, 0, 82800, 21600, 0⟩ 439200 :=
  (dcCheckMaintenancePeriod_runsAsScheduled_iff 0 ⟨345600, 2592000⟩
      ⟨.weekly, 1, 0, 1, 0, 82800, 21600, 0⟩ 439200 (by decide) (by decide) (by decide)
      (by decide)).mpr
    (Or.inl ⟨4, ⟨by decide, rfl⟩, by decide, by decide⟩)

/-- A period on the 15th of February runs on the first of January, as the search ends before the
maintenance is active. -/
theorem dcCheckMaintenancePeriod_runs_unscheduled :
    ¬RunsAsScheduled 0 ⟨43200, 2592000⟩ ⟨.monthly, 1, 2, 0, 15, 36000, 18000, 0⟩ 46800 := by
  intro runs
  have isFound (accepts : Int → Bool) : searchBack 0 accepts 43200 36000 = 36000 := by
    rw [searchBack, if_pos (by decide)]
  have isCalculated : dcCalculateMaintenancePeriod 0 ⟨43200, 2592000⟩
      ⟨.monthly, 1, 2, 0, 15, 36000, 18000, 0⟩ 36000 = some ⟨36000, 54000⟩ := by
    rw [dcCalculateMaintenancePeriod]
    simp only [isFound]
    rfl
  have isRunning : dcCheckMaintenancePeriod 0 ⟨43200, 2592000⟩
      ⟨.monthly, 1, 2, 0, 15, 36000, 18000, 0⟩ 46800 =
        (some (Running.mk 36000 54000)).filter fun running =>
          running.runningSince ≤ 46800 && 46800 < running.runningUntil := by
    rw [← isCalculated]
    rfl
  obtain ⟨since, ⟨day, isStart, -⟩, isActive, hasStarted, -⟩ :=
    runs.1.mp (by rw [isRunning]; rfl)
  have fromStart : (43200 : Int) ≤ since := isActive
  simp only [startOf, secPerDay] at isStart
  omega

end Zabbix.Maintenance.Schedule
