import Mathlib.Data.Int.Init

/-!
# Maintenance periods

Whether a maintenance period is running is decided by a search for its last start, day by day
backwards.  The offset of the local time is constant.
-/

namespace Zabbix.Maintenance.Periods

def secPerMin : Int := 60
def secPerHour : Int := 3600
def secPerDay : Int := 86400
def secPerWeek : Int := 7 * secPerDay

/-! ## Local time -/

/-- The fields of `struct tm` that are read. -/
structure Tm where
  tmSec : Int
  tmMin : Int
  tmHour : Int
  tmMday : Int
  tmMon : Int
  tmYear : Int
  tmWday : Int
deriving DecidableEq

/-- The year, the month from 1 to 12 and the day of the month of a day since 1970-01-01. -/
def civil (day : Int) : Int × Int × Int :=
  let shifted := day + 719468
  -- 400 years from the first of March have 146097 days
  let era := shifted / 146097
  let dayOfEra := shifted % 146097
  let yearOfEra := (dayOfEra - dayOfEra / 1460 + dayOfEra / 36524 - dayOfEra / 146096) / 365
  let dayOfYear := dayOfEra - (365 * yearOfEra + yearOfEra / 4 - yearOfEra / 100)
  let month := (5 * dayOfYear + 2) / 153
  let mday := dayOfYear - (153 * month + 2) / 5 + 1
  if month < 10 then (yearOfEra + 400 * era, month + 3, mday)
  else (yearOfEra + 400 * era + 1, month - 9, mday)

example : civil 0 = (1970, 1, 1) ∧ civil 19782 = (2024, 2, 29) ∧ civil 19783 = (2024, 3, 1) := by
  decide

/-- `*localtime(&clock)` -/
def localtime (utcOffset clock : Int) : Tm :=
  let day := (clock + utcOffset) / secPerDay
  let sec := (clock + utcOffset) % secPerDay
  let date := civil day
  { tmSec := sec % secPerMin
    tmMin := sec % secPerHour / secPerMin
    tmHour := sec / secPerHour
    tmMday := date.2.2
    tmMon := date.2.1 - 1
    tmYear := date.1 - 1900
    -- 1970-01-01 was a Thursday
    tmWday := (day + 4) % 7 }

def isLeapYear (year : Int) : Bool :=
  year % 4 = 0 && (year % 100 ≠ 0 || year % 400 = 0)

def zbxDayInMonth (year mon : Int) : Int :=
  if 1 ≤ mon ∧ mon ≤ 12 then
    ([31, 28, 31, 30, 31, 30, 31, 31, 30, 31, 30, 31].getD (mon - 1).toNat 0) +
      if mon = 2 ∧ isLeapYear year then 1 else 0
  else 30

def zbxGetTimezoneOffset (utcOffset _clock : Int) : Int :=
  utcOffset

def dcSubstractTime (utcOffset minuend subtrahend : Int) : Int :=
  let offsetMin := zbxGetTimezoneOffset utcOffset minuend
  let diff := minuend - subtrahend
  let offsetDiff := zbxGetTimezoneOffset utcOffset diff
  diff - (offsetDiff - offsetMin)

/-- The seconds since midnight. -/
def daySeconds (tm : Tm) : Int :=
  tm.tmHour * secPerHour + tm.tmMin * secPerMin + tm.tmSec

/-- The day of the week from Monday on. -/
def weekday (tm : Tm) : Int :=
  (if tm.tmWday = 0 then 7 else tm.tmWday) - 1

/-! ## Periods -/

inductive TimeperiodType where
  | onetime
  | daily
  | weekly
  | monthly
deriving DecidableEq

/-- `zbx_dc_maintenance_period_t` -/
structure DcMaintenancePeriod where
  type : TimeperiodType
  every : Int
  month : Nat
  dayofweek : Nat
  day : Int
  startTime : Int
  period : Int
  startDate : Int
deriving DecidableEq

/-- The fields of `zbx_dc_maintenance_t` that are read. -/
structure DcMaintenance where
  activeSince : Int
  activeUntil : Int
deriving DecidableEq

/-- `running_since` and `running_until` -/
structure Running where
  runningSince : Int
  runningUntil : Int
deriving DecidableEq

/-- A loop back from day to day to a time that is accepted or too early. -/
def searchBack (utcOffset : Int) (accepts : Int → Bool) (activeSince startDate : Int) : Int :=
  if startDate < activeSince then startDate
  else if accepts startDate then startDate
  else searchBack utcOffset accepts activeSince (dcSubstractTime utcOffset startDate secPerDay)
termination_by (startDate + secPerDay - activeSince).toNat
decreasing_by
  simp only [dcSubstractTime, zbxGetTimezoneOffset, secPerDay]
  omega

/-- The checks of the weekly loop, where `activeSince` is the start of a week. -/
def acceptsWeekly (utcOffset : Int) (period : DcMaintenancePeriod) (activeSince startDate : Int) :
    Bool :=
  -- check for every x week(s)
  (startDate - activeSince) / secPerWeek % period.every = 0 &&
    -- check for day of the week
    period.dayofweek.testBit (weekday (localtime utcOffset startDate)).toNat

/-- The checks of the monthly loop.  That a start is not before `active_since` is checked once
more in its body. -/
def acceptsMonthly (utcOffset : Int) (period : DcMaintenancePeriod) (startDate : Int) : Bool :=
  let tm := localtime utcOffset startDate
  period.month.testBit tm.tmMon.toNat &&
    if period.day ≠ 0 then period.day = tm.tmMday
    else
      period.dayofweek.testBit (weekday tm).toNat &&
        -- check for number of day (first, second, third, fourth or last)
        let day := (tm.tmMday - 1) / 7 + 1
        if period.every = 5 ∧ day = 4 then
          zbxDayInMonth (1900 + tm.tmYear) (tm.tmMon + 1) < tm.tmMday + 7
        else period.every = day

def dcCalculateMaintenancePeriod (utcOffset : Int) (maintenance : DcMaintenance)
    (period : DcMaintenancePeriod) (startDate : Int) : Option Running :=
  let activeSince := maintenance.activeSince
  let running (since : Int) : Running :=
    { runningSince := since, runningUntil := min (since + period.period) maintenance.activeUntil }
  match period.type with
  | .onetime =>
    some
      { runningSince := max period.startDate activeSince
        runningUntil := min (period.startDate + period.period) maintenance.activeUntil }
  | .daily =>
    if startDate < activeSince then none
    else
      let tm := localtime utcOffset activeSince
      let activeSince := dcSubstractTime utcOffset activeSince (daySeconds tm)
      let day := (startDate - activeSince) / secPerDay
      some (running (dcSubstractTime utcOffset startDate (secPerDay * (day % period.every))))
  | .weekly =>
    if startDate < activeSince then none
    else
      let tm := localtime utcOffset activeSince
      let activeSince :=
        dcSubstractTime utcOffset activeSince (weekday tm * secPerDay + daySeconds tm)
      some (running (searchBack utcOffset (acceptsWeekly utcOffset period activeSince) activeSince
        startDate))
  | .monthly =>
    some (running (searchBack utcOffset (acceptsMonthly utcOffset period) activeSince startDate))

def dcCheckMaintenancePeriod (utcOffset : Int) (maintenance : DcMaintenance)
    (period : DcMaintenancePeriod) (now : Int) : Option Running :=
  let seconds := daySeconds (localtime utcOffset now)
  let periodStart := dcSubstractTime utcOffset now seconds
  let periodStart := dcSubstractTime utcOffset periodStart (-period.startTime)
  -- skip maintenance if the time does not exist due to DST
  if period.startTime ≠ daySeconds (localtime utcOffset periodStart) then none
  else
    let periodStart :=
      if now < periodStart then dcSubstractTime utcOffset periodStart secPerDay else periodStart
    (dcCalculateMaintenancePeriod utcOffset maintenance period periodStart).filter fun running =>
      running.runningSince ≤ now && now < running.runningUntil

end Zabbix.Maintenance.Periods
