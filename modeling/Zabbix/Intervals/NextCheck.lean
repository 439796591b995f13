import Mathlib.Data.Int.ModEq
import Mathlib.Order.Bounds.Basic
import Zabbix.Intervals.Parsing

/-!
# The next check of an item

Times are seconds since the epoch, and local time is a constant offset from them.  The search
hops from one change of the delay to the next, for at most a year.
-/

namespace Zabbix.Intervals.NextCheck

open Common.Integers Parsing

/-- The fields of `struct tm` that the search reads. -/
structure Tm where
  wday : Int
  hour : Int
  min : Int
  sec : Int
deriving DecidableEq

/-- `localtime` in a time zone with a constant offset: the epoch was a Thursday. -/
def localtime (offset now : Int) : Tm where
  wday := ((now + offset) / 86400 + 4) % 7
  hour := (now + offset) % 86400 / 3600
  min := (now + offset) % 3600 / 60
  sec := (now + offset) % 60

/-- Monday is 1 and Sunday is 7. -/
def dayOf (tm : Tm) : Int :=
  if tm.wday = 0 then 7 else tm.wday

def timeOf (tm : Tm) : Int :=
  secPerHour * tm.hour + secPerMin * tm.min + tm.sec

def checkTimePeriod (period : TimePeriod) (tm : Tm) : Bool :=
  period.startDay ≤ dayOf tm ∧ dayOf tm ≤ period.endDay ∧ period.startTime ≤ timeOf tm ∧
    timeOf tm < period.endTime

/-- The loop of `get_current_delay`; no delay stands for `-1`. -/
def currentDelayLoop (tm : Tm) : Option Nat → List FlexibleInterval → Option Nat
  | currentDelay, [] => currentDelay
  | currentDelay, interval :: rest =>
    if (currentDelay.all fun delay => interval.delay < delay) &&
        checkTimePeriod interval.period tm then
      currentDelayLoop tm (some interval.delay) rest
    else currentDelayLoop tm currentDelay rest

def getCurrentDelay (offset : Int) (defaultDelay : Nat) (flexible : List FlexibleInterval)
    (now : Int) : Nat :=
  (currentDelayLoop (localtime offset now) none flexible).getD defaultDelay

/-- The next change of one period, from the start of the day. -/
def candidate (day time : Int) (period : TimePeriod) : Int :=
  if period.startDay ≤ day ∧ day ≤ period.endDay ∧ time < period.endTime then
    if time < period.startTime then period.startTime else period.endTime
  else if day < period.endDay then
    if day < period.startDay then secPerDay * (period.startDay - day) + period.startTime
    else secPerDay + period.startTime
  else secPerDay * (period.startDay + 7 - day) + period.startTime

/-- The loop of `get_next_delay_interval`. -/
def nextLoop (day time : Int) : Int → List FlexibleInterval → Int
  | next, [] => next
  | next, interval :: rest =>
    if next = 0 ∨ next > candidate day time interval.period then
      nextLoop day time (candidate day time interval.period) rest
    else nextLoop day time next rest

def getNextDelayInterval (offset : Int) (flexible : List FlexibleInterval) (now : Int) :
    Option Int :=
  let tm := localtime offset now
  let next := nextLoop (dayOf tm) (timeOf tm) 0 flexible
  if next = 0 then none else some (now - timeOf tm + next)

def secPerYear : Int := 365 * 86400

def zbxJan2038 : Int := 2145916800

def itemTypeZabbixActive : Nat := 7

/-- `while (nextcheck < limit) nextcheck += delay`. -/
def raiseTo (delay : Nat) (limit nextcheck : Int) : Int :=
  if 0 < delay ∧ nextcheck < limit then raiseTo delay limit (nextcheck + delay) else nextcheck
termination_by (limit - nextcheck).toNat

/-- The first check of a delay from `limit` on: division truncates. -/
def nextcheckFrom (seed delay : Nat) (t limit : Int) : Int :=
  if delay ≠ 0 then raiseTo delay limit (delay * t.tdiv delay + (seed % delay : Nat))
  else zbxJan2038

/-- The search: how often it went on to the next interval, the start of the current one, and the
last value of `nextcheck`. -/
def searchLoop (offset : Int) (seed simpleInterval : Nat) (custom : Option CustomIntervals)
    (tmax : Int) : Nat → Nat → Int → Int → Option Int
  | 0, _, _, _ => none
  | fuel + 1, attempt, t, nextcheck =>
    if t < tmax then
      match custom with
      | none => some (nextcheckFrom seed simpleInterval t (if attempt = 0 then t + 1 else t))
      | some custom =>
        let delay := getCurrentDelay offset simpleInterval custom.flexible t
        let nextcheck := nextcheckFrom seed delay t (if attempt = 0 then t + 1 else t)
        match getNextDelayInterval offset custom.flexible t with
        | some nextInterval =>
          if nextcheck ≥ nextInterval then
            searchLoop offset seed simpleInterval (some custom) tmax fuel (attempt + 1)
              nextInterval nextcheck
          else some nextcheck
        | none => some nextcheck
    else some nextcheck

/-- The earliest check of the scheduling intervals, and zero without one.  The calendar of a
single interval is a parameter: nothing here depends on it. -/
def schedulerGetNextcheck (intervalNextcheck : SchedulerInterval → Int → Int) (now : Int) :
    Int → List SchedulerInterval → Int
  | nextcheck, [] => nextcheck
  | nextcheck, interval :: rest =>
    if nextcheck = 0 ∨ intervalNextcheck interval now < nextcheck then
      schedulerGetNextcheck intervalNextcheck now (intervalNextcheck interval now) rest
    else schedulerGetNextcheck intervalNextcheck now nextcheck rest

/-- The next check; none when the search did not end. -/
def calculateItemNextcheck (intervalNextcheck : SchedulerInterval → Int → Int) (offset : Int)
    (seed itemType simpleInterval : Nat) (custom : Option CustomIntervals) (now : Int) :
    Option Int :=
  if itemType = itemTypeZabbixActive then
    some (if simpleInterval ≠ 0 then now + simpleInterval else zbxJan2038)
  else
    let scheduledCheck :=
      match custom with
      | some custom => schedulerGetNextcheck intervalNextcheck now 0 custom.scheduling
      | none => 0
    let tmax := now + secPerYear
    -- each turn moves ahead by a second or more
    (searchLoop offset seed simpleInterval custom tmax (secPerYear.toNat + 1) 0 now 0).map
      fun nextcheck =>
        if scheduledCheck ≠ 0 ∧ scheduledCheck < nextcheck then scheduledCheck else nextcheck

/-! ## The checks of an item -/

/-- The delays of the intervals whose period contains the time. -/
def activeDelays (tm : Tm) (flexible : List FlexibleInterval) : List Nat :=
  (flexible.filter fun interval => checkTimePeriod interval.period tm).map FlexibleInterval.delay

/-- The smallest delay of the intervals whose period contains the time, or the simple one. -/
def delayAt (offset : Int) (simpleInterval : Nat) (flexible : List FlexibleInterval) (t : Int) :
    Nat :=
  (activeDelays (localtime offset t) flexible).min?.getD simpleInterval

/-- A check is due at the time. -/
def IsCheck (offset : Int) (seed simpleInterval : Nat) (flexible : List FlexibleInterval)
    (t : Int) : Prop :=
  delayAt offset simpleInterval flexible t ≠ 0 ∧
    t ≡ seed [ZMOD delayAt offset simpleInterval flexible t]

/-- The period is one of the days of a week and of the times of a day. -/
structure IsPeriod (period : TimePeriod) : Prop where
  startDay : 1 ≤ period.startDay
  days : period.startDay ≤ period.endDay
  endDay : period.endDay ≤ 7
  times : period.startTime < period.endTime
  endTime : period.endTime ≤ 86400

end Zabbix.Intervals.NextCheck
