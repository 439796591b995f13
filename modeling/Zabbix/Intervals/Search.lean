import Zabbix.Intervals.NextCheck

/-!
# The search for the next check

Between two hops of the search no period starts or ends, so the delay is constant there, and
the first check of that delay is either before the next hop or no check of the piece is due.
-/

namespace Zabbix.Intervals.Search

open Common.Integers Parsing NextCheck List Option

/-! ## Days and times -/

variable {offset t s : Int}

theorem timeOf_localtime (offset t : Int) : timeOf (localtime offset t) = (t + offset) % 86400 := by
  simp only [timeOf, localtime, secPerHour, secPerMin]
  omega

theorem dayOf_localtime (offset t : Int) :
    dayOf (localtime offset t) = ((t + offset) / 86400 + 3) % 7 + 1 := by
  have isDay : (localtime offset t).wday = ((t + offset) / 86400 + 4) % 7 := rfl
  unfold dayOf
  split <;> omega

theorem later_day (offset : Int) (later : t ≤ s) :
    ∃ days, 0 ≤ days ∧ s - t + timeOf (localtime offset t) =
        86400 * days + timeOf (localtime offset s) ∧
      dayOf (localtime offset s) = (dayOf (localtime offset t) + days - 1) % 7 + 1 := by
  refine ⟨(s + offset) / 86400 - (t + offset) / 86400, ?_, ?_, ?_⟩
  · omega
  · rw [timeOf_localtime, timeOf_localtime]
    omega
  · rw [dayOf_localtime, dayOf_localtime]
    omega

theorem timeOf_bounds (offset t : Int) :
    0 ≤ timeOf (localtime offset t) ∧ timeOf (localtime offset t) < 86400 := by
  rw [timeOf_localtime]
  omega

theorem dayOf_bounds (offset t : Int) :
    1 ≤ dayOf (localtime offset t) ∧ dayOf (localtime offset t) ≤ 7 := by
  rw [dayOf_localtime]
  omega

/-! ## The next change of a period -/

section Candidate

variable {period : TimePeriod} {day time : Int}

theorem candidate_gt (isPeriod : IsPeriod period) (dayRange : 1 ≤ day ∧ day ≤ 7)
    (timeRange : 0 ≤ time ∧ time < 86400) : time < candidate day time period := by
  obtain ⟨startDay, days, endDay, times, endTime⟩ := isPeriod
  simp only [candidate, secPerDay]
  split_ifs <;> omega

theorem candidate_steady (isPeriod : IsPeriod period) (dayRange : 1 ≤ day ∧ day ≤ 7)
    {days laterDay laterTime : Int} (laterRange : 0 ≤ laterTime ∧ laterTime < 86400)
    (daysRange : 0 ≤ days) (later : time ≤ 86400 * days + laterTime)
    (timeRange : 0 ≤ time ∧ time < 86400)
    (before : 86400 * days + laterTime < candidate day time period)
    (isDay : laterDay = (day + days - 1) % 7 + 1) :
    (period.startDay ≤ laterDay ∧ laterDay ≤ period.endDay ∧ period.startTime ≤ laterTime ∧
        laterTime < period.endTime) ↔
      (period.startDay ≤ day ∧ day ≤ period.endDay ∧ period.startTime ≤ time ∧
        time < period.endTime) := by
  obtain ⟨startDay, daysOrder, endDay, times, endTime⟩ := isPeriod
  simp only [candidate, secPerDay] at before
  split_ifs at before <;> omega

theorem checkTimePeriod_steady (isPeriod : IsPeriod period) (later : t ≤ s)
    (before : s < t - timeOf (localtime offset t) +
      candidate (dayOf (localtime offset t)) (timeOf (localtime offset t)) period) :
    checkTimePeriod period (localtime offset s) = checkTimePeriod period (localtime offset t) := by
  obtain ⟨days, daysRange, isTime, isDay⟩ := later_day offset later
  have steady := candidate_steady isPeriod (dayOf_bounds offset t) (timeOf_bounds offset s)
    daysRange (by omega) (timeOf_bounds offset t) (by omega) isDay
  simp only [checkTimePeriod, steady]

end Candidate

/-! ## The next hop -/

variable {flexible : List FlexibleInterval}

theorem nextLoop_spec {day time : Int} (next : Int) (flexible : List FlexibleInterval)
    (isAfter : ∀ interval ∈ flexible, time < candidate day time interval.period)
    (nonneg : 0 ≤ time) (isNext : next = 0 ∨ time < next) :
    (nextLoop day time next flexible = 0 ∧ next = 0 ∧ flexible = [] ∨
        time < nextLoop day time next flexible) ∧
      (next ≠ 0 → nextLoop day time next flexible ≤ next) ∧
      ∀ interval ∈ flexible, nextLoop day time next flexible ≤
        candidate day time interval.period := by
  induction flexible generalizing next with
  | nil =>
    rw [nextLoop]
    refine ⟨?_, fun _ => le_rfl, nofun⟩
    obtain isZero | isAfter := isNext
    · exact .inl ⟨isZero, isZero, rfl⟩
    · exact .inr isAfter
  | cons interval rest ih =>
    have isFirst := isAfter interval mem_cons_self
    have isRest : ∀ other ∈ rest, time < candidate day time other.period :=
      fun other isIn => isAfter other (mem_cons_of_mem _ isIn)
    rw [nextLoop]
    split
    · next replaces =>
        obtain ⟨isGreater, isBelow, areBelow⟩ := ih _ isRest (.inr isFirst)
        have notZero : candidate day time interval.period ≠ 0 := by omega
        refine ⟨?_, fun notZeroNext => ?_, ?_⟩
        · obtain ⟨_, isZero, _⟩ | isGreater := isGreater
          · exact absurd isZero notZero
          · exact .inr isGreater
        · have := isBelow notZero
          omega
        · rintro other (_ | ⟨_, isIn⟩)
          · exact isBelow notZero
          · exact areBelow other isIn
    · next keeps =>
        obtain ⟨isGreater, isBelow, areBelow⟩ := ih next isRest isNext
        rw [not_or, not_lt] at keeps
        refine ⟨?_, isBelow, ?_⟩
        · obtain ⟨_, isZero, _⟩ | isGreater := isGreater
          · exact absurd isZero keeps.1
          · exact .inr isGreater
        · rintro other (_ | ⟨_, isIn⟩)
          · exact (isBelow keeps.1).trans keeps.2
          · exact areBelow other isIn

/-- No period of the list starts or ends between the two times. -/
def Steady (offset : Int) (flexible : List FlexibleInterval) (t s : Int) : Prop :=
  ∀ interval ∈ flexible, checkTimePeriod interval.period (localtime offset s) =
    checkTimePeriod interval.period (localtime offset t)

theorem getNextDelayInterval_none (allPeriods : ∀ interval ∈ flexible, IsPeriod interval.period)
    (isNone : getNextDelayInterval offset flexible t = none) : flexible = [] := by
  obtain ⟨found, -, -⟩ := nextLoop_spec 0 flexible
    (fun interval isIn => candidate_gt (allPeriods interval isIn) (dayOf_bounds offset t)
      (timeOf_bounds offset t)) (timeOf_bounds offset t).1 (.inl rfl)
  obtain ⟨-, -, isEmpty⟩ | isGreater := found
  · exact isEmpty
  · have notZero : nextLoop (dayOf (localtime offset t)) (timeOf (localtime offset t)) 0 flexible ≠
        0 := by
      have := (timeOf_bounds offset t).1
      omega
    unfold getNextDelayInterval at isNone
    dsimp only at isNone
    rw [if_neg notZero] at isNone
    cases isNone

theorem getNextDelayInterval_some (allPeriods : ∀ interval ∈ flexible, IsPeriod interval.period)
    {nextInterval : Int} (isSome : getNextDelayInterval offset flexible t = some nextInterval) :
    t < nextInterval ∧ ∀ s, t ≤ s → s < nextInterval → Steady offset flexible t s := by
  obtain ⟨found, -, areBelow⟩ := nextLoop_spec 0 flexible
    (fun interval isIn => candidate_gt (allPeriods interval isIn) (dayOf_bounds offset t)
      (timeOf_bounds offset t)) (timeOf_bounds offset t).1 (.inl rfl)
  unfold getNextDelayInterval at isSome
  dsimp only at isSome
  split at isSome
  · cases isSome
  · next notZero =>
      have isGreater := found.resolve_left fun isZero => notZero isZero.1
      obtain rfl := some.inj isSome
      refine ⟨by omega, fun s later before interval isIn => ?_⟩
      have isBelow := areBelow interval isIn
      exact checkTimePeriod_steady (allPeriods interval isIn) later (by omega)

/-! ## The current delay -/

section Loop

variable {tm : Tm} {interval : FlexibleInterval} (rest : List FlexibleInterval)

theorem activeDelays_cons_pos (isActive : checkTimePeriod interval.period tm = true) :
    activeDelays tm (interval :: rest) = interval.delay :: activeDelays tm rest := by
  simp [activeDelays, isActive]

theorem activeDelays_cons_neg (notActive : ¬checkTimePeriod interval.period tm = true) :
    activeDelays tm (interval :: rest) = activeDelays tm rest := by
  simp [activeDelays, notActive]

end Loop

theorem currentDelayLoop_some (tm : Tm) (delay : Nat) (flexible : List FlexibleInterval) :
    currentDelayLoop tm (some delay) flexible =
      some ((activeDelays tm flexible).foldl min delay) := by
  induction flexible generalizing delay with
  | nil => rfl
  | cons interval rest ih =>
    rw [currentDelayLoop]
    by_cases isActive : checkTimePeriod interval.period tm = true
    · rw [activeDelays_cons_pos rest isActive, foldl_cons]
      by_cases isLess : interval.delay < delay
      · rw [if_pos (by simp [isLess, isActive]), ih, Nat.min_eq_right isLess.le]
      · rw [if_neg (by simp [isLess]), ih, Nat.min_eq_left (not_lt.mp isLess)]
    · rw [activeDelays_cons_neg rest isActive, if_neg (by simp [isActive]), ih]

theorem currentDelayLoop_none (tm : Tm) (flexible : List FlexibleInterval) :
    currentDelayLoop tm none flexible = (activeDelays tm flexible).min? := by
  induction flexible with
  | nil => rfl
  | cons interval rest ih =>
    rw [currentDelayLoop]
    by_cases isActive : checkTimePeriod interval.period tm = true
    · rw [activeDelays_cons_pos rest isActive, if_pos (by simp [isActive]),
        currentDelayLoop_some]
      rfl
    · rw [activeDelays_cons_neg rest isActive, if_neg (by simp [isActive]), ih]

theorem getCurrentDelay_eq (offset : Int) (simpleInterval : Nat)
    (flexible : List FlexibleInterval) (t : Int) :
    getCurrentDelay offset simpleInterval flexible t =
      delayAt offset simpleInterval flexible t := by
  rw [getCurrentDelay, currentDelayLoop_none]
  rfl

theorem delayAt_steady {simpleInterval : Nat} (steady : Steady offset flexible t s) :
    delayAt offset simpleInterval flexible s = delayAt offset simpleInterval flexible t := by
  unfold delayAt activeDelays
  rw [filter_congr steady]

theorem delayAt_mem (offset : Int) (simpleInterval : Nat) (flexible : List FlexibleInterval)
    (t : Int) :
    delayAt offset simpleInterval flexible t = simpleInterval ∨
      ∃ interval ∈ flexible, delayAt offset simpleInterval flexible t = interval.delay := by
  unfold delayAt
  cases smallest : (activeDelays (localtime offset t) flexible).min? with
  | none => exact .inl rfl
  | some delay =>
    obtain ⟨interval, isIn, same⟩ := List.mem_map.mp (min?_mem smallest)
    exact .inr ⟨interval, mem_of_mem_filter isIn, same.symm⟩

/-! ## The first check of a delay -/

theorem raiseTo_spec {delay : Nat} {limit nextcheck : Int} (isPositive : 0 < delay)
    (isClose : nextcheck - delay < limit) :
    limit ≤ raiseTo delay limit nextcheck ∧ raiseTo delay limit nextcheck - delay < limit ∧
      raiseTo delay limit nextcheck ≡ nextcheck [ZMOD delay] := by
  fun_induction raiseTo delay limit nextcheck with
  | case1 nextcheck isBelow ih =>
    obtain ⟨isAfter, isFirst, isSame⟩ := ih (by omega)
    exact ⟨isAfter, isFirst, isSame.trans Int.add_modEq_right⟩
  | case2 nextcheck notBelow =>
    exact ⟨by omega, isClose, Int.ModEq.refl _⟩

theorem nextcheckFrom_spec {seed delay : Nat} {limit : Int} (isPositive : delay ≠ 0)
    (nonneg : 0 ≤ t) (isLimit : t ≤ limit) :
    IsLeast {s | limit ≤ s ∧ s ≡ seed [ZMOD delay]} (nextcheckFrom seed delay t limit) := by
  have belowTime : (delay : Int) * t.tdiv delay ≤ t := by
    rw [Int.tdiv_eq_ediv_of_nonneg nonneg]
    exact Int.mul_ediv_self_le (by omega)
  have belowDelay : ((seed % delay : Nat) : Int) < delay := by
    exact_mod_cast Nat.mod_lt seed (by omega)
  have isClose : (delay : Int) * t.tdiv delay + (seed % delay : Nat) - delay < limit := by omega
  obtain ⟨isAfter, isFirst, isSame⟩ := raiseTo_spec (Nat.pos_of_ne_zero isPositive) isClose
  rw [nextcheckFrom, if_pos isPositive]
  have isMultiple : (delay : Int) * t.tdiv delay ≡ 0 [ZMOD delay] :=
    Int.modEq_zero_iff_dvd.mpr (dvd_mul_right _ _)
  have isRemainder : ((seed % delay : Nat) : Int) ≡ seed [ZMOD delay] := by
    rw [Int.natCast_mod]
    exact Int.mod_modEq _ _
  have isSeed : raiseTo delay limit (delay * t.tdiv delay + (seed % delay : Nat)) ≡ seed
      [ZMOD delay] := by
    have isSum := isSame.trans (isMultiple.add isRemainder)
    rwa [zero_add] at isSum
  refine ⟨⟨isAfter, isSeed⟩, fun s isIn => ?_⟩
  by_contra isBelow
  obtain ⟨isLater, isCongruent⟩ := isIn
  have divides := (isCongruent.trans isSeed.symm).dvd
  have isFar := Int.le_of_dvd (by omega) divides
  omega

/-! ## The search -/

/-- The least check due within a year, where there is one, and a later time in every case. -/
def Found (offset : Int) (seed simpleInterval : Nat) (flexible : List FlexibleInterval)
    (now nextcheck : Int) : Prop :=
  now < nextcheck ∧
    ((∃ t, now < t ∧ t < now + secPerYear ∧ IsCheck offset seed simpleInterval flexible t) →
      IsLeast {t | now < t ∧ t < now + secPerYear ∧
        IsCheck offset seed simpleInterval flexible t} nextcheck)

/-- The time that stands for no check is far ahead, or is not needed. -/
def Sentinel (simpleInterval : Nat) (flexible : List FlexibleInterval) (now : Int) : Prop :=
  now + secPerYear ≤ zbxJan2038 ∨
    simpleInterval ≠ 0 ∧ ∀ interval ∈ flexible, interval.delay ≠ 0

variable {seed simpleInterval : Nat} {now : Int}

theorem Sentinel.far (sentinel : Sentinel simpleInterval flexible now)
    (isZero : delayAt offset simpleInterval flexible t = 0) : now + secPerYear ≤ zbxJan2038 := by
  refine sentinel.resolve_right fun notZero => ?_
  obtain isSimple | ⟨interval, isIn, isDelay⟩ := delayAt_mem offset simpleInterval flexible t
  · exact notZero.1 (isSimple.symm.trans isZero)
  · exact notZero.2 interval isIn (isDelay.symm.trans isZero)

/-- No check is due between the two times. -/
def NoCheck (offset : Int) (seed simpleInterval : Nat) (flexible : List FlexibleInterval)
    (now limit : Int) : Prop :=
  ∀ s, now < s → s < limit → ¬IsCheck offset seed simpleInterval flexible s

theorem Found.ofFirst {nextcheck : Int} (isLater : now < nextcheck)
    (isCheck : IsCheck offset seed simpleInterval flexible nextcheck)
    (noCheck : NoCheck offset seed simpleInterval flexible now nextcheck) :
    Found offset seed simpleInterval flexible now nextcheck := by
  refine ⟨isLater, ?_⟩
  rintro ⟨t, isAfter, isWithin, isDue⟩
  have isFirst : ∀ s, now < s → IsCheck offset seed simpleInterval flexible s → nextcheck ≤ s :=
    fun s isAfter isDue => not_lt.mp fun isBefore => noCheck s isAfter isBefore isDue
  refine ⟨⟨isLater, (isFirst t isAfter isDue).trans_lt isWithin, isCheck⟩, ?_⟩
  exact fun s isDue => isFirst s isDue.1 isDue.2.2

theorem Found.ofNone {nextcheck : Int} (isLater : now < nextcheck)
    (noCheck : NoCheck offset seed simpleInterval flexible now (now + secPerYear)) :
    Found offset seed simpleInterval flexible now nextcheck :=
  ⟨isLater, fun ⟨t, isAfter, isWithin, isDue⟩ => absurd isDue (noCheck t isAfter isWithin)⟩

/-- The search tries a piece that starts at `t`, from `limit` on. -/
structure Trying (offset : Int) (seed simpleInterval : Nat) (flexible : List FlexibleInterval)
    (now t limit : Int) : Prop where
  isLimit : t ≤ limit
  isLater : now < limit
  covers : ∀ s, now < s → t ≤ s → limit ≤ s
  noEarlier : NoCheck offset seed simpleInterval flexible now t

section Piece

variable {limit stop : Int}

theorem Trying.noCheck (trying : Trying offset seed simpleInterval flexible now t limit)
    (nonneg : 0 ≤ t) (steady : ∀ s, t ≤ s → s < stop → Steady offset flexible t s)
    (isWithin : delayAt offset simpleInterval flexible t ≠ 0 →
      stop ≤ nextcheckFrom seed (delayAt offset simpleInterval flexible t) t limit) :
    NoCheck offset seed simpleInterval flexible now stop := by
  intro s isAfter isBefore isDue
  by_cases isEarlier : s < t
  · exact trying.noEarlier s isAfter isEarlier isDue
  · have sameDelay : delayAt offset simpleInterval flexible s =
        delayAt offset simpleInterval flexible t :=
      delayAt_steady (steady s (not_lt.mp isEarlier) isBefore)
    unfold IsCheck at isDue
    rw [sameDelay] at isDue
    have isLeast : IsLeast _ (nextcheckFrom seed _ t limit) :=
      nextcheckFrom_spec isDue.1 nonneg trying.isLimit
    have isFirst := isLeast.2 ⟨trying.covers s isAfter (not_lt.mp isEarlier), isDue.2⟩
    have isAfterStop := isWithin isDue.1
    omega

/-- A piece with a delay: the check that is tried is due if it is in the piece. -/
theorem Trying.found (trying : Trying offset seed simpleInterval flexible now t limit)
    (nonneg : 0 ≤ t) (notZero : delayAt offset simpleInterval flexible t ≠ 0)
    (steady : ∀ s, t ≤ s →
      s ≤ nextcheckFrom seed (delayAt offset simpleInterval flexible t) t limit →
      Steady offset flexible t s) :
    Found offset seed simpleInterval flexible now
      (nextcheckFrom seed (delayAt offset simpleInterval flexible t) t limit) := by
  obtain ⟨⟨isAfter, isSeed⟩, -⟩ : IsLeast _ (nextcheckFrom seed _ t limit) :=
    nextcheckFrom_spec notZero nonneg trying.isLimit
  have sameDelay : delayAt offset simpleInterval flexible _ = _ :=
    delayAt_steady (steady _ (trying.isLimit.trans isAfter) le_rfl)
  refine Found.ofFirst (trying.isLater.trans_le isAfter) ?_ ?_
  · unfold IsCheck
    rw [sameDelay]
    exact ⟨notZero, isSeed⟩
  · exact trying.noCheck nonneg (fun s later before => steady s later before.le)
      fun _ => le_rfl

end Piece

theorem nextcheckFrom_zero {t limit : Int} : nextcheckFrom seed 0 t limit = zbxJan2038 :=
  if_neg (not_not.mpr rfl)

theorem nextcheckFrom_gt {limit : Int} (nonneg : 0 ≤ t) (isLimit : t ≤ limit)
    (isLater : now < limit) (sentinel : Sentinel simpleInterval flexible now) :
    now < nextcheckFrom seed (delayAt offset simpleInterval flexible t) t limit := by
  by_cases isZero : delayAt offset simpleInterval flexible t = 0
  · have isFar := sentinel.far isZero
    rw [isZero, nextcheckFrom_zero]
    have year : 0 < secPerYear := by decide
    omega
  · exact isLater.trans_le (nextcheckFrom_spec isZero nonneg isLimit).1.1

theorem searchLoop_spec (allPeriods : ∀ interval ∈ flexible, IsPeriod interval.period)
    (nonneg : 0 ≤ now) (sentinel : Sentinel simpleInterval flexible now)
    (scheduling : List SchedulerInterval) {fuel attempt : Nat} {nextcheck : Int}
    (isAttempt : attempt = 0 ∧ t = now ∨ attempt ≠ 0 ∧ now < t ∧ now < nextcheck)
    (noEarlier : NoCheck offset seed simpleInterval flexible now t)
    (enough : now + secPerYear - t < fuel) (isFuel : 0 < fuel) :
    ∃ result, searchLoop offset seed simpleInterval (some ⟨flexible, scheduling⟩)
        (now + secPerYear) fuel attempt t nextcheck = some result ∧
      Found offset seed simpleInterval flexible now result := by
  induction fuel generalizing attempt t nextcheck with
  | zero => exact absurd isFuel (Nat.lt_irrefl 0)
  | succ fuel ih =>
    have trying : Trying offset seed simpleInterval flexible now t
        (if attempt = 0 then t + 1 else t) := by
      refine ⟨?_, ?_, ?_, noEarlier⟩
      · split <;> omega
      · split <;> omega
      · intro s isAfter later
        split <;> omega
    have nonnegTime : 0 ≤ t := by omega
    rw [searchLoop]
    by_cases isInside : t < now + secPerYear
    · rw [if_pos isInside]
      dsimp only
      rw [getCurrentDelay_eq]
      generalize (if attempt = 0 then t + 1 else t) = limit at trying ⊢
      have isLater : now < nextcheckFrom seed (delayAt offset simpleInterval flexible t) t limit :=
        nextcheckFrom_gt nonnegTime trying.isLimit trying.isLater sentinel
      cases isNext : getNextDelayInterval offset flexible t with
      | none =>
        obtain rfl := getNextDelayInterval_none allPeriods isNext
        refine ⟨_, rfl, ?_⟩
        by_cases isZero : delayAt offset simpleInterval [] t = 0
        · exact Found.ofNone isLater
            (trying.noCheck nonnegTime (fun _ _ _ => nofun) fun notZero => absurd isZero notZero)
        · exact trying.found nonnegTime isZero fun _ _ _ => nofun
      | some nextInterval =>
        obtain ⟨isAhead, steady⟩ := getNextDelayInterval_some allPeriods isNext
        dsimp only
        by_cases isBeyond :
            nextcheckFrom seed (delayAt offset simpleInterval flexible t) t limit ≥ nextInterval
        · rw [if_pos isBeyond]
          refine ih (.inr ⟨Nat.succ_ne_zero attempt, by omega, isLater⟩)
            (trying.noCheck nonnegTime steady fun _ => isBeyond) (by omega) (by omega)
        · rw [if_neg isBeyond]
          refine ⟨_, rfl, ?_⟩
          by_cases isZero : delayAt offset simpleInterval flexible t = 0
          · have isFar := sentinel.far isZero
            have noCheck := trying.noCheck nonnegTime steady fun notZero => absurd isZero notZero
            rw [isZero, nextcheckFrom_zero] at isBeyond
            exact Found.ofNone isLater fun s isAfter isBefore => noCheck s isAfter (by omega)
          · exact trying.found nonnegTime isZero fun s later before =>
              steady s later (by omega)
    · rw [if_neg isInside]
      have year : 0 < secPerYear := by decide
      refine ⟨nextcheck, rfl, Found.ofNone (by omega) fun s isAfter isBefore => ?_⟩
      exact noEarlier s isAfter (by omega)

/-! ## Accepted intervals -/

section Parsed

variable {text rest : Common.Text.Text}

theorem isUintNRange_bounds {n min max value : Nat}
    (parsed : isUintNRange text n min max = some value) : min ≤ value ∧ value ≤ max := by
  unfold isUintNRange at parsed
  split at parsed
  · cases parsed
  · have isWithin := (filter_eq_some_iff.mp parsed).2
    simpa using isWithin

theorem dayParse_bounds {day : Nat} (parsed : dayParse text = some (day, rest)) :
    1 ≤ day ∧ day ≤ 7 := by
  unfold dayParse at parsed
  split at parsed
  · cases parsed
  · next char others =>
      split at parsed
      · next isDay =>
          obtain ⟨rfl, -⟩ := Prod.mk.inj (some.inj parsed)
          have lower : ('1' : Char).toNat ≤ char.toNat := isDay.1
          have upper : char.toNat ≤ ('7' : Char).toNat := isDay.2
          have one : ('1' : Char).toNat = 49 := rfl
          have seven : ('7' : Char).toNat = 55 := rfl
          have zero : ('0' : Char).toNat = 48 := rfl
          rw [digitValue]
          omega
      · cases parsed

theorem daysParse_bounds {startDay endDay : Nat}
    (parsed : daysParse text = some (startDay, endDay, rest)) :
    1 ≤ startDay ∧ startDay ≤ endDay ∧ endDay ≤ 7 := by
  obtain ⟨⟨day, afterDay⟩, isDay, parsed⟩ := bind_eq_some_iff.mp parsed
  have isStart := dayParse_bounds isDay
  dsimp only at parsed
  split at parsed
  · obtain ⟨⟨last, afterLast⟩, isLast, parsed⟩ := bind_eq_some_iff.mp parsed
    have isEnd := dayParse_bounds isLast
    dsimp only at parsed
    split at parsed
    · cases parsed
    · cases parsed
      omega
  · cases parsed
    omega

theorem timeParse_bounds {time : Nat} (parsed : timeParse text = some (time, rest)) :
    time ≤ 86400 := by
  obtain ⟨hours, isHours, parsed⟩ := bind_eq_some_iff.mp parsed
  have hoursRange := isUintNRange_bounds isHours
  split at parsed
  · split at parsed
    · obtain ⟨minutes, isMinutes, parsed⟩ := bind_eq_some_iff.mp parsed
      have minutesRange := isUintNRange_bounds isMinutes
      split at parsed
      · cases parsed
      · next notLate =>
          obtain ⟨rfl, -⟩ := Prod.mk.inj (some.inj parsed)
          simp only [secPerHour, secPerMin]
          omega
    · cases parsed
  · cases parsed

theorem isPeriod_of_timePeriodParse {period : TimePeriod}
    (parsed : timePeriodParse text = some period) : IsPeriod period := by
  obtain ⟨⟨startDay, endDay, afterDays⟩, isDays, parsed⟩ := bind_eq_some_iff.mp parsed
  obtain ⟨isStart, isOrder, isEnd⟩ := daysParse_bounds isDays
  dsimp only at parsed
  split at parsed
  · obtain ⟨⟨startTime, afterStart⟩, isStartTime, parsed⟩ := bind_eq_some_iff.mp parsed
    dsimp only at parsed
    split at parsed
    · obtain ⟨⟨endTime, afterEnd⟩, isEndTime, parsed⟩ := bind_eq_some_iff.mp parsed
      have isEndBound := timeParse_bounds isEndTime
      dsimp only at parsed
      split at parsed
      · cases parsed
      · next isEarlier =>
          split at parsed
          · cases parsed
          · cases parsed
            exact ⟨isStart, isOrder, isEnd, not_le.mp isEarlier, isEndBound⟩
    · cases parsed
  · cases parsed

end Parsed

theorem isPeriod_of_preprocLoop {simpleInterval : Nat} {custom accepted : CustomIntervals}
    {str : Common.Text.Text} {next : Next}
    (ran : preprocLoop simpleInterval custom str next = .ok accepted)
    (allPeriods : ∀ interval ∈ custom.flexible, IsPeriod interval.period) :
    ∀ interval ∈ accepted.flexible, IsPeriod interval.period := by
  fun_induction preprocLoop simpleInterval custom str next with
  | case1 => cases ran
  | case2 =>
    obtain rfl := Except.ok.inj ran
    exact allPeriods
  | case3 => cases ran
  | case4 custom str text isFirst interval parsed notZero ih =>
    refine ih ran ?_
    rintro other (_ | ⟨_, isIn⟩)
    · obtain ⟨_, -, isPeriod⟩ := bind_eq_some_iff.mp parsed
      obtain ⟨_, -, isPeriod⟩ := bind_eq_some_iff.mp isPeriod
      obtain ⟨period, isParsed, same⟩ := map_eq_some_iff.mp isPeriod
      rw [← same]
      exact isPeriod_of_timePeriodParse isParsed
    · exact allPeriods other isIn
  | case5 => cases ran
  | case6 custom str text notFirst interval parsed ih => exact ih ran allPeriods
  | case7 => cases ran

def Accepted (flexible : List FlexibleInterval) : Prop :=
  ∃ str simpleInterval,
    zbxIntervalPreproc str true = .ok (simpleInterval, some ⟨flexible, []⟩)

theorem Accepted.allPeriods (accepted : Accepted flexible) :
    ∀ interval ∈ flexible, IsPeriod interval.period := by
  obtain ⟨str, simpleInterval, ran⟩ := accepted
  unfold zbxIntervalPreproc at ran
  split at ran
  · cases ran
  · rw [if_pos rfl] at ran
    cases custom : preprocLoop _ ⟨[], []⟩ str (nextDelim str) with
    | error failure =>
      rw [custom] at ran
      cases ran
    | ok custom' =>
      rw [custom] at ran
      cases ran
      exact isPeriod_of_preprocLoop custom nofun

/-- The search ends and finds the next check. -/
def Exact (intervalNextcheck : SchedulerInterval → Int → Int) (offset : Int)
    (seed itemType simpleInterval : Nat) (flexible : List FlexibleInterval) (now : Int) : Prop :=
  ∃ nextcheck, calculateItemNextcheck intervalNextcheck offset seed itemType simpleInterval
      (some ⟨flexible, []⟩) now = some nextcheck ∧
    Found offset seed simpleInterval flexible now nextcheck

/-- The next check is exact from the epoch on while the time that stands for no check is a year
ahead or no delay is zero. -/
theorem calculateItemNextcheck_exact (intervalNextcheck : SchedulerInterval → Int → Int)
    (offset : Int) (seed itemType simpleInterval : Nat) (flexible : List FlexibleInterval)
    (now : Int) (accepted : Accepted flexible) (notActive : itemType ≠ itemTypeZabbixActive)
    (nonneg : 0 ≤ now) (sentinel : Sentinel simpleInterval flexible now) :
    Exact intervalNextcheck offset seed itemType simpleInterval flexible now := by
  have year : 0 ≤ secPerYear := by decide
  have noEarlier : NoCheck offset seed simpleInterval flexible now now :=
    fun s isAfter isBefore => absurd isAfter (not_lt.mpr isBefore.le)
  have enough : now + secPerYear - now < (secPerYear.toNat + 1 : Nat) := by omega
  have isFirst {nextcheck : Int} : 0 = 0 ∧ now = now ∨ 0 ≠ 0 ∧ now < now ∧ now < nextcheck :=
    .inl ⟨rfl, rfl⟩
  obtain ⟨result, ran, found⟩ := searchLoop_spec accepted.allPeriods nonneg sentinel [] isFirst
    noEarlier enough (Nat.succ_pos _)
  refine ⟨result, ?_, found⟩
  rw [calculateItemNextcheck, if_neg notActive]
  dsimp only
  rw [ran, schedulerGetNextcheck]
  rfl

def mondays : List FlexibleInterval :=
  [{ period := { startDay := 1, endDay := 1, startTime := 0, endTime := 86400 }, delay := 60 }]

def mondaysPart : Common.Text.Text :=
  ['6', '0', '/', '1', ',', '0', ':', '0', '0', '-', '2', '4', ':', '0', '0']

theorem accepted_mondays : Accepted mondays := by
  refine ⟨'0' :: ';' :: mondaysPart, 0, ?_⟩
  have isSimple : isTimeSuffix ('0' :: ';' :: mondaysPart)
      (lengthUpTo ';' ('0' :: ';' :: mondaysPart)) = some 0 := by decide +kernel
  have isPart : nextDelim ('0' :: ';' :: mondaysPart) = .part mondaysPart := by decide
  have isLast : nextDelim mondaysPart = .finished := by decide
  have parsed : flexibleIntervalParse (upTo ';' mondaysPart) = mondays.head? := by
    decide +kernel
  rw [zbxIntervalPreproc, isSimple]
  dsimp only
  rw [if_pos rfl, isPart, preprocLoop, if_pos (by decide), parsed, isLast]
  dsimp only [mondays, head?_cons]
  rw [if_neg (by decide), preprocLoop]
  rfl

theorem calculateItemNextcheck_exact_mondays : Exact (fun _ _ => 0) 3600 5 0 0 mondays 1700000000 :=
  calculateItemNextcheck_exact _ 3600 5 0 0 mondays 1700000000 accepted_mondays (by decide)
    (by decide) (.inl (by decide))

theorem accepted_nil : Accepted [] := by
  refine ⟨['1', '0'], 10, ?_⟩
  have isSimple : isTimeSuffix ['1', '0'] (lengthUpTo ';' ['1', '0']) = some 10 := by
    decide +kernel
  have isLast : nextDelim ['1', '0'] = .finished := by decide
  rw [zbxIntervalPreproc, isSimple]
  dsimp only
  rw [if_pos rfl, isLast, preprocLoop]
  rfl

/-- From 2038 on the time that stands for no check has passed, and before the epoch the
division rounds up. -/
theorem calculateItemNextcheck_not_exact :
    (Accepted mondays ∧ ¬Exact (fun _ _ => 0) 0 0 0 0 mondays zbxJan2038) ∧
      (Accepted [] ∧ ¬Exact (fun _ _ => 0) 0 9 0 10 [] (-5)) := by
  refine ⟨⟨accepted_mondays, ?_⟩, accepted_nil, ?_⟩
  · rintro ⟨nextcheck, ran, isLater, -⟩
    have isZero : getCurrentDelay 0 0 mondays zbxJan2038 = 0 := by decide +kernel
    have isNext : getNextDelayInterval 0 mondays zbxJan2038 = some (zbxJan2038 + 259200) := by
      decide +kernel
    rw [calculateItemNextcheck, if_neg (by decide)] at ran
    dsimp only at ran
    rw [searchLoop, if_pos (by decide)] at ran
    dsimp only at ran
    rw [isZero, isNext, nextcheckFrom_zero] at ran
    dsimp only at ran
    rw [if_neg (by decide)] at ran
    obtain rfl : zbxJan2038 = nextcheck := some.inj ran
    exact lt_irrefl _ isLater
  · rintro ⟨nextcheck, ran, -, isFirst⟩
    have isTried : nextcheckFrom 9 10 (-5) (-4) = 9 := by
      rw [nextcheckFrom, if_pos (by decide), raiseTo]
      rfl
    have isDelay : getCurrentDelay 0 10 [] (-5) = 10 := rfl
    rw [calculateItemNextcheck, if_neg (by decide)] at ran
    dsimp only at ran
    rw [searchLoop, if_pos (by decide)] at ran
    dsimp only at ran
    rw [isDelay, show (if 0 = 0 then (-5 : Int) + 1 else -5) = -4 from rfl, isTried] at ran
    obtain rfl : (9 : Int) = nextcheck := some.inj ran
    have isDue : (-5 : Int) < -1 ∧ -1 < -5 + secPerYear ∧ IsCheck 0 9 10 [] (-1) :=
      ⟨by decide, by decide, by unfold IsCheck; decide⟩
    exact absurd ((isFirst ⟨-1, isDue⟩).2 isDue) (by decide)

end Zabbix.Intervals.Search
