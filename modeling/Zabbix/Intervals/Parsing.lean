import Zabbix.Common.Integers
import Zabbix.Common.MacroContext

/-!
# Update intervals

The parsers of the update interval of an item: a simple interval, and flexible and scheduling
intervals after it, each behind a semicolon.  A parser that the source calls with a pointer and
a length gets the characters of that length.
-/

namespace Zabbix.Intervals.Parsing

open Common.Text Common.Integers Common.MacroContext List Option

/-! ## Time periods -/

structure TimePeriod where
  startDay : Nat
  endDay : Nat
  startTime : Nat
  endTime : Nat
deriving DecidableEq

/-- The digits of an hour or of a minute: at most three are read. -/
def timeDigits (text : Text) : Text :=
  (text.take 3).takeWhile Char.isDigit

/-- The time of day and the characters after it. -/
def timeParse (text : Text) : Option (Nat × Text) :=
  (isUintNRange text (timeDigits text).length 0 24).bind fun hours =>
    match text.drop (timeDigits text).length with
    | ':' :: rest =>
      if (timeDigits rest).length = 2 then
        (isUintNRange rest 2 0 59).bind fun minutes =>
          if hours = 24 ∧ minutes ≠ 0 then none
          else some (secPerHour * hours + secPerMin * minutes, rest.drop 2)
      else none
    | _ => none

/-- A day of the week and the characters after it. -/
def dayParse : Text → Option (Nat × Text)
  | [] => none
  | char :: rest => if '1' ≤ char ∧ char ≤ '7' then some (digitValue char, rest) else none

/-- The start day, the end day and the characters after them. -/
def daysParse (text : Text) : Option (Nat × Nat × Text) :=
  (dayParse text).bind fun (startDay, rest) =>
    match rest with
    | '-' :: rest =>
      (dayParse rest).bind fun (endDay, rest) =>
        if startDay > endDay then none else some (startDay, endDay, rest)
    | rest => some (startDay, startDay, rest)

def timePeriodParse (text : Text) : Option TimePeriod :=
  (daysParse text).bind fun (startDay, endDay, rest) =>
    match rest with
    | ',' :: rest =>
      (timeParse rest).bind fun (startTime, rest) =>
        match rest with
        | '-' :: rest =>
          (timeParse rest).bind fun (endTime, rest) =>
            if startTime ≥ endTime then none
            else if rest ≠ [] then none
            else some { startDay, endDay, startTime, endTime }
        | _ => none
    | _ => none

structure FlexibleInterval where
  period : TimePeriod
  delay : Nat
deriving DecidableEq

/-- The characters before the first separator. -/
def upTo (sep : Char) (text : Text) : Text :=
  text.takeWhile (· ≠ sep)

def after (sep : Char) (text : Text) : Option Text :=
  (text.dropWhile (· ≠ sep)).tail?

def flexibleIntervalParse (text : Text) : Option FlexibleInterval :=
  (isTimeSuffix text (some (upTo '/' text).length)).bind fun delay =>
    (after '/' text).bind fun rest =>
      (timePeriodParse rest).map fun period => { period, delay }

/-! ## Scheduling intervals -/

structure SchedulerFilter where
  start : Nat
  stop : Nat
  step : Nat
deriving DecidableEq

structure SchedulerInterval where
  mdays : List SchedulerFilter := []
  wdays : List SchedulerFilter := []
  hours : List SchedulerFilter := []
  minutes : List SchedulerFilter := []
  seconds : List SchedulerFilter := []
  filterLevel : Nat := 0
deriving DecidableEq

/-- The bounds of a time unit and the number of characters of its values. -/
structure FilterUnit where
  min : Nat
  max : Nat
  varLen : Nat

/-- A number of at most `varLen` digits, and the characters after it. -/
def filterNumber (varLen min max : Nat) (text : Text) : Option (Nat × Text) :=
  let digits := text.takeWhile Char.isDigit
  if digits.length > varLen then none
  else (isUintNRange text digits.length min max).map fun value =>
    (value, text.drop digits.length)

/-- `<from>`, `<from>-<to>` or nothing, and the characters after it. -/
def filterRange (unit : FilterUnit) (text : Text) : Option (Nat × Nat × Text) :=
  if text.takeWhile Char.isDigit = [] then some (unit.min, unit.max, text)
  else
    (filterNumber unit.varLen unit.min unit.max text).bind fun (start, rest) =>
      match rest with
      | '-' :: rest =>
        (filterNumber unit.varLen unit.min unit.max rest).bind fun (stop, rest) =>
          if stop < start then none else some (start, stop, rest)
      -- a step is valid only after a range
      | '/' :: _ => none
      | rest => some (start, start, rest)

def filterFragment (unit : FilterUnit) (text : Text) : Option (SchedulerFilter × Text) :=
  (filterRange unit text).bind fun (start, stop, rest) =>
    match rest with
    | '/' :: steps =>
      (filterNumber unit.varLen 1 (stop - start) steps).map fun (step, rest) =>
        ({ start, stop, step }, rest)
    | rest => if rest.length = text.length then none else some ({ start, stop, step := 1 }, rest)

variable {unit : FilterUnit} {text rest : Text}

theorem filterNumber_shorter {varLen min max value : Nat}
    (read : filterNumber varLen min max text = some (value, rest)) :
    rest.length < text.length := by
  unfold filterNumber at read
  dsimp only at read
  split at read
  · cases read
  · obtain ⟨value, isValue, same⟩ := map_eq_some_iff.mp read
    obtain rfl := (Prod.mk.inj same).2
    unfold isUintNRange at isValue
    split at isValue
    · cases isValue
    · next notEmpty =>
        rw [not_or] at notEmpty
        have shorter := length_pos_iff.mpr notEmpty.1
        rw [length_drop]
        omega

theorem filterRange_shorter {start stop : Nat}
    (read : filterRange unit text = some (start, stop, rest)) : rest.length ≤ text.length := by
  unfold filterRange at read
  split at read
  · cases read
    exact Nat.le_refl _
  · obtain ⟨⟨start, afterStart⟩, isStart, read⟩ := bind_eq_some_iff.mp read
    have shorter := filterNumber_shorter isStart
    dsimp only at read
    split at read
    · next afterDash =>
        obtain ⟨⟨stop, afterStop⟩, isStop, read⟩ := bind_eq_some_iff.mp read
        have shorterStop := filterNumber_shorter isStop
        rw [length_cons] at shorter
        dsimp only at read
        split at read
        · cases read
        · cases read
          omega
    · cases read
    · cases read
      omega

theorem filterFragment_shorter {filter : SchedulerFilter}
    (read : filterFragment unit text = some (filter, rest)) : rest.length < text.length := by
  obtain ⟨⟨start, stop, afterRange⟩, isRange, read⟩ := bind_eq_some_iff.mp read
  have shorter := filterRange_shorter isRange
  dsimp only at read
  split at read
  · next steps =>
      obtain ⟨⟨step, afterStep⟩, isStep, same⟩ := map_eq_some_iff.mp read
      have shorterStep : afterStep.length < steps.length := filterNumber_shorter isStep
      obtain rfl : afterStep = rest := (Prod.mk.inj same).2
      rw [length_cons] at shorter
      omega
  · split at read
    · cases read
    · cases read
      omega

/-- The filter fragments, and the characters after them. -/
def schedulerParseFilterR (unit : FilterUnit) (text : Text) :
    Option (List SchedulerFilter × Text) :=
  match _read : filterFragment unit text with
  | none => none
  | some (filter, ',' :: rest) =>
    if rest = [] then none
    else (schedulerParseFilterR unit rest).map fun (filters, rest) => (filter :: filters, rest)
  | some (filter, rest) => some ([filter], rest)
termination_by text.length
decreasing_by
  exact Nat.lt_of_succ_lt (filterFragment_shorter _read)

theorem schedulerParseFilterR_shorter {filters : List SchedulerFilter}
    (read : schedulerParseFilterR unit text = some (filters, rest)) :
    rest.length < text.length := by
  fun_induction schedulerParseFilterR unit text generalizing filters rest with
  | case1 => cases read
  | case2 => cases read
  | case3 text filter others isFragment _ ih =>
    obtain ⟨⟨more, afterMore⟩, isMore, same⟩ := map_eq_some_iff.mp read
    obtain rfl := (Prod.mk.inj same).2
    have shorter := filterFragment_shorter isFragment
    have shorterMore := ih isMore
    rw [length_cons] at shorter
    omega
  | case4 text filter others _ isFragment =>
    cases read
    exact filterFragment_shorter isFragment

/-- Fails if a filter already exists: `h0h12` is no interval. -/
def schedulerParseFilter (filter : List SchedulerFilter) (unit : FilterUnit) (text : Text) :
    Option (List SchedulerFilter × Text) :=
  if filter ≠ [] then none else schedulerParseFilterR unit text

def filterLevelDay : Nat := 1
def filterLevelHour : Nat := 2
def filterLevelMinute : Nat := 3
def filterLevelSecond : Nat := 4

def levelParse (interval : SchedulerInterval) (level : Nat) (filter : List SchedulerFilter)
    (unit : FilterUnit) (update : List SchedulerFilter → SchedulerInterval) (text : Text) :
    Option (SchedulerInterval × Text) :=
  if level < interval.filterLevel then none
  else
    (schedulerParseFilter filter unit text).map fun parsed =>
      ({ update parsed.1 with filterLevel := level }, parsed.2)

/-- One turn of the loop of `scheduler_interval_parse`. -/
def schedulerFilterParse (interval : SchedulerInterval) :
    Text → Option (SchedulerInterval × Text)
  | 'h' :: rest =>
    levelParse interval filterLevelHour interval.hours ⟨0, 23, 2⟩
      (fun hours => { interval with hours }) rest
  | 's' :: rest =>
    levelParse interval filterLevelSecond interval.seconds ⟨0, 59, 2⟩
      (fun seconds => { interval with seconds }) rest
  | 'w' :: 'd' :: rest =>
    levelParse interval filterLevelDay interval.wdays ⟨1, 7, 1⟩
      (fun wdays => { interval with wdays }) rest
  | 'm' :: 'd' :: rest =>
    if interval.wdays ≠ [] then none
    else
      levelParse interval filterLevelDay interval.mdays ⟨1, 31, 2⟩
        (fun mdays => { interval with mdays }) rest
  | 'm' :: rest =>
    levelParse interval filterLevelMinute interval.minutes ⟨0, 59, 2⟩
      (fun minutes => { interval with minutes }) rest
  | _ => none

theorem schedulerParseFilter_shorter {filter filters : List SchedulerFilter}
    (read : schedulerParseFilter filter unit text = some (filters, rest)) :
    rest.length < text.length := by
  unfold schedulerParseFilter at read
  split at read
  · cases read
  · exact schedulerParseFilterR_shorter read

theorem levelParse_shorter {interval parsed : SchedulerInterval} {level : Nat}
    {filter : List SchedulerFilter} {update : List SchedulerFilter → SchedulerInterval}
    (read : levelParse interval level filter unit update text = some (parsed, rest)) :
    rest.length < text.length := by
  unfold levelParse at read
  split at read
  · cases read
  · obtain ⟨⟨filters, afterFilters⟩, isFilter, same⟩ := map_eq_some_iff.mp read
    obtain rfl : afterFilters = rest := (Prod.mk.inj same).2
    exact schedulerParseFilter_shorter isFilter

theorem schedulerFilterParse_shorter {interval parsed : SchedulerInterval}
    (read : schedulerFilterParse interval text = some (parsed, rest)) :
    rest.length < text.length := by
  unfold schedulerFilterParse at read
  split at read
  · exact Nat.lt_succ_of_lt (levelParse_shorter read)
  · exact Nat.lt_succ_of_lt (levelParse_shorter read)
  · exact Nat.lt_succ_of_lt (Nat.lt_succ_of_lt (levelParse_shorter read))
  · split at read
    · cases read
    · exact Nat.lt_succ_of_lt (Nat.lt_succ_of_lt (levelParse_shorter read))
  · exact Nat.lt_succ_of_lt (levelParse_shorter read)
  · cases read

/-- The loop of `scheduler_interval_parse`. -/
def schedulerLoop (interval : SchedulerInterval) (text : Text) : Option SchedulerInterval :=
  if text = [] then some interval
  else
    match _read : schedulerFilterParse interval text with
    | none => none
    | some (interval, rest) => schedulerLoop interval rest
termination_by text.length
decreasing_by exact schedulerFilterParse_shorter _read

def schedulerIntervalParse (text : Text) : Option SchedulerInterval :=
  if text = [] then none else schedulerLoop {} text

/-! ## The two parsers -/

/-- The error of a part of the text, or of the value of the simple interval. -/
inductive Failure
  | invalid (part : String) (fragment : Text)
  | invalidValue (simpleInterval : Nat)
deriving DecidableEq

def parseUserMacro (str : Text) : Option Nat :=
  if str.head? ≠ some '{' ∨ str.tail.head? ≠ some '$' then none
  else (zbxUserMacroParse str false).map fun location => location.macroR + 1

/-- The length that a separator leaves to validate. -/
def lengthUpTo (sep : Char) (str : Text) : Option Nat :=
  if sep ∈ str then some (upTo sep str).length else none

/-- The interval before the separator, and its length. -/
def parseSimpleInterval (str : Text) (sep : Char) : Option (Nat × Nat) :=
  (isTimeSuffix str (lengthUpTo sep str)).map fun value =>
    (value, (lengthUpTo sep str).getD str.length)

/-- After a part of the text: its end, or the next part behind a semicolon. -/
inductive Next
  | finished
  | part (str : Text)
deriving DecidableEq

/-- `'\0' == *delim || ';' == *delim`, and what follows then. -/
def nextPart : Text → Option Next
  | [] => some .finished
  | ';' :: rest => some (.part rest)
  | _ => none

/-- The part after the next semicolon, found by `strchr`. -/
def nextDelim (str : Text) : Next :=
  match after ';' str with
  | none => .finished
  | some rest => .part rest

def macroPart (str : Text) : Option Next :=
  (parseUserMacro str).bind fun len => nextPart (str.drop len)

/-- `'/' == *delim`, and the text behind it. -/
def slashAfter : Text → Option Text
  | '/' :: rest => some rest
  | _ => none

/-- The delay of a flexible interval and its length; that of a user macro is taken for one. -/
def parseDelay (str : Text) : Option (Nat × Nat) :=
  match parseUserMacro str with
  | some len => some (1, len)
  | none => parseSimpleInterval str '/'

/-- The delay of a flexible interval with a slash behind it, its length and the text behind
the slash. -/
def findSlash (str : Text) : Option (Nat × Nat × Text) :=
  (parseDelay str).bind fun (interval, len) =>
    (slashAfter (str.drop len)).map fun rest => (interval, len, rest)

/-- One turn of the loop of `zbx_validate_interval`. -/
def validateCustom (simpleInterval : Nat) (str : Text) : Except Failure Next :=
  match findSlash str with
  | some (interval, len, rest) =>
    if interval = 0 ∧ simpleInterval = 0 then
      .error (.invalid "flexible interval" (str.take len))
    else
      match macroPart rest with
      | some next => .ok next
      | none =>
        match timePeriodParse (upTo ';' rest) with
        | some _ => .ok (nextDelim rest)
        | none => .error (.invalid "flexible period" (upTo ';' rest))
  | none =>
    match macroPart str with
    | some next => .ok next
    | none =>
      match schedulerIntervalParse (upTo ';' str) with
      | some _ => .ok (nextDelim str)
      | none => .error (.invalid "custom interval" (upTo ';' str))

def Next.size : Next → Nat
  | .finished => 0
  | .part str => str.length + 1

theorem size_nextPart {next : Next} (isNext : nextPart text = some next) :
    next.size ≤ text.length := by
  unfold nextPart at isNext
  split at isNext
  · cases isNext
    exact Nat.le_refl _
  · cases isNext
    exact Nat.le_refl _
  · cases isNext

theorem size_nextDelim (str : Text) : (nextDelim str).size ≤ str.length := by
  have shorter := (dropWhile_suffix (fun char => decide (char ≠ ';')) (l := str)).length_le
  unfold nextDelim after
  cases remains : str.dropWhile (fun char => decide (char ≠ ';')) with
  | nil => exact Nat.zero_le _
  | cons char rest =>
    rw [remains] at shorter
    exact shorter

theorem size_macroPart {next : Next} (isNext : macroPart text = some next) :
    next.size ≤ text.length := by
  obtain ⟨len, -, isPart⟩ := bind_eq_some_iff.mp isNext
  exact (size_nextPart isPart).trans (by rw [length_drop]; omega)

theorem length_slashAfter (isSlash : slashAfter text = some rest) :
    rest.length ≤ text.length := by
  unfold slashAfter at isSlash
  split at isSlash
  · cases isSlash
    exact Nat.le_succ _
  · cases isSlash

theorem size_validateCustom {simpleInterval : Nat} {next : Next}
    (ran : validateCustom simpleInterval text = .ok next) : next.size ≤ text.length := by
  unfold validateCustom at ran
  split at ran
  · next interval len rest found =>
      have shorter : rest.length ≤ text.length := by
        obtain ⟨⟨value, length⟩, -, isRest⟩ := bind_eq_some_iff.mp found
        obtain ⟨rest', isSlash, same⟩ := map_eq_some_iff.mp isRest
        cases same
        exact (length_slashAfter isSlash).trans (by rw [length_drop]; omega)
      split at ran
      · cases ran
      · split at ran
        · next isMacro =>
            cases ran
            exact (size_macroPart isMacro).trans shorter
        · split at ran
          · cases ran
            exact (size_nextDelim rest).trans shorter
          · cases ran
  · split at ran
    · next isMacro =>
        cases ran
        exact size_macroPart isMacro
    · split at ran
      · cases ran
        exact size_nextDelim text
      · cases ran

/-- The loop of `zbx_validate_interval` and the check after it. -/
def validateLoop (simpleInterval : Nat) (custom : Bool) (next : Next) : Except Failure Unit :=
  match next with
  | .finished =>
    if custom = false ∧ simpleInterval = 0 ∨ secPerDay < simpleInterval then
      .error (.invalidValue simpleInterval)
    else .ok ()
  | .part str =>
    match _ran : validateCustom simpleInterval str with
    | .error failure => .error failure
    | .ok next => validateLoop simpleInterval true next
termination_by next.size
decreasing_by exact Nat.lt_succ_of_le (size_validateCustom _ran)

def zbxValidateInterval (str : Text) : Except Failure Unit :=
  match macroPart str with
  | some next => validateLoop 1 false next
  | none =>
    match parseSimpleInterval str ';' with
    | some (simpleInterval, len) =>
      match str.drop len with
      | [] => validateLoop simpleInterval false .finished
      | _ :: rest => validateLoop simpleInterval false (.part rest)
    | none => .error (.invalid "update interval" (upTo ';' str))

structure CustomIntervals where
  flexible : List FlexibleInterval
  scheduling : List SchedulerInterval
deriving DecidableEq

/-- The loop of `zbx_interval_preproc` and the check after it; `str` is the last part. -/
def preprocLoop (simpleInterval : Nat) (custom : CustomIntervals) (str : Text) (next : Next) :
    Except Failure CustomIntervals :=
  match next with
  | .finished =>
    if custom.flexible = [] ∧ custom.scheduling = [] ∧ simpleInterval = 0 ∨
        secPerDay < simpleInterval then
      .error (.invalid "update interval" str)
    else .ok custom
  | .part str =>
    if str.head?.any Char.isDigit then
      match flexibleIntervalParse (upTo ';' str) with
      | some interval =>
        if simpleInterval = 0 ∧ interval.delay = 0 then
          .error (.invalid "flexible interval" (upTo ';' str))
        else
          preprocLoop simpleInterval { custom with flexible := interval :: custom.flexible }
            str (nextDelim str)
      | none => .error (.invalid "flexible interval" (upTo ';' str))
    else
      match schedulerIntervalParse (upTo ';' str) with
      | some interval =>
        preprocLoop simpleInterval { custom with scheduling := interval :: custom.scheduling }
          str (nextDelim str)
      | none => .error (.invalid "scheduling interval" (upTo ';' str))
termination_by next.size
decreasing_by
  · exact Nat.lt_succ_of_le (size_nextDelim str)
  · exact Nat.lt_succ_of_le (size_nextDelim str)

/-- The simple interval, and the custom intervals where the caller asks for them. -/
def zbxIntervalPreproc (str : Text) (wantsCustom : Bool) :
    Except Failure (Nat × Option CustomIntervals) :=
  match isTimeSuffix str (lengthUpTo ';' str) with
  | none => .error (.invalid "update interval" (upTo ';' str))
  | some simpleInterval =>
    if wantsCustom then
      (preprocLoop simpleInterval ⟨[], []⟩ str (nextDelim str)).map fun custom =>
        (simpleInterval, some custom)
    else .ok (simpleInterval, none)

end Zabbix.Intervals.Parsing
