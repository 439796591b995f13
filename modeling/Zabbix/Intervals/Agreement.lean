import Zabbix.Intervals.Parsing

/-!
# The two interval parsers agree

Without a user macro the validator finds a slash behind a number with a time suffix exactly
where the preprocessor finds one in a part that starts with a digit, so both read each part
alike and go on behind the same semicolon.
-/

namespace Zabbix.Intervals.Agreement

open Common.Text Common.Integers Parsing Option
open List hiding after

variable {text rest : Text} {sep : Char}

/-! ## Separators -/

theorem other_of_mem (isOther : sep ∉ text) : ∀ char ∈ text, decide (char ≠ sep) = true := by
  intro char isIn
  refine decide_eq_true fun same => isOther ?_
  rwa [← same]

theorem upTo_of_notMem (isOther : sep ∉ text) : upTo sep text = text :=
  takeWhile_eq_self_iff.mpr (other_of_mem isOther)

theorem after_of_notMem (isOther : sep ∉ text) : after sep text = none := by
  rw [after, dropWhile_eq_nil_iff.mpr (other_of_mem isOther)]
  rfl

theorem sep_notMem_upTo (sep : Char) (text : Text) : sep ∉ upTo sep text := by
  intro isIn
  have isOther := mem_takeWhile_imp isIn
  simp at isOther

theorem upTo_append_cons (isOther : sep ∉ text) (rest : Text) :
    upTo sep (text ++ sep :: rest) = text ∧ after sep (text ++ sep :: rest) = some rest := by
  have isEnd : decide (sep ≠ sep) = false := by simp
  obtain ⟨taken, dropped⟩ := split_while (other_of_mem isOther) isEnd rest
  exact ⟨taken, by rw [after, dropped]; rfl⟩

theorem split_at (isIn : sep ∈ text) : ∃ rest, text = upTo sep text ++ sep :: rest := by
  induction text with
  | nil => cases isIn
  | cons char others ih =>
    by_cases same : char = sep
    · subst same
      exact ⟨others, by rw [upTo, takeWhile_cons_of_neg (by simp)]; rfl⟩
    · obtain ⟨rest, split⟩ := ih ((mem_cons.mp isIn).resolve_left (Ne.symm same))
      refine ⟨rest, ?_⟩
      rw [upTo, takeWhile_cons_of_pos (by simpa using same), cons_append]
      exact congrArg (char :: ·) split

theorem upTo_append {other : Char} (isOther : other ∉ text) (rest : Text) :
    upTo other (text ++ rest) = text ++ upTo other rest :=
  takeWhile_append_of_pos (other_of_mem isOther)

theorem nextDelim_append (isOther : ';' ∉ text) (rest : Text) :
    nextDelim (text ++ rest) = nextDelim rest := by
  rw [nextDelim, nextDelim, after, after, dropWhile_append_of_pos (other_of_mem isOther)]

/-! ## Numbers with a time suffix -/

theorem isTimeSuffix_upTo (sep : Char) (text : Text) :
    isTimeSuffix text (some (upTo sep text).length) = timeSuffix (upTo sep text) := by
  have isPrefix : upTo sep text <+: text := takeWhile_prefix _
  rw [isTimeSuffix, if_pos isPrefix.length_le]
  exact congrArg timeSuffix (prefix_iff_eq_take.mp isPrefix).symm

theorem isTimeSuffix_lengthUpTo (sep : Char) (text : Text) :
    isTimeSuffix text (lengthUpTo sep text) = timeSuffix (upTo sep text) := by
  unfold lengthUpTo
  by_cases isIn : sep ∈ text
  · rw [if_pos isIn]
    exact isTimeSuffix_upTo sep text
  · rw [if_neg isIn, upTo_of_notMem isIn]
    rfl

theorem semicolon_notMem {value : Nat} (isTime : timeSuffix text = some value) : ';' ∉ text := by
  intro isIn
  unfold timeSuffix at isTime
  split at isTime
  · cases isTime
  · obtain ⟨_, -, factors⟩ := bind_eq_some_iff.mp isTime
    obtain ⟨_, isFactor, -⟩ := bind_eq_some_iff.mp factors
    rw [← takeWhile_append_dropWhile (p := Char.isDigit) (l := text)] at isIn
    obtain isIn | isIn := mem_append.mp isIn
    · exact absurd (mem_takeWhile_imp isIn) (by decide)
    · unfold timeFactor at isFactor
      split at isFactor
      · next isEmpty =>
          rw [isEmpty] at isIn
          cases isIn
      · next suffix isSuffix =>
          rw [isSuffix, mem_singleton] at isIn
          rw [← isIn] at isFactor
          cases isFactor
      · cases isFactor

/-! ## A part -/

/-- The preprocessor accepts the part before the next semicolon. -/
def PartAccepted (simpleInterval : Nat) (str : Text) : Prop :=
  if str.head?.any Char.isDigit then
    ∃ interval, flexibleIntervalParse (upTo ';' str) = some interval ∧
      ¬(simpleInterval = 0 ∧ interval.delay = 0)
  else (schedulerIntervalParse (upTo ';' str)).isSome

theorem parseUserMacro_eq_none (noBrace : '{' ∉ text) : parseUserMacro text = none := by
  refine if_pos (.inl fun isBrace => noBrace ?_)
  obtain ⟨rest, rfl⟩ := head?_eq_some_iff.mp isBrace
  exact mem_cons_self

theorem macroPart_eq_none (noBrace : '{' ∉ text) : macroPart text = none := by
  rw [macroPart, parseUserMacro_eq_none noBrace]
  rfl

theorem schedulerIntervalParse_digit {char : Char} (isDigit : char.isDigit = true) (rest : Text) :
    schedulerIntervalParse (char :: rest) = none := by
  rw [schedulerIntervalParse, if_neg (cons_ne_nil _ _), schedulerLoop,
    if_neg (cons_ne_nil _ _)]
  have isNone : schedulerFilterParse {} (char :: rest) = none := by
    unfold schedulerFilterParse
    split
    · next same => rw [(List.cons.inj same).1] at isDigit; exact absurd isDigit (by decide)
    · next same => rw [(List.cons.inj same).1] at isDigit; exact absurd isDigit (by decide)
    · next same => rw [(List.cons.inj same).1] at isDigit; exact absurd isDigit (by decide)
    · next same => rw [(List.cons.inj same).1] at isDigit; exact absurd isDigit (by decide)
    · next same => rw [(List.cons.inj same).1] at isDigit; exact absurd isDigit (by decide)
    · rfl
  split
  · rfl
  · next read =>
      rw [isNone] at read
      cases read

theorem findSlash_eq_some_iff (noBrace : '{' ∉ text) {interval len : Nat} :
    findSlash text = some (interval, len, rest) ↔
      text = upTo '/' text ++ '/' :: rest ∧ timeSuffix (upTo '/' text) = some interval ∧
        len = (upTo '/' text).length := by
  rw [findSlash, parseDelay, parseUserMacro_eq_none noBrace]
  dsimp only
  rw [parseSimpleInterval, isTimeSuffix_lengthUpTo]
  by_cases isIn : '/' ∈ text
  · obtain ⟨others, split⟩ := split_at isIn
    have dropped : text.drop (upTo '/' text).length = '/' :: others := by
      conv_lhs => rw [split]
      rw [(upTo_append_cons (sep_notMem_upTo '/' text) others).1]
      exact drop_left
    rw [lengthUpTo, if_pos isIn]
    cases isTime : timeSuffix (upTo '/' text) with
    | none => simp
    | some value =>
      simp only [map_some, bind_some, getD_some, dropped, slashAfter]
      constructor
      · intro found
        cases found
        exact ⟨split, rfl, rfl⟩
      · rintro ⟨same, isValue, rfl⟩
        cases isValue
        have sameRest := append_cancel_left (split.symm.trans same)
        rw [(List.cons.inj sameRest).2]
  · rw [lengthUpTo, if_neg isIn]
    constructor
    · intro found
      obtain ⟨⟨value, length⟩, isDelay, found⟩ := bind_eq_some_iff.mp found
      obtain ⟨_, _, isPair⟩ := map_eq_some_iff.mp isDelay
      obtain rfl : text.length = length := (Prod.mk.inj isPair).2
      obtain ⟨_, isSlash, _⟩ := map_eq_some_iff.mp found
      rw [drop_length] at isSlash
      cases isSlash
    · rintro ⟨same, -⟩
      rw [same] at isIn
      simp at isIn

theorem partAccepted_slash {simpleInterval interval len : Nat} (noBrace : '{' ∉ text)
    (found : findSlash text = some (interval, len, rest)) :
    PartAccepted simpleInterval text ↔
      ¬(interval = 0 ∧ simpleInterval = 0) ∧ (timePeriodParse (upTo ';' rest)).isSome := by
  obtain ⟨split, isTime, -⟩ := (findSlash_eq_some_iff noBrace).mp found
  obtain ⟨char, others, starts, isDigit⟩ := head_of_timeSuffix isTime
  have noSlash := sep_notMem_upTo '/' text
  have noSemicolon := semicolon_notMem isTime
  have isFirst : text.head?.any Char.isDigit = true := by
    rw [split, starts]
    exact isDigit
  have isSegment : upTo ';' text = upTo '/' text ++ '/' :: upTo ';' rest := by
    conv_lhs => rw [split]
    rw [upTo_append noSemicolon]
    rfl
  obtain ⟨delay, period⟩ := upTo_append_cons noSlash (upTo ';' rest)
  rw [PartAccepted, if_pos isFirst, flexibleIntervalParse, isTimeSuffix_upTo, isSegment, delay,
    isTime, bind_some, period, bind_some]
  cases timePeriodParse (upTo ';' rest) with
  | none => simp
  | some period => simp [and_comm]

theorem findSlash_of_flexible {interval : FlexibleInterval} (noBrace : '{' ∉ text)
    (parsed : flexibleIntervalParse (upTo ';' text) = some interval) : findSlash text ≠ none := by
  obtain ⟨delay, isTime, isPeriod⟩ := bind_eq_some_iff.mp parsed
  obtain ⟨period, isAfter, -⟩ := bind_eq_some_iff.mp isPeriod
  rw [isTimeSuffix_upTo] at isTime
  have isIn : '/' ∈ upTo ';' text := by
    by_contra notIn
    rw [after_of_notMem notIn] at isAfter
    cases isAfter
  obtain ⟨others, split⟩ := split_at isIn
  have whole : text = upTo '/' (upTo ';' text) ++ '/' :: (others ++ text.dropWhile (· ≠ ';')) := by
    conv_lhs => rw [← takeWhile_append_dropWhile (p := fun char => char ≠ ';') (l := text)]
    rw [← cons_append, ← append_assoc, ← split]
    rfl
  have same : upTo '/' text = upTo '/' (upTo ';' text) := by
    conv_lhs => rw [whole]
    exact (upTo_append_cons (sep_notMem_upTo '/' _) _).1
  have found : findSlash text = some (delay, (upTo '/' text).length,
      others ++ text.dropWhile (· ≠ ';')) :=
    (findSlash_eq_some_iff noBrace).mpr ⟨by rw [same]; exact whole, by rw [same]; exact isTime, rfl⟩
  rw [found]
  exact some_ne_none _

theorem partAccepted_noSlash {simpleInterval : Nat} (noBrace : '{' ∉ text)
    (notFound : findSlash text = none) :
    PartAccepted simpleInterval text ↔ (schedulerIntervalParse (upTo ';' text)).isSome := by
  unfold PartAccepted
  by_cases isFirst : text.head?.any Char.isDigit = true
  · rw [if_pos isFirst]
    have notScheduling : schedulerIntervalParse (upTo ';' text) = none := by
      cases text with
      | nil => cases isFirst
      | cons char others =>
        have isDigit : char.isDigit = true := isFirst
        have isOther : char ≠ ';' := by
          rintro rfl
          exact absurd isDigit (by decide)
        rw [upTo, takeWhile_cons_of_pos (by simpa using isOther)]
        exact schedulerIntervalParse_digit isDigit _
    rw [notScheduling]
    constructor
    · rintro ⟨interval, parsed, -⟩
      exact absurd notFound (findSlash_of_flexible noBrace parsed)
    · intro isSome
      cases isSome
  · rw [if_neg isFirst]

theorem validateCustom_spec (simpleInterval : Nat) (noBrace : '{' ∉ text) (next : Next) :
    validateCustom simpleInterval text = .ok next ↔
      PartAccepted simpleInterval text ∧ next = nextDelim text := by
  unfold validateCustom
  cases found : findSlash text with
  | none =>
    rw [partAccepted_noSlash noBrace found, macroPart_eq_none noBrace]
    cases schedulerIntervalParse (upTo ';' text) with
    | none => simp
    | some interval => simp [eq_comm]
  | some triple =>
    obtain ⟨interval, len, rest⟩ := triple
    obtain ⟨split, isTime, -⟩ := (findSlash_eq_some_iff noBrace).mp found
    have noBraceRest : '{' ∉ rest := by
      rw [split] at noBrace
      exact fun isIn => noBrace (mem_append_right _ (mem_cons_of_mem _ isIn))
    have goesOn : nextDelim text = nextDelim rest := by
      rw [split, nextDelim_append (semicolon_notMem isTime)]
      rfl
    dsimp only
    rw [partAccepted_slash noBrace found, macroPart_eq_none noBraceRest, goesOn]
    by_cases isZero : interval = 0 ∧ simpleInterval = 0
    · simp [isZero]
    · cases timePeriodParse (upTo ';' rest) with
      | none => simp [isZero]
      | some period => simp [isZero, eq_comm]

/-! ## The loops -/

/-- The preprocessor has a custom interval. -/
def HasCustom (custom : CustomIntervals) : Prop :=
  ¬(custom.flexible = [] ∧ custom.scheduling = [])

theorem preprocLoop_accepted {simpleInterval : Nat} (accepted : PartAccepted simpleInterval text)
    (custom : CustomIntervals) (last : Text) :
    ∃ more, HasCustom more ∧ preprocLoop simpleInterval custom last (.part text) =
      preprocLoop simpleInterval more text (nextDelim text) := by
  unfold PartAccepted at accepted
  rw [preprocLoop]
  by_cases isFirst : text.head?.any Char.isDigit = true
  · rw [if_pos isFirst] at accepted
    obtain ⟨interval, parsed, notZero⟩ := accepted
    rw [if_pos isFirst, parsed]
    refine ⟨{ custom with flexible := interval :: custom.flexible },
      fun isEmpty => cons_ne_nil _ _ isEmpty.1, ?_⟩
    exact if_neg notZero
  · rw [if_neg isFirst] at accepted
    obtain ⟨interval, parsed⟩ := isSome_iff_exists.mp accepted
    rw [if_neg isFirst, parsed]
    exact ⟨{ custom with scheduling := interval :: custom.scheduling },
      fun isEmpty => cons_ne_nil _ _ isEmpty.2, rfl⟩

theorem preprocLoop_rejected {simpleInterval : Nat} (rejected : ¬PartAccepted simpleInterval text)
    (custom : CustomIntervals) (last : Text) :
    (preprocLoop simpleInterval custom last (.part text)).isOk = false := by
  unfold PartAccepted at rejected
  rw [preprocLoop]
  by_cases isFirst : text.head?.any Char.isDigit = true
  · rw [if_pos isFirst] at rejected ⊢
    cases parsed : flexibleIntervalParse (upTo ';' text) with
    | none => rfl
    | some interval =>
      have isZero : simpleInterval = 0 ∧ interval.delay = 0 := by
        by_contra notZero
        exact rejected ⟨interval, parsed, notZero⟩
      dsimp only
      rw [if_pos isZero]
      rfl
  · rw [if_neg isFirst, not_isSome_iff_eq_none] at rejected
    rw [if_neg isFirst, rejected]
    rfl

/-- No part that is still to be read has a brace. -/
def NoBrace : Next → Prop
  | .finished => True
  | .part str => '{' ∉ str

theorem noBrace_nextDelim (noBrace : '{' ∉ text) : NoBrace (nextDelim text) := by
  unfold Parsing.nextDelim after
  cases remains : text.dropWhile (fun char => decide (char ≠ ';')) with
  | nil => trivial
  | cons char rest =>
    intro isIn
    have isSuffix := dropWhile_suffix (fun char => decide (char ≠ ';')) (l := text)
    rw [remains] at isSuffix
    exact noBrace (isSuffix.subset (mem_cons_of_mem _ isIn))

theorem loops_agree (simpleInterval : Nat) (custom : Bool) (intervals : CustomIntervals)
    (last : Text) (next : Next) (noBrace : NoBrace next)
    (same : custom = true ↔ HasCustom intervals) :
    (validateLoop simpleInterval custom next).isOk =
      (preprocLoop simpleInterval intervals last next).isOk := by
  induction bound : next.size using Nat.strong_induction_on
    generalizing custom intervals last next with
  | _ size ih =>
  cases next with
  | finished =>
    rw [validateLoop, preprocLoop]
    have agree : custom = false ∧ simpleInterval = 0 ↔
        intervals.flexible = [] ∧ intervals.scheduling = [] ∧ simpleInterval = 0 := by
      rw [← Bool.not_eq_true, same, HasCustom, not_not, and_assoc]
    simp only [agree]
    split <;> rfl
  | part str =>
    rw [validateLoop]
    by_cases accepted : PartAccepted simpleInterval str
    · have ran := (validateCustom_spec simpleInterval noBrace _).mpr ⟨accepted, rfl⟩
      obtain ⟨more, hasCustom, ranPreproc⟩ := preprocLoop_accepted accepted intervals last
      rw [ranPreproc]
      split
      · next failed => rw [ran] at failed; cases failed
      · next other otherRan =>
          obtain rfl : nextDelim str = other := by
            rw [ran] at otherRan
            exact Except.ok.inj otherRan
          refine ih _ ?_ true more str _ (noBrace_nextDelim noBrace)
            ⟨fun _ => hasCustom, fun _ => rfl⟩ rfl
          rw [← bound]
          exact Nat.lt_succ_of_le (size_nextDelim str)
    · rw [preprocLoop_rejected accepted]
      split
      · rfl
      · next other otherRan =>
          exact absurd ((validateCustom_spec simpleInterval noBrace other).mp otherRan).1 accepted

theorem zbxValidateInterval_eq (noBrace : '{' ∉ text) :
    zbxValidateInterval text =
      match timeSuffix (upTo ';' text) with
      | some simpleInterval => validateLoop simpleInterval false (nextDelim text)
      | none => .error (.invalid "update interval" (upTo ';' text)) := by
  rw [zbxValidateInterval, macroPart_eq_none noBrace, parseSimpleInterval, isTimeSuffix_lengthUpTo]
  cases timeSuffix (upTo ';' text) with
  | none => rfl
  | some simpleInterval =>
    dsimp only [map_some]
    by_cases isIn : ';' ∈ text
    · obtain ⟨rest, split⟩ := split_at isIn
      have noSemicolon := sep_notMem_upTo ';' text
      have dropped : text.drop (upTo ';' text).length = ';' :: rest := by
        conv_lhs => rw [split]
        rw [(upTo_append_cons noSemicolon rest).1]
        exact drop_left
      have goesOn : nextDelim text = .part rest := by
        rw [split, nextDelim_append noSemicolon]
        rfl
      rw [lengthUpTo, if_pos isIn, getD_some, dropped, goesOn]
    · rw [lengthUpTo, if_neg isIn, getD_none, drop_length, nextDelim,
        after_of_notMem isIn]

/-- Without user macros the validator accepts an interval if and only if the preprocessor with
custom intervals does. -/
theorem validate_iff_preproc (str : Text) (noBrace : '{' ∉ str) :
    (zbxValidateInterval str).isOk ↔ (zbxIntervalPreproc str true).isOk := by
  rw [zbxValidateInterval_eq noBrace, zbxIntervalPreproc, isTimeSuffix_lengthUpTo]
  cases timeSuffix (upTo ';' str) with
  | none => rfl
  | some simpleInterval =>
    dsimp only
    have noBraceNext : NoBrace (nextDelim str) := noBrace_nextDelim noBrace
    have nothingYet : false = true ↔ HasCustom ⟨[], []⟩ := by simp [HasCustom]
    rw [loops_agree simpleInterval false ⟨[], []⟩ str _ noBraceNext nothingYet, if_pos rfl]
    cases preprocLoop simpleInterval ⟨[], []⟩ str (nextDelim str) with
    | error failure => rfl
    | ok custom => rfl

theorem validate_iff_preproc_sample :
    (zbxValidateInterval ['0', ';', '5', 'm', '/', '1', ',', '8', ':', '0', '0', '-', '9', ':',
      '0', '0']).isOk ↔
        (zbxIntervalPreproc ['0', ';', '5', 'm', '/', '1', ',', '8', ':', '0', '0', '-', '9', ':',
          '0', '0'] true).isOk :=
  validate_iff_preproc _ (by decide)

end Zabbix.Intervals.Agreement
