import Zabbix.Common.FunctionParams

/-!
# Parameters as they are written

A valid parameter list is a list of parameters with blanks around them, which the parser takes
apart again.
-/

namespace Zabbix.Common.WrittenParams

open Text MacroContext FunctionParams List

/-- A parameter with the blanks around it; those that follow a parameter without quotes belong
to it. -/
structure WrittenParam where
  leading : Nat
  param : Text
  quoted : Bool
  trailing : Nat
  isWritten :
    if quoted then param.getLast? ≠ some '\\' else needsParamQuotes param = false ∧ trailing = 0

namespace WrittenParam

def body (written : WrittenParam) : Text :=
  if written.quoted then '"' :: (escapeQuotes written.param ++ ['"']) else written.param

def text (written : WrittenParam) : Text :=
  blanks written.leading ++ (written.body ++ blanks written.trailing)

/-- The parameter without the blanks. -/
def content (written : WrittenParam) : Text × Bool :=
  (written.param, written.quoted)

def withoutBlanks (written : WrittenParam) : WrittenParam where
  leading := 0
  param := written.param
  quoted := written.quoted
  trailing := 0
  isWritten := by
    have isWritten := written.isWritten
    split_ifs at isWritten ⊢
    · exact isWritten
    · exact ⟨isWritten.1, rfl⟩

end WrittenParam

def listText (params : List WrittenParam) : Text :=
  joinParams (params.map WrittenParam.text)

/-! ## Parsing -/

variable {written : WrittenParam} {after text rest : Text}

theorem withoutBlanks_text (written : WrittenParam) : written.withoutBlanks.text = written.body :=
  append_nil _

/-- What may follow a written parameter in a list. -/
def IsSeparated (after : Text) : Prop :=
  ∀ c ∈ after.head?, continuesParam c = false

theorem IsSeparated.head?_ne {c : Char} (separated : IsSeparated after)
    (continues : continuesParam c = true) : after.head? ≠ some c := by
  intro isHead
  rw [separated c isHead] at continues
  cases continues

theorem blankCount_blanks (count : Nat) (notBlank : after.head? ≠ some ' ') :
    blankCount (blanks count ++ after) = count := by
  induction count with
  | zero =>
    cases after with
    | nil => rfl
    | cons c rest =>
      have isOther : c ≠ ' ' := fun same => notBlank (congrArg some same)
      rw [blanks, replicate_zero, nil_append, blankCount,
        takeWhile_cons_of_neg (by simpa using isOther), length_nil]
  | succ count ih =>
    have counted : blankCount (' ' :: (blanks count ++ after)) =
        blankCount (blanks count ++ after) + 1 := rfl
    rw [blanks, replicate_succ, cons_append, ← blanks, counted, ih]

theorem drop_blanks (count : Nat) (after : Text) : (blanks count ++ after).drop count = after :=
  drop_left' length_replicate

theorem parse_blanks (count : Nat) (notBlank : after.head? ≠ some ' ') :
    zbxFunctionParamParse (blanks count ++ after) =
      { paramPos := count, length := (zbxFunctionParamParse after).length
        sepPos := count + (zbxFunctionParamParse after).sepPos } := by
  have areBlanks : ∀ c ∈ blanks count, continuesParam c = true := by
    intro c member
    rw [eq_of_mem_replicate member]
    rfl
  by_cases isQuote : after.head? = some '"'
  · obtain ⟨quoted, rfl⟩ := head?_eq_some_iff.mp isQuote
    rw [zbxFunctionParamParse, blankCount_blanks count notBlank, drop_blanks]
    cases found : quoteLength '"' quoted with
    | none =>
      have isOpen : zbxFunctionParamParse ('"' :: quoted) =
          { paramPos := 0, length := quoted.length + 1, sepPos := quoted.length + 1 } := by
        simp [zbxFunctionParamParse, blankCount, found]
      rw [isOpen]
      simp [found, blanks]
    | some length =>
      rw [parse_quoted found]
      simp only [found]
      rw [← drop_drop, drop_blanks, drop_succ_cons, Nat.add_assoc]
  · rw [parse_unquoted notBlank isQuote, zbxFunctionParamParse, blankCount_blanks count notBlank,
      drop_blanks]
    have isStretch : ((blanks count ++ after).takeWhile continuesParam).length =
        count + (after.takeWhile continuesParam).length := by
      rw [takeWhile_append_of_pos areBlanks, length_append, blanks, length_replicate]
    split
    next => exact absurd rfl isQuote
    next => simp only [isStretch, Nat.add_sub_cancel_left]

theorem not_mem_of_plain {param : Text} (isPlain : needsParamQuotes param = false) :
    param.head? ≠ some '"' ∧ param.head? ≠ some ' ' ∧
      ∀ c ∈ param, continuesParam c = true := by
  simp only [needsParamQuotes, Bool.or_eq_false_iff, decide_eq_false_iff_not,
    contains_eq_mem] at isPlain
  obtain ⟨⟨⟨notQuote, notBlank⟩, noComma⟩, noClosing⟩ := isPlain
  refine ⟨notQuote, notBlank, fun c member => ?_⟩
  have notClosing : c ≠ ')' := fun same => noClosing (same ▸ member)
  have notComma : c ≠ ',' := fun same => noComma (same ▸ member)
  simp [continuesParam, notClosing, notComma]

theorem takeWhile_param {param : Text} (continues : ∀ c ∈ param, continuesParam c = true)
    (separated : IsSeparated after) : (param ++ after).takeWhile continuesParam = param := by
  cases after with
  | nil => rw [append_nil, takeWhile_eq_self_iff.mpr continues]
  | cons c rest => exact (split_while continues (separated c rfl) rest).1

theorem parse_text (separated : IsSeparated after) :
    zbxFunctionParamParse (written.text ++ after) =
      { paramPos := written.leading, length := written.body.length
        sepPos := written.text.length } := by
  have isWritten := written.isWritten
  have notBlank : after.head? ≠ some ' ' := separated.head?_ne rfl
  have isLength : written.text.length =
      written.leading + (written.body.length + written.trailing) := by
    simp [WrittenParam.text, blanks]
  rw [isLength, WrittenParam.text, WrittenParam.body, append_assoc, append_assoc]
  cases isQuoted : written.quoted with
  | false =>
    rw [isQuoted, if_neg Bool.false_ne_true] at isWritten
    obtain ⟨notQuote, notBlank', continues⟩ := not_mem_of_plain isWritten.1
    have starts {other : Char} (notFirst : written.param.head? ≠ some other)
        (notAfter : after.head? ≠ some other) :
        (written.param ++ after).head? ≠ some other := by
      cases shape : written.param with
      | nil => exact notAfter
      | cons c rest =>
        rw [shape] at notFirst
        exact notFirst
    simp only [isWritten.2, Bool.false_eq_true, if_false, blanks, replicate_zero,
      nil_append, Nat.add_zero]
    rw [← blanks, parse_blanks _ (starts notBlank' notBlank),
      parse_unquoted (starts notBlank' notBlank) (starts notQuote (separated.head?_ne rfl)),
      takeWhile_param continues separated]
  | true =>
    rw [isQuoted, if_pos rfl] at isWritten
    have complete : ('"' :: written.param).getLast? ≠ some '\\' := by
      rw [getLast?_cons]
      cases isLast : written.param.getLast? with
      | none => decide
      | some last =>
        rw [isLast] at isWritten
        exact isWritten
    have found := quoteLength_escapeQuotes complete (blanks written.trailing ++ after)
    have isRest : (escapeQuotes written.param ++ '"' :: (blanks written.trailing ++ after)).drop
        ((escapeQuotes written.param).length + 1) = blanks written.trailing ++ after := by
      rw [drop_length_add_append]
      rfl
    simp only [if_true, cons_append, append_assoc, nil_append]
    rw [parse_blanks _ (by simp), parse_quoted found, isRest, blankCount_blanks _ notBlank]
    simp only [length_cons, length_append, length_nil]

theorem unquote_body (written : WrittenParam) (after : Text) :
    zbxFunctionParamUnquoteDyn (written.body ++ after) written.body.length =
      (written.param, written.quoted) := by
  have isWritten := written.isWritten
  rw [zbxFunctionParamUnquoteDyn, WrittenParam.body]
  cases isQuoted : written.quoted with
  | false =>
    rw [isQuoted, if_neg Bool.false_ne_true] at isWritten
    obtain ⟨notQuote, -⟩ := not_mem_of_plain isWritten.1
    rw [if_neg Bool.false_ne_true, if_neg, take_left]
    rintro ⟨nonempty, isQuote⟩
    cases shape : written.param with
    | nil => exact nonempty (congrArg List.length shape)
    | cons c rest =>
      rw [shape] at isQuote notQuote
      exact notQuote isQuote
  | true =>
    rw [isQuoted, if_pos rfl] at isWritten
    have content := copyContext_escapeQuotes isWritten 0 after
    have isLength : ('"' :: (escapeQuotes written.param ++ ['"'])).length =
        (escapeQuotes written.param).length + 2 := by
      rw [length_cons, length_append, length_singleton]
    rw [Nat.add_zero] at content
    rw [if_pos rfl, isLength, cons_append, append_assoc,
      if_pos ⟨Nat.succ_ne_zero _, rfl⟩, Nat.add_sub_cancel, tail_cons, singleton_append,
      content, copyContext, append_nil]

theorem quote_param (written : WrittenParam) :
    zbxFunctionParamQuote written.param written.quoted = some written.body := by
  have isWritten := written.isWritten
  rw [zbxFunctionParamQuote, WrittenParam.body]
  cases isQuoted : written.quoted with
  | false =>
    rw [isQuoted, if_neg Bool.false_ne_true] at isWritten
    rw [if_pos (by simp [isWritten.1]), if_neg Bool.false_ne_true]
  | true =>
    rw [isQuoted, if_pos rfl] at isWritten
    rw [if_neg (by simp), if_neg isWritten, if_pos rfl]

/-! ## Valid lists -/

theorem exists_escaped {previous : Char} {length : Nat}
    (notEscape : previous ≠ '\\' ∨ text.head? ≠ some '"')
    (found : quoteLength previous text = some length) :
    ∃ param, text = escapeQuotes param ++ '"' :: text.drop (length + 1) ∧
      (escapeQuotes param).length = length ∧ param.getLast? ≠ some '\\' := by
  induction isLength : text.length using Nat.strong_induction_on
    generalizing text previous length with
  | _ total ih =>
    cases text with
    | nil => cases found
    | cons c rest =>
      rw [quoteLength] at found
      by_cases isEnd : c = '"' ∧ previous ≠ '\\'
      · rw [if_pos (by simpa using isEnd)] at found
        obtain rfl := Option.some.inj found
        exact ⟨[], by rw [isEnd.1]; rfl, rfl, by simp⟩
      · rw [if_neg (by simpa using isEnd)] at found
        obtain ⟨count, foundLater, rfl⟩ := Option.map_eq_some_iff.mp found
        have notQuote : c ≠ '"' := by
          rintro rfl
          obtain isPlain | notHead := notEscape
          · exact isEnd ⟨rfl, isPlain⟩
          · exact notHead rfl
        by_cases isPair : c = '\\' ∧ rest.head? = some '"'
        · obtain ⟨rfl, isQuote⟩ := isPair
          obtain ⟨others, rfl⟩ := head?_eq_some_iff.mp isQuote
          rw [quoteLength, if_neg (by simp)] at foundLater
          obtain ⟨left, foundRest, rfl⟩ := Option.map_eq_some_iff.mp foundLater
          obtain ⟨param, isOthers, isLeft, complete⟩ :=
            ih others.length (by simp_all; omega) (Or.inl (by decide)) foundRest rfl
          refine ⟨'"' :: param, ?_, ?_, ?_⟩
          · rw [escapeQuotes, cons_append, cons_append, drop_succ_cons,
              drop_succ_cons, ← isOthers]
          · rw [escapeQuotes, length_cons, length_cons, isLeft]
          · rw [getLast?_cons]
            cases isLast : param.getLast? with
            | none => decide
            | some last =>
              rw [isLast] at complete
              exact complete
        · have notEscaped : c ≠ '\\' ∨ rest.head? ≠ some '"' := not_and_or.mp isPair
          obtain ⟨param, isRest, isCount, complete⟩ :=
            ih rest.length (by simp_all; omega) notEscaped foundLater rfl
          refine ⟨c :: param, ?_, ?_, ?_⟩
          · rw [escapeQuotes_cons notQuote, cons_append, drop_succ_cons, ← isRest]
          · rw [escapeQuotes_cons notQuote, length_cons, isCount]
          · cases param with
            | nil =>
              intro isBackslash
              obtain rfl := Option.some.inj isBackslash
              apply isPair
              rw [isRest]
              exact ⟨rfl, rfl⟩
            | cons next others => exact complete

theorem blanks_blankCount (text : Text) :
    text = blanks (blankCount text) ++ text.drop (blankCount text) := by
  obtain ⟨count, same⟩ := blanks_skipBlanks text
  have isCount : blankCount text = count := by
    rw [same]
    exact blankCount_blanks count (head?_skipBlanks text)
  rw [isCount]
  conv_rhs => rw [same, drop_blanks]
  exact same

theorem split_at_length {front : Text} {count : Nat} (isText : text = front ++ after)
    (isCount : front.length = count) :
    text = front ++ text.drop count ∧ front.length = count := by
  refine ⟨?_, isCount⟩
  rw [isText, ← isCount, drop_left]

theorem exists_first {lppOffset position parR : Nat} {previous : Char}
    (accepted : (validateLoop ')' .next lppOffset position previous text).parR = some parR) :
    ∃ written : WrittenParam,
      text = written.text ++ text.drop (zbxFunctionParamParse text).sepPos ∧
        written.text.length = (zbxFunctionParamParse text).sepPos := by
  induction text generalizing position previous lppOffset with
  | nil => cases accepted
  | cons c rest ih =>
    by_cases isBlank : c = ' '
    · subst isBlank
      obtain ⟨written, isRest, isLength⟩ := ih accepted
      have isText : ({ written with leading := written.leading + 1 } : WrittenParam).text =
          ' ' :: written.text := rfl
      refine ⟨{ written with leading := written.leading + 1 }, ?_, ?_⟩
      · rw [isText, sepPos_blank, drop_succ_cons, cons_append, ← isRest]
      · rw [isText, sepPos_blank, length_cons, isLength]
    by_cases isQuote : c = '"'
    · subst isQuote
      have atQuote : (validateLoop ')' .quoted position (position + 1) '"' rest).parR = some parR :=
        accepted
      obtain ⟨length, found, -⟩ := quoted_spec atQuote
      obtain ⟨param, isRest, isLength, complete⟩ := exists_escaped (Or.inl (by decide)) found
      have isTrailing := blanks_blankCount (rest.drop (length + 1))
      refine ⟨⟨0, param, true, blankCount (rest.drop (length + 1)), complete⟩, ?_⟩
      rw [parse_quoted found]
      apply split_at_length
      · show '"' :: rest = '"' :: (escapeQuotes param ++ ['"']) ++ blanks _ ++ _
        rw [append_assoc, ← isTrailing, cons_append, append_assoc, singleton_append, ← isRest]
      · simp only [WrittenParam.text, WrittenParam.body, blanks, if_true, length_append,
          length_cons, length_nil, length_replicate, isLength]
        omega
    · have isPlain : needsParamQuotes ((c :: rest).takeWhile continuesParam) = false := by
        have notMem {other : Char} (stops : continuesParam other = false) :
            other ∉ (c :: rest).takeWhile continuesParam := by
          intro member
          rw [mem_takeWhile_imp member] at stops
          cases stops
        have notHead {other : Char} (isOther : c ≠ other) :
            ((c :: rest).takeWhile continuesParam).head? ≠ some other := by
          rw [takeWhile_cons]
          split_ifs
          · exact fun same => isOther (Option.some.inj same)
          · simp
        simp only [needsParamQuotes, Bool.or_eq_false_iff, decide_eq_false_iff_not, contains_eq_mem]
        exact ⟨⟨⟨notHead isQuote, notHead isBlank⟩, notMem rfl⟩, notMem rfl⟩
      refine ⟨⟨0, (c :: rest).takeWhile continuesParam, false, 0, isPlain, rfl⟩, ?_⟩
      rw [parse_unquoted (by simpa using isBlank) (by simpa using isQuote)]
      apply split_at_length
      · show c :: rest = (c :: rest).takeWhile continuesParam ++ [] ++
            (c :: rest).dropWhile continuesParam
        rw [append_nil, takeWhile_append_dropWhile]
      · show ((c :: rest).takeWhile continuesParam ++ []).length = _
        rw [append_nil]

theorem exists_list {lppOffset position parR : Nat} {previous : Char}
    (accepted : (validateLoop ')' .next lppOffset position previous text).parR = some parR) :
    ∃ params rest, params ≠ [] ∧ text = listText params ++ ')' :: rest ∧
      parR = position + (listText params).length := by
  induction isLength : text.length using Nat.strong_induction_on
    generalizing text lppOffset position previous with
  | _ length ih =>
    obtain ⟨written, isText, isSep⟩ := exists_first accepted
    obtain ⟨isEnd, rfl⟩ | ⟨others, offset, isOthers, later⟩ := next_spec accepted
    · obtain ⟨rest, isRest⟩ := head?_eq_some_iff.mp isEnd
      refine ⟨[written], rest, cons_ne_nil _ _, ?_, ?_⟩
      · rw [isRest] at isText
        exact isText
      · rw [← isSep]
        rfl
    · rw [isOthers] at isText
      have shorter : others.length < length := by
        rw [← isLength, isText, length_append, length_cons]
        omega
      obtain ⟨params, rest, nonempty, rfl, rfl⟩ := ih others.length shorter later rfl
      obtain ⟨next, params, rfl⟩ := exists_cons_of_ne_nil nonempty
      have isList : listText (written :: next :: params) =
          written.text ++ ',' :: listText (next :: params) := rfl
      refine ⟨written :: next :: params, rest, cons_ne_nil _ _, ?_, ?_⟩
      · rw [isList, append_assoc]
        exact isText
      · rw [isList, length_append, length_cons, isSep]
        omega

end Zabbix.Common.WrittenParams
