import Zabbix.Common.MacroContext

/-!
# Parameters of trigger functions

A parameter list is validated by a machine with four states, taken apart parameter by
parameter, and built from quoted parameters.  The three agree on where a parameter ends.
-/

namespace Zabbix.Common.FunctionParams

open Text MacroContext List Option

/-- What `zbx_function_param_parse` returns. -/
structure ParamLocation where
  paramPos : Nat
  length : Nat
  sepPos : Nat
deriving DecidableEq

/-- The number of characters up to a quote that no backslash stands before. -/
def quoteLength (previous : Char) : Text → Option Nat
  | [] => none
  | c :: rest =>
    if c = '"' && previous ≠ '\\' then some 0 else (quoteLength c rest).map (· + 1)

/-- A character that does not end an unquoted parameter. -/
def continuesParam (c : Char) : Bool :=
  c ≠ ')' && c ≠ ','

def zbxFunctionParamParse (expr : Text) : ParamLocation :=
  let paramPos := blankCount expr
  match expr.drop paramPos with
  | '"' :: quoted =>
    match quoteLength '"' quoted with
    | none => { paramPos, length := quoted.length + 1, sepPos := expr.length }
    | some length =>
      let afterParam := paramPos + (length + 2)
      { paramPos, length := length + 2
        sepPos := afterParam + blankCount (expr.drop afterParam) }
  | _ =>
    let sepPos := (expr.takeWhile continuesParam).length
    { paramPos, length := sepPos - paramPos, sepPos }

/-- The parameter, and whether it was quoted.  The loop is that of quoted macro contexts. -/
def zbxFunctionParamUnquoteDyn (param : Text) (len : Nat) : Text × Bool :=
  if len ≠ 0 ∧ param.head? = some '"' then (copyContext true (len - 2) param.tail, true)
  else (param.take len, false)

def needsParamQuotes (param : Text) : Bool :=
  param.head? = some '"' || param.head? = some ' ' || param.contains ',' || param.contains ')'

/-- `zbx_function_param_quote`; `none` is `FAIL`. -/
def zbxFunctionParamQuote (param : Text) (forced : Bool) : Option Text :=
  if !forced && !needsParamQuotes param then some param
  else if param.getLast? = some '\\' then none
  else some ('"' :: (escapeQuotes param ++ ['"']))

/-- `zbx_function_get_param_dyn`; `none` is NULL. -/
def zbxFunctionGetParamDyn (params : Text) : Nat → Option Text
  | 0 => none
  | 1 =>
    let location := zbxFunctionParamParse params
    some (zbxFunctionParamUnquoteDyn (params.drop location.paramPos) location.length).1
  | nparam + 2 =>
    let sepPos := (zbxFunctionParamParse params).sepPos
    if sepPos < params.length then
      zbxFunctionGetParamDyn (params.drop (sepPos + 1)) (nparam + 1)
    else none

/-! ## Validation -/

/-- `ZBX_FUNC_PARAM_NEXT` and so on. -/
inductive State where
  | next
  | quoted
  | unquoted
  | postquoted
deriving DecidableEq

/-- The result of `function_validate_parameters`: the position of the terminator if it
succeeds, and the last parameter, whose length is not always set. -/
structure Validation where
  parR : Option Nat
  lppOffset : Nat
  lppLen : Option Nat
deriving DecidableEq

def validateLoop (terminator : Char) (state : State) (lppOffset position : Nat) (previous : Char) :
    Text → Validation
  | [] =>
    { parR := if terminator = '\x00' ∧ state ≠ .quoted then some position else none
      lppOffset, lppLen := some (position - lppOffset) }
  | c :: rest =>
    if terminator = c ∧ state ≠ .quoted then
      { parR := some position, lppOffset, lppLen := none }
    else
      match state with
      | .next =>
        let state := if c = '"' then .quoted else if c ≠ ' ' ∧ c ≠ ',' then .unquoted else .next
        validateLoop terminator state position (position + 1) c rest
      | .quoted =>
        let state := if c = '"' ∧ previous ≠ '\\' then .postquoted else .quoted
        validateLoop terminator state lppOffset (position + 1) c rest
      | .unquoted =>
        let state := if c = ',' then .next else .unquoted
        validateLoop terminator state lppOffset (position + 1) c rest
      | .postquoted =>
        if c = ',' then validateLoop terminator .next lppOffset (position + 1) c rest
        else if c ≠ ' ' then
          { parR := none, lppOffset, lppLen := some (position - lppOffset) }
        else validateLoop terminator .postquoted lppOffset (position + 1) c rest

def functionValidateParameters (expr : Text) (terminator : Char) : Validation :=
  validateLoop terminator .next 0 0 '\x00' expr

/-- The position of the closing parenthesis; the last parameter is only for error messages
here. -/
def functionMatchParenthesis (expr : Text) (parL : Nat) : Option Nat :=
  (functionValidateParameters (expr.drop (parL + 1)) ')').parR.map (· + (parL + 1))

def zbxFunctionValidateParameters (expr : Text) : Option Nat :=
  (functionValidateParameters expr '\x00').parR

/-! ## Stepping through parameters -/

/-- Stepping from separator to separator stops at a position, where no comma stands. -/
inductive SteppingStops : Text → Nat → Prop where
  | last {text : Text}
      (stops : (text.drop (zbxFunctionParamParse text).sepPos).head? ≠ some ',') :
      SteppingStops text (zbxFunctionParamParse text).sepPos
  | step {text : Text} {stop : Nat}
      (continues : (text.drop (zbxFunctionParamParse text).sepPos).head? = some ',')
      (later : SteppingStops (text.drop ((zbxFunctionParamParse text).sepPos + 1)) stop) :
      SteppingStops text ((zbxFunctionParamParse text).sepPos + 1 + stop)

variable {text rest : Text} {c previous : Char} {parR lppOffset position : Nat}

/-- After a parameter comes the matched parenthesis, or a comma and more parameters. -/
def Ends (position : Nat) (after : Text) (parR : Nat) : Prop :=
  (after.head? = some ')' ∧ parR = position) ∨
    ∃ rest lppOffset, after = ',' :: rest ∧
      (validateLoop ')' .next lppOffset (position + 1) ',' rest).parR = some parR

theorem unquoted_spec
    (accepted : (validateLoop ')' .unquoted lppOffset position previous text).parR = some parR) :
    Ends (position + (text.takeWhile continuesParam).length)
      (text.dropWhile continuesParam) parR := by
  induction text generalizing position previous with
  | nil => cases accepted
  | cons c rest ih =>
    rw [validateLoop] at accepted
    by_cases isEnd : c = ')'
    · subst isEnd
      rw [if_pos ⟨rfl, by decide⟩] at accepted
      exact Or.inl ⟨rfl, (some.inj accepted).symm⟩
    · rw [if_neg fun same => isEnd same.1.symm] at accepted
      by_cases isComma : c = ','
      · subst isComma
        exact Or.inr ⟨rest, lppOffset, rfl, accepted⟩
      · have isOther : continuesParam c = true := by simp [continuesParam, isEnd, isComma]
        simp only [if_neg isComma] at accepted
        rw [takeWhile_cons_of_pos isOther, dropWhile_cons_of_pos isOther,
          length_cons, ← Nat.add_assoc, Nat.add_right_comm]
        exact ih accepted

theorem postquoted_spec
    (accepted : (validateLoop ')' .postquoted lppOffset position previous text).parR = some parR) :
    Ends (position + blankCount text) (text.drop (blankCount text)) parR := by
  induction text generalizing position previous with
  | nil => cases accepted
  | cons c rest ih =>
    rw [validateLoop] at accepted
    by_cases isEnd : c = ')'
    · subst isEnd
      rw [if_pos ⟨rfl, by decide⟩] at accepted
      exact Or.inl ⟨rfl, (some.inj accepted).symm⟩
    · rw [if_neg fun same => isEnd same.1.symm] at accepted
      by_cases isComma : c = ','
      · subst isComma
        exact Or.inr ⟨rest, lppOffset, rfl, accepted⟩
      · simp only [if_neg isComma] at accepted
        by_cases isBlank : c = ' '
        · subst isBlank
          have counted : blankCount (' ' :: rest) = blankCount rest + 1 := rfl
          rw [counted, drop_succ_cons, ← Nat.add_assoc, Nat.add_right_comm]
          exact ih accepted
        · rw [if_pos isBlank] at accepted
          cases accepted

theorem quoted_spec
    (accepted : (validateLoop ')' .quoted lppOffset position previous text).parR = some parR) :
    ∃ length, quoteLength previous text = some length ∧
      (validateLoop ')' .postquoted lppOffset (position + (length + 1)) '"'
        (text.drop (length + 1))).parR = some parR := by
  induction text generalizing position previous with
  | nil => cases accepted
  | cons c rest ih =>
    rw [validateLoop, if_neg fun same => same.2 rfl] at accepted
    by_cases isEnd : c = '"' ∧ previous ≠ '\\'
    · simp only [if_pos isEnd] at accepted
      refine ⟨0, ?_, ?_⟩
      · rw [quoteLength, if_pos (by simpa using isEnd)]
      · rw [isEnd.1] at accepted
        exact accepted
    · simp only [if_neg isEnd] at accepted
      obtain ⟨length, found, later⟩ := ih accepted
      refine ⟨length + 1, ?_, ?_⟩
      · rw [quoteLength, if_neg (by simpa using isEnd), found]
        rfl
      · rw [drop_succ_cons, ← Nat.add_assoc, Nat.add_right_comm]
        exact later

@[simp]
theorem sepPos_blank (rest : Text) :
    (zbxFunctionParamParse (' ' :: rest)).sepPos = (zbxFunctionParamParse rest).sepPos + 1 := by
  have counted : blankCount (' ' :: rest) = blankCount rest + 1 := rfl
  rw [zbxFunctionParamParse, zbxFunctionParamParse, counted, drop_succ_cons]
  split
  next quoted shape =>
    cases quoteLength '"' quoted with
    | none => rfl
    | some length =>
      simp only [Nat.add_right_comm _ 1, drop_succ_cons]
  next => rfl

theorem parse_unquoted (notBlank : text.head? ≠ some ' ') (notQuote : text.head? ≠ some '"') :
    zbxFunctionParamParse text =
      { paramPos := 0, length := (text.takeWhile continuesParam).length
        sepPos := (text.takeWhile continuesParam).length } := by
  have noBlanks : blankCount text = 0 := by
    cases text with
    | nil => rfl
    | cons c rest =>
      have isOther : c ≠ ' ' := by
        rintro rfl
        exact notBlank rfl
      simp [blankCount, isOther]
  rw [zbxFunctionParamParse, noBlanks, drop_zero]
  split
  next quoted => exact absurd rfl notQuote
  next => rfl

theorem parse_quoted {length : Nat} (found : quoteLength '"' rest = some length) :
    zbxFunctionParamParse ('"' :: rest) =
      { paramPos := 0, length := length + 2
        sepPos := length + 2 + blankCount (rest.drop (length + 1)) } := by
  have noBlanks : blankCount ('"' :: rest) = 0 := rfl
  rw [zbxFunctionParamParse, noBlanks, drop_zero]
  simp only [found, Nat.zero_add, drop_succ_cons]

theorem next_spec
    (accepted : (validateLoop ')' .next lppOffset position previous text).parR = some parR) :
    Ends (position + (zbxFunctionParamParse text).sepPos)
      (text.drop (zbxFunctionParamParse text).sepPos) parR := by
  induction text generalizing position previous lppOffset with
  | nil => cases accepted
  | cons c rest ih =>
    by_cases isBlank : c = ' '
    · subst isBlank
      rw [sepPos_blank, drop_succ_cons, ← Nat.add_assoc, Nat.add_right_comm]
      exact ih accepted
    by_cases isQuote : c = '"'
    · subst isQuote
      have atQuote : (validateLoop ')' .quoted position (position + 1) '"' rest).parR = some parR :=
        accepted
      obtain ⟨length, found, later⟩ := quoted_spec atQuote
      have ends := postquoted_spec later
      rw [drop_drop] at ends
      have count : length + 2 + blankCount (rest.drop (length + 1)) =
          length + 1 + blankCount (rest.drop (length + 1)) + 1 := by
        omega
      have samePosition : position + (length + 1 + blankCount (rest.drop (length + 1)) + 1) =
          position + 1 + (length + 1) + blankCount (rest.drop (length + 1)) := by
        omega
      rw [parse_quoted found]
      simp only [count, drop_succ_cons, samePosition]
      exact ends
    · rw [parse_unquoted (by simpa using isBlank) (by simpa using isQuote)]
      rw [validateLoop] at accepted
      by_cases isEnd : c = ')'
      · subst isEnd
        rw [if_pos ⟨rfl, by decide⟩] at accepted
        exact Or.inl ⟨rfl, (some.inj accepted).symm⟩
      · rw [if_neg fun same => isEnd same.1.symm] at accepted
        simp only [if_neg isQuote] at accepted
        by_cases isComma : c = ','
        · subst isComma
          exact Or.inr ⟨rest, position, rfl, accepted⟩
        · have isOther : continuesParam c = true := by simp [continuesParam, isEnd, isComma]
          rw [if_pos ⟨isBlank, isComma⟩] at accepted
          have ends := unquoted_spec accepted
          rw [← drop_length_takeWhile] at ends
          simp only [takeWhile_cons_of_pos isOther, length_cons, drop_succ_cons,
            ← Nat.add_assoc, Nat.add_right_comm _ 1] at ends ⊢
          exact ends

theorem steppingStops_of_accepted
    (accepted : (validateLoop ')' .next lppOffset position previous text).parR = some parR) :
    ∃ stop, parR = position + stop ∧ SteppingStops text stop ∧
      (text.drop stop).head? = some ')' := by
  induction isLength : text.length using Nat.strong_induction_on
    generalizing text lppOffset position previous with
  | _ length ih =>
    obtain ⟨isEnd, rfl⟩ | ⟨rest, offset, shape, later⟩ := next_spec accepted
    · refine ⟨_, rfl, SteppingStops.last ?_, isEnd⟩
      rw [isEnd]
      decide
    · have isRest : text.drop ((zbxFunctionParamParse text).sepPos + 1) = rest := by
        rw [← tail_drop, shape, tail_cons]
      have shorter : rest.length < length := by
        have lengths := congrArg List.length shape
        rw [length_drop, length_cons] at lengths
        omega
      obtain ⟨stop, rfl, stops, isEnd⟩ := ih rest.length shorter later rfl
      refine ⟨(zbxFunctionParamParse text).sepPos + 1 + stop, by omega, ?_, ?_⟩
      · refine SteppingStops.step (by rw [shape, head?_cons]) ?_
        rwa [isRest]
      · rwa [← drop_drop, isRest]

theorem steppingStops_of_match {expr : Text} {parL : Nat}
    (matched : functionMatchParenthesis expr parL = some parR) :
    ∃ stop, parR = parL + 1 + stop ∧ SteppingStops (expr.drop (parL + 1)) stop ∧
      (expr.drop parR).head? = some ')' := by
  obtain ⟨position, accepted, rfl⟩ := Option.map_eq_some_iff.mp matched
  obtain ⟨stop, rfl, stops, isEnd⟩ := steppingStops_of_accepted accepted
  rw [drop_drop] at isEnd
  refine ⟨stop, by omega, stops, ?_⟩
  rwa [Nat.zero_add, Nat.add_comm stop]

/-! ## Quoted parameters -/

variable {param written : Text} {forced : Bool}

theorem quoteLength_escapeQuotes (complete : (previous :: param).getLast? ≠ some '\\')
    (after : Text) :
    quoteLength previous (escapeQuotes param ++ '"' :: after) =
      some (escapeQuotes param).length := by
  induction param generalizing previous with
  | nil =>
    have isPlain : previous ≠ '\\' := fun isBackslash => complete (congrArg some isBackslash)
    rw [escapeQuotes, nil_append, quoteLength, if_pos (by simpa using isPlain)]
    rfl
  | cons c rest ih =>
    rw [getLast?_cons_cons] at complete
    have later := ih complete
    by_cases isQuote : c = '"'
    · subst isQuote
      rw [escapeQuotes, cons_append, cons_append, quoteLength, if_neg (by simp),
        quoteLength, if_neg (by decide), later]
      rfl
    · rw [escapeQuotes_cons isQuote, cons_append, quoteLength, if_neg (by simp [isQuote]),
        later]
      rfl

theorem validateLoop_escapeQuotes (complete : (previous :: param).getLast? ≠ some '\\')
    (noZero : '\x00' ∉ param) (lppOffset position : Nat) (after : Text) :
    validateLoop '\x00' .quoted lppOffset position previous (escapeQuotes param ++ '"' :: after) =
      validateLoop '\x00' .postquoted lppOffset (position + (escapeQuotes param).length + 1) '"'
        after := by
  have goesOn (offset position : Nat) (previous c : Char) (rest : Text) :
      validateLoop '\x00' .quoted offset position previous (c :: rest) =
        validateLoop '\x00' (if c = '"' ∧ previous ≠ '\\' then .postquoted else .quoted) offset
          (position + 1) c rest := by
    rw [validateLoop, if_neg fun same => same.2 rfl]
  induction param generalizing previous position with
  | nil =>
    have isPlain : previous ≠ '\\' := fun isBackslash => complete (congrArg some isBackslash)
    rw [escapeQuotes, nil_append, goesOn, if_pos ⟨rfl, isPlain⟩]
    rfl
  | cons c rest ih =>
    rw [getLast?_cons_cons] at complete
    have later := ih complete fun member => noZero (mem_cons_of_mem _ member)
    by_cases isQuote : c = '"'
    · subst isQuote
      rw [escapeQuotes, cons_append, cons_append, goesOn, if_neg (by simp), goesOn,
        if_neg (by decide), later, length_cons, length_cons]
      congr 1
      omega
    · rw [escapeQuotes_cons isQuote, cons_append, goesOn, if_neg fun same => isQuote same.1,
        later, length_cons]
      congr 1
      omega

theorem validateLoop_plain (noComma : ',' ∉ param) (noZero : '\x00' ∉ param)
    (lppOffset position : Nat) (previous : Char) (after : Text) :
    ∃ last, validateLoop '\x00' .unquoted lppOffset position previous (param ++ after) =
      validateLoop '\x00' .unquoted lppOffset (position + param.length) last after := by
  induction param generalizing previous position with
  | nil => exact ⟨previous, rfl⟩
  | cons c rest ih =>
    rw [mem_cons, not_or] at noComma noZero
    obtain ⟨last, later⟩ := ih noComma.2 noZero.2 (position + 1) c
    refine ⟨last, ?_⟩
    rw [cons_append, validateLoop, if_neg fun same => noZero.1 same.1]
    simp only [if_neg fun same => noComma.1 (Eq.symm same)]
    rw [later, length_cons, Nat.add_right_comm, Nat.add_assoc]

/-- What is said of a parameter as it is written, where it ends the list or a comma follows. -/
structure ReadsAs (written param : Text) : Prop where
  location : ∀ after, after.head? = none ∨ after.head? = some ',' →
    zbxFunctionParamParse (written ++ after) =
      { paramPos := 0, length := written.length, sepPos := written.length }
  unquoted : ∀ after, (zbxFunctionParamUnquoteDyn (written ++ after) written.length).1 = param
  atEnd : ∀ lppOffset position previous,
    (validateLoop '\x00' .next lppOffset position previous written).parR =
      some (position + written.length)
  beforeComma : ∀ lppOffset position previous after, ∃ offset,
    validateLoop '\x00' .next lppOffset position previous (written ++ ',' :: after) =
      validateLoop '\x00' .next offset (position + written.length + 1) ',' after

theorem takeWhile_of_separator {after : Text}
    (separated : after.head? = none ∨ after.head? = some ',') :
    after.takeWhile continuesParam = [] ∧ blankCount after = 0 := by
  cases after with
  | nil => exact ⟨rfl, rfl⟩
  | cons c rest =>
    obtain isNone | isComma := separated
    · cases isNone
    · obtain rfl := some.inj isComma
      exact ⟨rfl, rfl⟩

theorem readsAs_plain (isPlain : needsParamQuotes param = false) (noZero : '\x00' ∉ param) :
    ReadsAs param param := by
  simp only [needsParamQuotes, Bool.or_eq_false_iff, decide_eq_false_iff_not,
    contains_eq_mem] at isPlain
  obtain ⟨⟨⟨notQuote, notBlank⟩, noComma⟩, noClosing⟩ := isPlain
  have starts {after : Text} {other : Char} (notFirst : param.head? ≠ some other)
      (notAfter : after.head? ≠ some other) : (param ++ after).head? ≠ some other := by
    cases param with
    | nil => exact notAfter
    | cons c rest => exact notFirst
  have toUnquoted (offset position : Nat) (previous : Char) (after : Text) {c : Char} {rest : Text}
      (shape : param = c :: rest) :
      validateLoop '\x00' .next offset position previous (param ++ after) =
        validateLoop '\x00' .unquoted position (position + 1) c (rest ++ after) := by
    subst shape
    rw [mem_cons, not_or] at noZero noComma
    rw [cons_append, validateLoop, if_neg fun same => noZero.1 same.1]
    simp only [if_neg fun same : c = '"' => notQuote (congrArg some same),
      if_pos (show c ≠ ' ' ∧ c ≠ ',' from
        ⟨fun same => notBlank (congrArg some same), fun same => noComma.1 same.symm⟩)]
  have inRest {c : Char} {rest : Text} (shape : param = c :: rest) (offset position : Nat)
      (previous : Char) (after : Text) :
      ∃ last, validateLoop '\x00' .unquoted offset position previous (rest ++ after) =
        validateLoop '\x00' .unquoted offset (position + rest.length) last after := by
    subst shape
    exact validateLoop_plain (not_mem_of_not_mem_cons noComma)
      (not_mem_of_not_mem_cons noZero) offset position previous after
  constructor
  · intro after separated
    obtain ⟨noMore, -⟩ := takeWhile_of_separator separated
    have isParam : ∀ c ∈ param, continuesParam c = true := by
      intro c member
      rw [continuesParam, Bool.and_eq_true, decide_eq_true_eq, decide_eq_true_eq]
      exact ⟨fun same => noClosing (same ▸ member), fun same => noComma (same ▸ member)⟩
    have otherwise {other : Char} (different : other ≠ ',') : after.head? ≠ some other := by
      obtain isNone | isComma := separated
      · rw [isNone]
        nofun
      · rw [isComma]
        exact fun same => different (some.inj same).symm
    rw [parse_unquoted (starts notBlank (otherwise (by decide)))
      (starts notQuote (otherwise (by decide))), takeWhile_append_of_pos isParam, noMore,
      append_nil]
  · intro after
    have notQuoted : ¬(param.length ≠ 0 ∧ (param ++ after).head? = some '"') := by
      rintro ⟨nonempty, isQuote⟩
      cases param with
      | nil => exact nonempty rfl
      | cons c rest => exact notQuote isQuote
    rw [zbxFunctionParamUnquoteDyn, if_neg notQuoted, take_left]
  · intro offset position previous
    cases shape : param with
    | nil => rfl
    | cons c rest =>
      obtain ⟨last, loop⟩ := inRest shape position (position + 1) c []
      have atStart := toUnquoted offset position previous [] shape
      rw [append_nil] at atStart
      rw [← shape, atStart, loop, validateLoop, shape, length_cons]
      simp only [reduceCtorEq, ne_eq, not_false_eq_true, and_self, if_true]
      congr 1
      omega
  · intro offset position previous after
    cases shape : param with
    | nil => exact ⟨position, rfl⟩
    | cons c rest =>
      obtain ⟨last, loop⟩ := inRest shape position (position + 1) c (',' :: after)
      refine ⟨position, ?_⟩
      rw [← shape, toUnquoted offset position previous _ shape, loop, validateLoop,
        if_neg (by decide), shape, length_cons]
      simp only [if_true]
      congr 1
      omega

theorem readsAs_quoted (complete : param.getLast? ≠ some '\\') (noZero : '\x00' ∉ param) :
    ReadsAs ('"' :: (escapeQuotes param ++ ['"'])) param := by
  have withQuote : ('"' :: param).getLast? ≠ some '\\' := by
    rw [getLast?_cons]
    cases isLast : param.getLast? with
    | none => decide
    | some last =>
      rw [isLast] at complete
      exact complete
  have isLength : ('"' :: (escapeQuotes param ++ ['"'])).length =
      (escapeQuotes param).length + 2 := by
    rw [length_cons, length_append, length_singleton]
  have split (after : Text) : '"' :: (escapeQuotes param ++ ['"']) ++ after =
      '"' :: (escapeQuotes param ++ '"' :: after) := by
    rw [cons_append, append_assoc, singleton_append]
  have toPostquoted (offset position : Nat) (previous : Char) (after : Text) :
      validateLoop '\x00' .next offset position previous
          ('"' :: (escapeQuotes param ++ '"' :: after)) =
        validateLoop '\x00' .postquoted position
          (position + 1 + (escapeQuotes param).length + 1) '"' after := by
    rw [validateLoop, if_neg (by decide)]
    simp only [if_true]
    exact validateLoop_escapeQuotes withQuote noZero position (position + 1) after
  constructor
  · intro after separated
    obtain ⟨-, noBlanks⟩ := takeWhile_of_separator separated
    rw [split, parse_quoted (quoteLength_escapeQuotes withQuote after), isLength]
    have isRest : (escapeQuotes param ++ '"' :: after).drop ((escapeQuotes param).length + 1) =
        after := by
      rw [drop_length_add_append]
      rfl
    rw [isRest, noBlanks]
  · intro after
    have content := copyContext_escapeQuotes complete 0 after
    rw [split, isLength, zbxFunctionParamUnquoteDyn, if_pos ⟨Nat.succ_ne_zero _, rfl⟩]
    rw [Nat.add_zero] at content
    rw [Nat.add_sub_cancel, tail_cons, content, copyContext, append_nil]
  · intro offset position previous
    rw [isLength, toPostquoted]
    rw [validateLoop]
    simp only [reduceCtorEq, ne_eq, not_false_eq_true, and_self, if_true]
    congr 1
    omega
  · intro offset position previous after
    refine ⟨position, ?_⟩
    rw [isLength, split, toPostquoted, validateLoop, if_neg (by decide)]
    simp only [if_true]
    congr 1
    omega

theorem readsAs_of_quote (quoted : zbxFunctionParamQuote param forced = some written)
    (noZero : '\x00' ∉ param) : ReadsAs written param := by
  rw [zbxFunctionParamQuote] at quoted
  split_ifs at quoted with isPlain endsWithBackslash
  · obtain rfl := some.inj quoted
    rw [Bool.and_eq_true, Bool.not_eq_true', Bool.not_eq_true'] at isPlain
    exact readsAs_plain isPlain.2 noZero
  · obtain rfl := some.inj quoted
    exact readsAs_quoted endsWithBackslash noZero

/-! ## Parameter lists -/

/-- The parameters with a comma between them. -/
def joinParams : List Text → Text
  | [] => []
  | [written] => written
  | written :: next :: others => written ++ ',' :: joinParams (next :: others)

variable {params writtens : List Text}

theorem validateLoop_joinParams (nonempty : writtens ≠ [])
    (read : List.Forall₂ ReadsAs writtens params) (lppOffset position : Nat) (previous : Char) :
    (validateLoop '\x00' .next lppOffset position previous (joinParams writtens)).parR =
      some (position + (joinParams writtens).length) := by
  induction read generalizing lppOffset position previous with
  | nil => exact absurd rfl nonempty
  | @cons written param others more readsAs later ih =>
    cases others with
    | nil => exact readsAs.atEnd lppOffset position previous
    | cons next others =>
      obtain ⟨offset, loop⟩ :=
        readsAs.beforeComma lppOffset position previous (joinParams (next :: others))
      rw [joinParams, loop, ih (cons_ne_nil _ _), length_append, length_cons]
      congr 1
      omega

theorem zbxFunctionGetParamDyn_joinParams (nonempty : writtens ≠ [])
    (read : List.Forall₂ ReadsAs writtens params) (i : Nat) :
    zbxFunctionGetParamDyn (joinParams writtens) (i + 1) = params[i]? := by
  induction read generalizing i with
  | nil => exact absurd rfl nonempty
  | @cons written param others more readsAs later ih =>
    cases others with
    | nil =>
      cases later
      have location := readsAs.location [] (Or.inl rfl)
      have unquoted := readsAs.unquoted []
      rw [append_nil] at location unquoted
      cases i with
      | zero =>
        rw [joinParams, zbxFunctionGetParamDyn, location]
        simp only [drop_zero, unquoted]
        rfl
      | succ i =>
        rw [joinParams, zbxFunctionGetParamDyn, location]
        simp only [Nat.lt_irrefl, if_false]
        rfl
    | cons next others =>
      have location := readsAs.location (',' :: joinParams (next :: others)) (Or.inr rfl)
      have unquoted := readsAs.unquoted (',' :: joinParams (next :: others))
      cases i with
      | zero =>
        rw [joinParams, zbxFunctionGetParamDyn, location]
        simp only [drop_zero, unquoted]
        rfl
      | succ i =>
        have isBefore : written.length <
            (written ++ ',' :: joinParams (next :: others)).length := by
          rw [length_append, length_cons]
          omega
        rw [joinParams, zbxFunctionGetParamDyn, location]
        simp only [isBefore, if_true, drop_length_add_append, drop_succ_cons,
          drop_zero, ih (cons_ne_nil _ _)]
        rfl

theorem forall₂_readsAs {quotable : List (Text × Bool)}
    (noZeros : ∀ param ∈ quotable, '\x00' ∉ param.1)
    (quoted : List.Forall₂ (fun param written => zbxFunctionParamQuote param.1 param.2 = some written)
      quotable writtens) :
    List.Forall₂ ReadsAs writtens (quotable.map Prod.fst) := by
  induction quoted with
  | nil => exact List.Forall₂.nil
  | cons isQuoted later ih =>
    obtain ⟨atFirst, others⟩ := forall_mem_cons.mp noZeros
    exact List.Forall₂.cons (readsAs_of_quote isQuoted atFirst) (ih others)

/-- Quoted parameters come back from their list, and stepping through parameters ends where
validation matches the parenthesis. -/
theorem functionParams_correct :
    (∀ (params : List (Text × Bool)) (writtens : List Text), params ≠ [] →
      (∀ param ∈ params, '\x00' ∉ param.1) →
      List.Forall₂ (fun param written => zbxFunctionParamQuote param.1 param.2 = some written)
        params writtens →
      zbxFunctionValidateParameters (joinParams writtens) = some (joinParams writtens).length ∧
        ∀ i, zbxFunctionGetParamDyn (joinParams writtens) (i + 1) = params[i]?.map Prod.fst) ∧
    ∀ (expr : Text) (parL parR : Nat), functionMatchParenthesis expr parL = some parR →
      ∃ stop, parR = parL + 1 + stop ∧ SteppingStops (expr.drop (parL + 1)) stop ∧
        (expr.drop parR).head? = some ')' := by
  constructor
  · intro params writtens nonempty noZeros quoted
    have read := forall₂_readsAs noZeros quoted
    have someWritten : writtens ≠ [] := by
      rintro rfl
      cases quoted
      exact nonempty rfl
    constructor
    · rw [zbxFunctionValidateParameters, functionValidateParameters,
        validateLoop_joinParams someWritten read, Nat.zero_add]
    · intro i
      rw [zbxFunctionGetParamDyn_joinParams someWritten read, getElem?_map]
  · exact fun _ _ _ matched => steppingStops_of_match matched

/-- `"a,b"` and `c` come back, and the parenthesis of `f("a,b",c)` is where stepping stops. -/
theorem functionParams_correct_sample :
    (zbxFunctionValidateParameters ['"', 'a', ',', 'b', '"', ',', 'c'] = some 7 ∧
      ∀ i, zbxFunctionGetParamDyn ['"', 'a', ',', 'b', '"', ',', 'c'] (i + 1) =
        [(['a', ',', 'b'], false), (['c'], false)][i]?.map Prod.fst) ∧
    ∃ stop, 9 = 1 + 1 + stop ∧
      SteppingStops (['f', '(', '"', 'a', ',', 'b', '"', ',', 'c', ')'].drop (1 + 1)) stop ∧
        (['f', '(', '"', 'a', ',', 'b', '"', ',', 'c', ')'].drop 9).head? = some ')' := by
  constructor
  · exact functionParams_correct.1 [(['a', ',', 'b'], false), (['c'], false)]
      [['"', 'a', ',', 'b', '"'], ['c']] (cons_ne_nil _ _) (by decide)
      (.cons (by decide) (.cons (by decide) .nil))
  · exact functionParams_correct.2 ['f', '(', '"', 'a', ',', 'b', '"', ',', 'c', ')'] 1 9 (by decide)

end Zabbix.Common.FunctionParams
