import Mathlib.Data.List.Lex
import Mathlib.Data.Char
import Zabbix.Expression.Evaluate

/-!
# Filters of discovered rows

The filter of a low-level discovery rule, from `lld.c`.  Whether a row matches a condition
(`filter_condition_match`) is a parameter.
-/

namespace Zabbix.Lld.Filters

open Common.Text Expression.Evaluate List

/-- `lld_condition_t` -/
structure LldCondition where
  id : Nat
  macroName : Text
  regexp : Text
  op : Nat
deriving DecidableEq

/-- `CONDITION_EVAL_TYPE_*`, and any other number -/
inductive EvalType where
  | andOr
  | and
  | or
  | expression
  | other
deriving DecidableEq

/-- `lld_filter_t`; `lld_filter_load` sorts the conditions by their macros for and/or. -/
structure LldFilter where
  conditions : List LldCondition
  expression : Text
  evaltype : EvalType
  sorted : evaltype = .andOr → conditions.Pairwise fun condition later =>
    condition.macroName ≤ later.macroName

section

variable (conditionMatch : LldCondition → Bool)

/-- The loop of `filter_evaluate_and_or`. -/
def andOrLoop (ret : Bool) ( lastmacro : Option Text) : List LldCondition → Bool
  | [] => ret
  | condition :: conditions =>
    let rc := conditionMatch condition
    if lastmacro = none ∨ lastmacro ≠ some condition.macroName then
      if ret = false then ret else andOrLoop rc (some condition.macroName) conditions
    else
      andOrLoop (if rc then rc else ret) (some condition.macroName) conditions

def filterEvaluateAndOr (filter : LldFilter) : Bool :=
  andOrLoop conditionMatch true none filter.conditions

/-- The loops of `filter_evaluate_and` and `filter_evaluate_or`, which end at a result. -/
def untilLoop (final : Bool) (ret : Bool) : List LldCondition → Bool
  | [] => ret
  | condition :: conditions =>
    let ret := conditionMatch condition
    if ret = final then ret else untilLoop final ret conditions

def filterEvaluateAnd (filter : LldFilter) : Bool :=
  untilLoop conditionMatch false true filter.conditions

def filterEvaluateOr (filter : LldFilter) : Bool :=
  untilLoop conditionMatch true true filter.conditions

/-- `"{" ZBX_FS_UI64 "}"` -/
def reference (id : Nat) : Text :=
  '{' :: (Nat.toDigits 10 id ++ ['}'])

/--
The loop over the places of an id in the expression: a digit and blanks are written over it.
The first number counts the blanks that are still to be written.
-/
def replaceLoop (id : Text) (ret : Bool) : Nat → Text → Text
  | _, [] => []
  | blanks + 1, _ :: p => ' ' :: replaceLoop id ret blanks p
  | 0, char :: p =>
    if id.isPrefixOf (char :: p) then
      (if ret then '1' else '0') :: replaceLoop id ret (id.length - 1) p
    else char :: replaceLoop id ret 0 p

/-- The loop of `filter_evaluate_expression`. -/
def expressionLoop (ret : Bool) (expression : Text) : List LldCondition → Bool × Text
  | [] => (ret, expression)
  | condition :: conditions =>
    let ret := conditionMatch condition
    expressionLoop ret (replaceLoop (reference condition.id) ret 0 expression) conditions

def filterEvaluateExpression (filter : LldFilter) : Bool :=
  let (ret, expression) := expressionLoop conditionMatch false filter.expression filter.conditions
  match evaluate none expression with
  | .ok result => !zbxDoubleCompare result 0
  | .error _ => ret

def filterEvaluate (filter : LldFilter) : Bool :=
  match filter.evaltype with
  | .andOr => filterEvaluateAndOr conditionMatch filter
  | .and => filterEvaluateAnd conditionMatch filter
  | .or => filterEvaluateOr conditionMatch filter
  | .expression => filterEvaluateExpression conditionMatch filter
  | .other => false

end

/-! ## Reading an expression -/

/-- The digits up to a closing brace. -/
def closing : Text → Option Text
  | [] => none
  | char :: text =>
    if char.isDigit then (closing text).map (char :: ·)
    else if char = '}' then some []
    else none

def referenceAt : Text → Option Text
  | [] => none
  | char :: text => if char = '{' then closing text else none

/--
An expression with its references read as 1 or 0, at the same length.  The first number counts the
characters that are left of a reference.
-/
def readAs (reading : Text → Option Bool) : Nat → Text → Text
  | _, [] => []
  | left + 1, _ :: text => ' ' :: readAs reading left text
  | 0, char :: text =>
    match (referenceAt (char :: text)).bind fun digits => (reading digits).map (digits, ·) with
    | some (digits, holds) =>
      (if holds then '1' else '0') :: readAs reading (digits.length + 1) text
    | none => char :: readAs reading 0 text

/-- What the conditions say about a reference; the first one with its id does. -/
def readingOf (conditionMatch : LldCondition → Bool) (conditions : List LldCondition)
    (digits : Text) : Option Bool :=
  (conditions.find? fun condition => Nat.toDigits 10 condition.id = digits).map conditionMatch

variable {text : Text} {char : Char} {reading first second : Text → Option Bool}

theorem readAs_reference {digits : Text} {holds : Bool} (isClosed : closing text = some digits)
    (isRead : reading digits = some holds) :
    readAs reading 0 ('{' :: text) =
      (if holds then '1' else '0') :: readAs reading (digits.length + 1) text := by
  simp [readAs, referenceAt, isClosed, isRead]

/-- Anywhere else. -/
theorem readAs_other (notRead : (referenceAt (char :: text)).bind reading = none) :
    readAs reading 0 (char :: text) = char :: readAs reading 0 text := by
  cases isReference : referenceAt (char :: text) with
  | none => simp [readAs, isReference]
  | some digits =>
    rw [isReference, Option.bind_some] at notRead
    simp [readAs, isReference, notRead]

theorem reference_or_other (reading : Text → Option Bool) (char : Char) (text : Text) :
    (∃ digits holds, char = '{' ∧ closing text = some digits ∧ reading digits = some holds) ∨
      (referenceAt (char :: text)).bind reading = none := by
  by_cases isOpen : char = '{'
  · cases isClosed : closing text with
    | none => simp [referenceAt, isOpen, isClosed]
    | some digits =>
      cases isRead : reading digits with
      | none => simp [referenceAt, isOpen, isClosed, isRead]
      | some holds => exact .inl ⟨digits, holds, isOpen, rfl, isRead⟩
  · simp [referenceAt, isOpen]

theorem isPrefixOf_iff_closing {digits : Text} (areDigits : ∀ char ∈ digits, char.isDigit = true) :
    (digits ++ ['}']).isPrefixOf text = true ↔ closing text = some digits := by
  induction digits generalizing text with
  | nil =>
    cases text with
    | nil => simp [closing]
    | cons char text =>
      by_cases isEnd : char = '}'
      · simp [closing, isEnd]
      · simp [closing, isEnd, Ne.symm isEnd]
  | cons digit digits ih =>
    cases text with
    | nil => simp [closing]
    | cons char text =>
      rw [forall_mem_cons] at areDigits
      obtain ⟨isDigit, areDigits⟩ := areDigits
      have isRest := @ih text areDigits
      by_cases isSame : digit = char
      · subst isSame
        simpa [closing, isDigit] using isRest
      · refine iff_of_false (by simp [isSame]) ?_
        rw [closing]
        split_ifs
        · rw [Option.map_eq_some_iff]
          rintro ⟨digits, -, isCons⟩
          exact isSame (cons.inj isCons).1.symm
        · exact fun isNil => by simp at isNil
        · exact fun isNone => by simp at isNone

theorem replaceLoop_eq (id : Nat) (ret : Bool) (blanks : Nat) (text : Text) :
    replaceLoop (reference id) ret blanks text =
      readAs (fun digits => if digits = Nat.toDigits 10 id then some ret else none) blanks
        text := by
  induction text generalizing blanks with
  | nil => cases blanks <;> rfl
  | cons char text ih =>
    cases blanks with
    | succ blanks => rw [replaceLoop, readAs, ih]
    | zero =>
      have areDigits : ∀ char ∈ Nat.toDigits 10 id, char.isDigit = true :=
        fun _ member => Nat.isDigit_of_mem_toDigits (by decide) (by decide) member
      have isPlace := @isPrefixOf_iff_closing text _ areDigits
      rw [replaceLoop]
      by_cases isPrefix : (reference id).isPrefixOf (char :: text) = true
      · rw [if_pos isPrefix, ih]
        simp only [reference, isPrefixOf, Bool.and_eq_true, beq_iff_eq] at isPrefix
        obtain ⟨rfl, isPrefix⟩ := isPrefix
        rw [readAs_reference (isPlace.mp isPrefix) (if_pos rfl)]
        simp [reference]
      · rw [if_neg isPrefix, readAs_other, ih]
        rw [Option.bind_eq_none_iff]
        intro digits isReference
        rw [referenceAt] at isReference
        split_ifs at isReference with isOpen
        rw [if_neg]
        rintro rfl
        refine isPrefix ?_
        simpa [reference, isPrefixOf, isOpen] using isPlace.mpr isReference

theorem closing_readAs (text : Text) : closing (readAs first 0 text) = closing text := by
  induction text with
  | nil => rfl
  | cons char text ih =>
    rcases reference_or_other first char text with ⟨digits, holds, rfl, isClosed, isRead⟩ | notRead
    · rw [readAs_reference isClosed isRead]
      cases text with
      | nil => simp [closing] at isClosed
      | cons next text => cases holds <;> simp [closing, readAs]
    · rw [readAs_other notRead, closing, closing, ih]

/-- References that are read one after another may be read at once. -/
theorem readAs_readAs (text : Text) :
    (∀ left, readAs second 0 (readAs first left text) =
      readAs (fun digits => first digits <|> second digits) left text) ∧
    ∀ digits, closing text = some digits → readAs second (digits.length + 1) (readAs first 0 text) =
      readAs (fun digits => first digits <|> second digits) (digits.length + 1) text := by
  induction text with
  | nil =>
    refine ⟨fun left => ?_, fun digits isClosed => ?_⟩
    · cases left <;> rfl
    · simp [closing] at isClosed
  | cons char text ih =>
    obtain ⟨atStart, within⟩ := ih
    refine ⟨fun left => ?_, fun digits isClosed => ?_⟩
    · cases left with
      | succ left => rw [readAs, readAs_other (by simp [referenceAt]), readAs, atStart]
      | zero =>
        rcases reference_or_other first char text with ⟨digits, holds, rfl, isClosed, isRead⟩ | notFirst
        · have isBoth : (first digits <|> second digits) = some holds := by simp [isRead]
          rw [readAs_reference isClosed isRead, readAs_reference isClosed isBoth, readAs_other,
            atStart]
          cases holds <;> simp [referenceAt]
        · rw [readAs_other notFirst]
          rcases reference_or_other second char text with
            ⟨digits, holds, rfl, isClosed, isRead⟩ | notSecond
          · have notRead : first digits = none := by
              simpa [referenceAt, isClosed] using notFirst
            have isBoth : (first digits <|> second digits) = some holds := by
              simp [notRead, isRead]
            rw [readAs_reference ((closing_readAs text).trans isClosed) isRead,
              readAs_reference isClosed isBoth, within digits isClosed]
          · rw [readAs_other, readAs_other, atStart]
            · cases isReference : referenceAt (char :: text) with
              | none => rfl
              | some digits =>
                rw [isReference, Option.bind_some] at notFirst notSecond
                simp [notFirst, notSecond]
            · rwa [referenceAt, closing_readAs, ← referenceAt]
    · rw [closing] at isClosed
      split_ifs at isClosed with isDigit isEnd
      · obtain ⟨digits, isRest, rfl⟩ := Option.map_eq_some_iff.mp isClosed
        have notOpen : char ≠ '{' := by
          rintro rfl
          exact absurd isDigit (by decide)
        rw [readAs_other (by simp [referenceAt, notOpen]), length_cons, readAs, readAs,
          within digits isRest]
      · obtain rfl := Option.some.inj isClosed
        rw [readAs_other (by simp [referenceAt, isEnd]), length_nil, readAs, readAs, atStart]

variable {conditionMatch : LldCondition → Bool} {conditions : List LldCondition}

theorem expressionLoop_eq (ret : Bool) (expression : Text) :
    expressionLoop conditionMatch ret expression conditions =
      ((conditions.getLast?.map conditionMatch).getD ret,
        readAs (readingOf conditionMatch conditions) 0 expression) := by
  induction conditions generalizing ret expression with
  | nil =>
    have unchanged : ∀ text, readAs (readingOf conditionMatch []) 0 text = text := by
      intro text
      induction text with
      | nil => rfl
      | cons char text ih =>
        rw [readAs_other, ih]
        simp [readingOf]
    simp [expressionLoop, unchanged]
  | cons condition conditions ih =>
    have isBoth : readingOf conditionMatch (condition :: conditions) = fun digits =>
        (if digits = Nat.toDigits 10 condition.id then some (conditionMatch condition) else none) <|>
          readingOf conditionMatch conditions digits := by
      funext digits
      by_cases isId : digits = Nat.toDigits 10 condition.id
      · simp [readingOf, isId]
      · simp [readingOf, isId, Ne.symm isId]
    rw [expressionLoop, ih, replaceLoop_eq, (readAs_readAs expression).1, ← isBoth]
    cases isLast : conditions.getLast? <;> simp [getLast?_cons, isLast]

/-! ## And, or -/

theorem untilLoop_false :
    untilLoop conditionMatch false true conditions = true ↔
      ∀ condition ∈ conditions, conditionMatch condition = true := by
  induction conditions with
  | nil => simp [untilLoop]
  | cons condition conditions ih =>
    cases isMatch : conditionMatch condition <;> simp [untilLoop, isMatch, ih]

theorem untilLoop_true (ret : Bool) :
    untilLoop conditionMatch true ret conditions = true ↔
      (conditions = [] ∧ ret = true) ∨ ∃ condition ∈ conditions, conditionMatch condition = true := by
  induction conditions generalizing ret with
  | nil => simp [untilLoop]
  | cons condition conditions ih =>
    cases isMatch : conditionMatch condition <;> simp [untilLoop, isMatch, ih]

def MacroMatches (conditionMatch : LldCondition → Bool) (conditions : List LldCondition)
    (macroName : Text) : Prop :=
  ∃ condition ∈ conditions, condition.macroName = macroName ∧ conditionMatch condition = true

theorem macroMatches_cons {condition : LldCondition} {macroName : Text} :
    MacroMatches conditionMatch (condition :: conditions) macroName ↔
      (condition.macroName = macroName ∧ conditionMatch condition = true) ∨
        MacroMatches conditionMatch conditions macroName :=
  exists_mem_cons_iff ..

/-- The result is whether a condition of the group matched; the groups after it are whole. -/
theorem andOrLoop_iff {ret : Bool} {macroName : Text}
    (sorted : conditions.Pairwise fun condition later => condition.macroName ≤ later.macroName)
    (isLeast : ∀ condition ∈ conditions, macroName ≤ condition.macroName) :
    andOrLoop conditionMatch ret (some macroName) conditions = true ↔
      (ret = true ∨ MacroMatches conditionMatch conditions macroName) ∧
      ∀ condition ∈ conditions, condition.macroName = macroName ∨
        MacroMatches conditionMatch conditions condition.macroName := by
  induction conditions generalizing ret macroName with
  | nil => simp [andOrLoop, MacroMatches]
  | cons condition conditions ih =>
    rw [pairwise_cons] at sorted
    rw [forall_mem_cons] at isLeast
    have isRest := fun ret => @ih ret condition.macroName sorted.2 sorted.1
    simp only [forall_mem_cons, macroMatches_cons]
    by_cases isSame : condition.macroName = macroName
    · rw [andOrLoop, if_neg (by simp [isSame]), isRest]
      cases isMatch : conditionMatch condition <;> simp only [isSame] <;> grind
    · have noMatch : ¬ MacroMatches conditionMatch conditions macroName := by
        rintro ⟨later, member, rfl, -⟩
        exact isSame (le_antisymm (sorted.1 later member) isLeast.1)
      rw [andOrLoop, if_pos (by simp [Ne.symm isSame])]
      cases ret
      · simp [isSame, noMatch]
      · rw [if_neg (by simp), isRest]
        grind

/-! ## What a filter describes -/

/-- The rows that a filter describes; a result is zero if `zbx_double_compare` finds it so. -/
def Describes (conditionMatch : LldCondition → Bool) (filter : LldFilter) : Prop :=
  match filter.evaltype with
  | .andOr => ∀ condition ∈ filter.conditions,
      MacroMatches conditionMatch filter.conditions condition.macroName
  | .and => ∀ condition ∈ filter.conditions, conditionMatch condition = true
  | .or => filter.conditions = [] ∨ ∃ condition ∈ filter.conditions, conditionMatch condition = true
  | .expression => ∃ result,
      evaluate none (readAs (readingOf conditionMatch filter.conditions) 0 filter.expression) =
        .ok result ∧ zbxDoubleCompare result 0 = false
  | .other => False

/-- The expression cannot be evaluated, and the last condition matches. -/
def IsMistaken (conditionMatch : LldCondition → Bool) (filter : LldFilter) : Prop :=
  filter.evaltype = .expression ∧
    (∃ failure, evaluate none
      (readAs (readingOf conditionMatch filter.conditions) 0 filter.expression) = .error failure) ∧
    filter.conditions.getLast?.map conditionMatch = some true

theorem filterEvaluateAndOr_iff (filter : LldFilter) (isAndOr : filter.evaltype = .andOr) :
    filterEvaluateAndOr conditionMatch filter = true ↔ ∀ condition ∈ filter.conditions,
      MacroMatches conditionMatch filter.conditions condition.macroName := by
  have sorted := filter.sorted isAndOr
  rw [filterEvaluateAndOr]
  generalize filter.conditions = conditions at sorted ⊢
  rcases conditions with _ | ⟨condition, conditions⟩
  · simp [andOrLoop]
  · rw [pairwise_cons] at sorted
    rw [andOrLoop, if_pos (.inl rfl), if_neg (by simp), andOrLoop_iff sorted.2 sorted.1]
    simp only [forall_mem_cons, macroMatches_cons]
    grind

/-- A filter selects the rows that it describes, but for an expression that cannot be evaluated. -/
theorem filterEvaluate_selects_iff {Row : Type*} (filterConditionMatch : Row → LldCondition → Bool)
    (jpRow : Row) (filter : LldFilter) :
    (filterEvaluate (filterConditionMatch jpRow) filter = true ↔
      Describes (filterConditionMatch jpRow) filter) ↔
    ¬ IsMistaken (filterConditionMatch jpRow) filter := by
  rw [filterEvaluate, Describes, IsMistaken]
  cases isType : filter.evaltype with
  | andOr => simp [filterEvaluateAndOr_iff filter isType]
  | and => simp [filterEvaluateAnd, untilLoop_false]
  | or => simp [filterEvaluateOr, untilLoop_true]
  | other => simp
  | expression =>
    simp only [filterEvaluateExpression, expressionLoop_eq]
    cases evaluate none _ with
    | ok result => simp
    | error failure =>
      cases filter.conditions.getLast?.map (filterConditionMatch jpRow) <;> simp

/-- The expression `{1}/0` with its condition. -/
def dividing : LldFilter where
  conditions := [{ id := 1, macroName := [], regexp := [], op := 8 }]
  expression := ['{', '1', '}', '/', '0']
  evaltype := .expression
  sorted isAndOr := by cases isAndOr

/-- The row is selected, as its only condition matches, although the expression divides by zero. -/
theorem not_describes_dividing :
    filterEvaluate (fun _ => true) dividing = true ∧ ¬ Describes (fun _ => true) dividing := by
  have fails : (evaluate none (readAs (readingOf (fun _ => true) dividing.conditions) 0
      dividing.expression)).toOption = none := by
    decide +kernel
  refine ⟨by decide +kernel, ?_⟩
  rintro ⟨result, isResult, -⟩
  rw [isResult] at fails
  cases fails

end Zabbix.Lld.Filters
