import Zabbix.Expression.Numbers
import Zabbix.Library.OperatorChain

/-!
# Evaluating expressions

The recursive descent evaluator of `zbxalgo`.  The position `ptr` is the rest of the text,
and `ZBX_INFINITY` is a failure with the message that is left in the error buffer.  The
nesting that is still allowed stands for `level`: a failure is passed up at once, so
that `level` counts the calls of `evaluate_term1` which have not returned.
-/

namespace Zabbix.Expression.Evaluate

open Common.Text Numbers Library.OperatorChain

/-- The messages of the evaluator, with the text that they show. -/
inductive Failure where
  | invalidEscape (at_ : Text)
  | unterminatedString (at_ : Text)
  | notNumeric (value : Text)
  | unexpectedEnd
  | expectedClosing (at_ : Text)
  | unexpectedToken (at_ : Text)
  | expectedNumeric (at_ : Text)
  | divisionByZero
  | nestingTooDeep
  | unknownOperand (message : Text)
  | unsupportedUnknown (index : Nat)
  | noUnknownMessages
deriving DecidableEq

/-- A `double` other than `ZBX_INFINITY`.  `ZBX_UNKNOWN` comes with the index that is in
`unknown_idx` then. -/
inductive Number where
  | known (value : ℚ)
  | unknown (index : Nat)
deriving DecidableEq

/-- `zbx_variant_t` of type `ZBX_VARIANT_DBL` or `ZBX_VARIANT_STR`. -/
inductive Variant where
  | dbl (number : Number)
  | str (text : Text)
deriving DecidableEq

abbrev Parsed (Value : Type) := Reading Failure Value Char

def zbxDoubleEpsilon : ℚ :=
  222 / 10 ^ 18

def fabs (value : ℚ) : ℚ :=
  if value < 0 then -value else value

def zbxDoubleCompare (a b : ℚ) : Bool :=
  fabs (a - b) ≤ zbxDoubleEpsilon

/-- The truth values of comparisons. -/
def ofBool (holds : Bool) : ℚ :=
  if holds then 1 else 0

/-! ## Characters -/

def isBlank (c : Char) : Bool :=
  c = ' ' || c = '\r' || c = '\n' || c = '\t'

def isNumberDelimiter (c : Char) : Bool :=
  !isNumberChar c

def isOperatorDelimiter (c : Char) : Bool :=
  c = ' ' || c = '(' || c = '\r' || c = '\n' || c = '\t' || c = ')' || c = '\x00'

/-- `*ptr` -/
def headChar (text : Text) : Char :=
  text.headD '\x00'

def skipBlank (text : Text) : Text :=
  text.dropWhile isBlank

/-! ## Operands -/

/-- The first loop of `evaluate_string`: the text before the closing quote, and the rest from
there. -/
def scanString (start : Text) : Text → Except Failure (Text × Text)
  | [] => .error (.unterminatedString start)
  | '"' :: rest => .ok ([], '"' :: rest)
  | '\\' :: '\\' :: rest =>
    (scanString start rest).map fun (raw, rest) => ('\\' :: '\\' :: raw, rest)
  | '\\' :: '"' :: rest =>
    (scanString start rest).map fun (raw, rest) => ('\\' :: '"' :: raw, rest)
  | ['\\'] => .error (.unterminatedString start)
  | '\\' :: c :: rest => .error (.invalidEscape ('\\' :: c :: rest))
  | c :: rest => (scanString start rest).map fun (raw, rest) => (c :: raw, rest)

/-- The second loop of `evaluate_string`. -/
def copyString : Text → Text
  | [] => []
  | '\\' :: c :: rest => c :: copyString rest
  | '\r' :: rest => copyString rest
  | c :: rest => c :: copyString rest

def evaluateString (ptr : Text) : Parsed Variant :=
  (scanString ptr ptr).map fun (raw, rest) => (.str (copyString raw), rest)

def zbxUnknownStr : Text :=
  ['Z', 'B', 'X', '_', 'U', 'N', 'K', 'N', 'O', 'W', 'N']

/-- `evaluate_number`; the error is the position it leaves. -/
def evaluateNumber (ptr : Text) : Except Text (Number × Text) :=
  if zbxUnknownStr.isPrefixOf ptr then
    let p0 := ptr.drop zbxUnknownStr.length
    let p1 := p0.dropWhile Char.isDigit
    if p1.length < p0.length ∧ isNumberDelimiter (headChar p1) then
      .ok (.unknown (digitsValue (p0.takeWhile Char.isDigit)), p1)
    else .error p0
  else
    match zbxSuffixedNumberParse ptr with
    | none => .error ptr
    | some len =>
      if isNumberDelimiter (headChar (ptr.drop len)) then
        .ok (.known (suffixedValue ptr len), ptr.drop len)
      else .error ptr

def variantConvertToDouble : Variant → Except Failure Number
  | .dbl number => .ok number
  | .str text =>
    match evaluateStringToDouble text with
    | none => .error (.notNumeric text)
    | some value => .ok (.known value)

/-- The part of `evaluate_term9` before the blanks at its end. -/
def evaluateOperand (evaluateTerm1 : Text → Parsed Variant) (ptr : Text) : Parsed Variant :=
  match ptr with
  | [] => .error .unexpectedEnd
  | '(' :: rest =>
    (evaluateTerm1 rest).bind fun (res, rest) =>
      match rest with
      | ')' :: rest => .ok (res, rest)
      | rest => .error (.expectedClosing rest)
  | '"' :: rest =>
    (evaluateString rest).bind fun (res, rest) =>
      let rest := rest.tail
      if !isOperatorDelimiter (headChar rest) && !isNumberDelimiter (headChar rest) then
        .error (.unexpectedToken rest)
      else .ok (res, rest)
  | ptr =>
    match evaluateNumber ptr with
    | .error ptr => .error (.expectedNumeric ptr)
    | .ok (number, rest) => .ok (.dbl number, rest)

def evaluateTerm9 (evaluateTerm1 : Text → Parsed Variant) (ptr : Text) : Parsed Variant :=
  (evaluateOperand evaluateTerm1 (skipBlank ptr)).map fun (res, rest) => (res, skipBlank rest)

/-- Unary `-`. -/
def negate : Number → Number
  | .known value => .known (-value)
  | .unknown index => .unknown index

def evaluateTerm8 (evaluateTerm1 : Text → Parsed Variant) (ptr : Text) : Parsed Variant :=
  match skipBlank ptr with
  | '-' :: rest =>
    (evaluateTerm9 evaluateTerm1 rest).bind fun (res, rest) =>
      (variantConvertToDouble res).map fun number => (.dbl (negate number), rest)
  | ptr => evaluateTerm9 evaluateTerm1 ptr

/-- `not` -/
def negateTruth : Number → Number
  | .known value => .known (ofBool (zbxDoubleCompare value 0))
  | .unknown index => .unknown index

def evaluateTerm7 (evaluateTerm1 : Text → Parsed Variant) (ptr : Text) : Parsed Variant :=
  let ptr := skipBlank ptr
  if ['n', 'o', 't'].isPrefixOf ptr && isOperatorDelimiter (headChar (ptr.drop 3)) then
    (evaluateTerm8 evaluateTerm1 (ptr.drop 3)).bind fun (res, rest) =>
      (variantConvertToDouble res).map fun number => (.dbl (negateTruth number), rest)
  else evaluateTerm8 evaluateTerm1 ptr

/-! ## Binary operators -/

/-- The binary operators of all levels. -/
inductive BinaryOp where
  | mul
  | div
  | add
  | sub
  | lt
  | le
  | ge
  | gt
  | eq
  | ne
  | and
  | or
deriving DecidableEq

/-- The operator of `evaluate_term6` at the position, and the rest. -/
def operator6 : Text → Option (BinaryOp × Text)
  | '*' :: rest => some (.mul, rest)
  | '/' :: rest => some (.div, rest)
  | _ => none

def operator5 : Text → Option (BinaryOp × Text)
  | '+' :: rest => some (.add, rest)
  | '-' :: rest => some (.sub, rest)
  | _ => none

def operator4 : Text → Option (BinaryOp × Text)
  | '<' :: '=' :: rest => some (.le, rest)
  | '>' :: '=' :: rest => some (.ge, rest)
  | '<' :: '>' :: _ => none
  | '<' :: rest => some (.lt, rest)
  | '>' :: rest => some (.gt, rest)
  | _ => none

def operator3 : Text → Option (BinaryOp × Text)
  | '=' :: rest => some (.eq, rest)
  | '<' :: '>' :: rest => some (.ne, rest)
  | _ => none

def wordOperator (word : Text) (op : BinaryOp) (ptr : Text) : Option (BinaryOp × Text) :=
  let rest := ptr.drop word.length
  if word.isPrefixOf ptr && isOperatorDelimiter (headChar rest) then some (op, rest)
  else none

def operator2 : Text → Option (BinaryOp × Text) :=
  wordOperator ['a', 'n', 'd'] .and

def operator1 : Text → Option (BinaryOp × Text) :=
  wordOperator ['o', 'r'] .or

def propagate (operation : ℚ → ℚ → ℚ) : Number → Number → Number
  | _, .unknown index => .unknown index
  | .unknown index, .known _ => .unknown index
  | .known left, .known right => .known (operation left right)

/-- The operations of `evaluate_term6`. -/
def apply6 (op : BinaryOp) (res : Number) (operand : Variant) : Except Failure Variant :=
  (variantConvertToDouble operand).bind fun operand =>
    match op, operand with
    | .mul, operand => .ok (.dbl (propagate (· * ·) res operand))
    | _, .known value =>
      if zbxDoubleCompare value 0 then .error .divisionByZero
      else .ok (.dbl (propagate (· / ·) res (.known value)))
    | _, .unknown index => .ok (.dbl (.unknown index))

/-- The operations of `evaluate_term5`. -/
def apply5 (op : BinaryOp) (res : Number) (operand : Variant) : Except Failure Variant :=
  (variantConvertToDouble operand).map fun operand =>
    .dbl (propagate (fun left right => if op = .add then left + right else left - right)
      res operand)

/-- The operations of `evaluate_term4`. -/
def apply4 (op : BinaryOp) (res : Number) (operand : Variant) : Except Failure Variant :=
  (variantConvertToDouble operand).map fun operand =>
    .dbl (propagate (fun left right =>
      match op with
      | .lt => ofBool (left < right - zbxDoubleEpsilon)
      | .le => ofBool (left ≤ right + zbxDoubleEpsilon)
      | .ge => ofBool (left ≥ right - zbxDoubleEpsilon)
      | _ => ofBool (left > right + zbxDoubleEpsilon)) res operand)

/-- `variant_get_double` of a known value; `none` is `ZBX_INFINITY`. -/
def variantGetDouble : Variant → Option ℚ
  | .dbl (.known value) => some value
  | .dbl (.unknown _) => none
  | .str text => evaluateStringToDouble text

/-- The comparison of `evaluate_term3`, of operands that are not Unknown. -/
def equalVariants (res operand : Variant) : Bool :=
  match variantGetDouble res, variantGetDouble operand with
  | some left, some right => zbxDoubleCompare left right
  | _, _ =>
    match res, operand with
    | .str left, .str right => left = right
    | _, _ => false

/-- The operations of `evaluate_term3`. -/
def apply3 (op : BinaryOp) (res operand : Variant) : Except Failure Variant :=
  match res, operand with
  | .dbl (.unknown index), _ => .ok (.dbl (.unknown index))
  | _, .dbl (.unknown index) => .ok (.dbl (.unknown index))
  | res, operand =>
    let value := ofBool (equalVariants res operand)
    .ok (.dbl (.known (if op = .ne then ofBool (zbxDoubleCompare value 0) else value)))

/-- The operation of `evaluate_term2`. -/
def apply2 (_ : BinaryOp) (res : Number) (operand : Variant) : Except Failure Variant :=
  (variantConvertToDouble operand).map fun operand =>
    match res, operand with
    | .unknown _, .unknown index => .dbl (.unknown index)
    | .unknown index, .known value =>
      if zbxDoubleCompare value 0 then .dbl (.known 0) else .dbl (.unknown index)
    | .known value, .unknown index =>
      if zbxDoubleCompare value 0 then .dbl (.known 0) else .dbl (.unknown index)
    | .known left, .known right =>
      .dbl (.known (ofBool (!zbxDoubleCompare left 0 && !zbxDoubleCompare right 0)))

/-- The operation of `evaluate_term1`. -/
def apply1 (_ : BinaryOp) (res : Number) (operand : Variant) : Except Failure Variant :=
  (variantConvertToDouble operand).map fun operand =>
    match res, operand with
    | .unknown _, .unknown index => .dbl (.unknown index)
    | .unknown index, .known value =>
      if zbxDoubleCompare value 0 then .dbl (.unknown index) else .dbl (.known 1)
    | .known value, .unknown index =>
      if zbxDoubleCompare value 0 then .dbl (.unknown index) else .dbl (.known 1)
    | .known left, .known right =>
      .dbl (.known (ofBool (!zbxDoubleCompare left 0 || !zbxDoubleCompare right 0)))

def evaluateTerm6 (evaluateTerm1 : Text → Parsed Variant) : Text → Parsed Variant :=
  level operator6 variantConvertToDouble (evaluateTerm7 evaluateTerm1) apply6

def evaluateTerm5 (evaluateTerm1 : Text → Parsed Variant) : Text → Parsed Variant :=
  level operator5 variantConvertToDouble (evaluateTerm6 evaluateTerm1) apply5

def evaluateTerm4 (evaluateTerm1 : Text → Parsed Variant) : Text → Parsed Variant :=
  level operator4 variantConvertToDouble (evaluateTerm5 evaluateTerm1) apply4

def evaluateTerm3 (evaluateTerm1 : Text → Parsed Variant) : Text → Parsed Variant :=
  level operator3 .ok (evaluateTerm4 evaluateTerm1) apply3

def evaluateTerm2 (evaluateTerm1 : Text → Parsed Variant) : Text → Parsed Variant :=
  level operator2 variantConvertToDouble (evaluateTerm3 evaluateTerm1) apply2

/-- `evaluate_term1`, where `32 - level` is the first argument. -/
def evaluateTerm1 : Nat → Text → Parsed Variant
  | 0, _ => .error .nestingTooDeep
  | deeper + 1, ptr =>
    level operator1 variantConvertToDouble (evaluateTerm2 (evaluateTerm1 deeper)) apply1 ptr

/-! ## Expressions -/

/-- How deep `evaluate_term1` may be nested. -/
def maxLevel : Nat := 32

/-- The message of an Unknown result. -/
def unknownFailure (unknownMsgs : Option (List Text)) (index : Nat) : Failure :=
  match unknownMsgs with
  | none => .noUnknownMessages
  | some messages =>
    match messages[index]? with
    | some message => .unknownOperand message
    | none => .unsupportedUnknown index

def evaluate (unknownMsgs : Option (List Text)) (expression : Text) : Except Failure ℚ :=
  (evaluateTerm1 maxLevel expression).bind fun (res, rest) =>
  (if res = .str [] then .error .unexpectedEnd else variantConvertToDouble res).bind fun value =>
    if rest ≠ [] then .error (.unexpectedToken rest)
    else
      match value with
      | .unknown index => .error (unknownFailure unknownMsgs index)
      | .known value => .ok value

def evaluateUnknown (expression : Text) : Except Failure Number :=
  (evaluateTerm1 maxLevel expression).bind fun (res, rest) =>
  (variantConvertToDouble res).bind fun value =>
    if rest ≠ [] then .error (.unexpectedToken rest) else .ok value

end Zabbix.Expression.Evaluate
