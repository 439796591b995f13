import Zabbix.Expression.Evaluate

/-!
# The grammar of expressions

Expression trees, their renderings and their values.  A tree is written with tokens by
precedence, with parentheses where it needs them and wherever else they are wanted, and the
tokens are spelled with blanks between them.
-/

namespace Zabbix.Expression.Grammar

open Common.Text Numbers Evaluate List

inductive Tree where
  | number (value : ℚ)
  | string (text : Text)
  | unknown (index : Nat)
  | minus (operand : Tree)
  | not (operand : Tree)
  | binary (op : BinaryOp) (left right : Tree)

/-- A string token is the text between its quotes, and an Unknown token has its digits. -/
inductive Token where
  | number (number : SuffixedNumber)
  | string (raw : Text)
  | unknown (digits : Text)
  | minus
  | not
  | binary (op : BinaryOp)
  | opening
  | closing

/-! ## Precedence -/

/-- The function which reads the operator: the greater, the tighter. -/
def level : BinaryOp → Nat
  | .mul | .div => 6
  | .add | .sub => 5
  | .lt | .le | .ge | .gt => 4
  | .eq | .ne => 3
  | .and => 2
  | .or => 1

/-- The text between quotes, and the string that it denotes. -/
inductive Quoted : Text → Text → Prop where
  | nil : Quoted [] []
  | escaped {raw text : Text} (c : Char) (isEscape : c = '\\' ∨ c = '"') (rest : Quoted raw text) :
      Quoted ('\\' :: c :: raw) (c :: text)
  | carriageReturn {raw text : Text} (rest : Quoted raw text) : Quoted ('\r' :: raw) text
  | plain {raw text : Text} (c : Char) (isPlain : c ≠ '\\' ∧ c ≠ '"' ∧ c ≠ '\r')
      (rest : Quoted raw text) : Quoted (c :: raw) (c :: text)

/-- The tokens render the tree at a level, with parentheses nested at most as deep as given.
Binary operators associate to the left. -/
inductive Derives : Nat → Nat → Tree → List Token → Prop where
  | number {nesting : Nat} (number : SuffixedNumber) :
      Derives nesting 9 (.number number.value) [.number number]
  | string {nesting : Nat} {raw text : Text} (quoted : Quoted raw text) :
      Derives nesting 9 (.string text) [.string raw]
  | unknown {nesting : Nat} {digits : Text} (areDigits : ∀ c ∈ digits, c.isDigit = true)
      (nonempty : digits ≠ []) :
      Derives nesting 9 (.unknown (digitsValue digits)) [.unknown digits]
  | parentheses {nesting : Nat} {tree : Tree} {tokens : List Token}
      (inner : Derives nesting 1 tree tokens) :
      Derives (nesting + 1) 9 tree (.opening :: (tokens ++ [.closing]))
  | minus {nesting : Nat} {tree : Tree} {tokens : List Token}
      (operand : Derives nesting 9 tree tokens) :
      Derives nesting 8 (.minus tree) (.minus :: tokens)
  | not {nesting : Nat} {tree : Tree} {tokens : List Token}
      (operand : Derives nesting 8 tree tokens) :
      Derives nesting 7 (.not tree) (.not :: tokens)
  | binary {nesting : Nat} (op : BinaryOp) {left right : Tree} {before after : List Token}
      (first : Derives nesting (level op) left before)
      (second : Derives nesting (level op + 1) right after) :
      Derives nesting (level op) (.binary op left right) (before ++ .binary op :: after)
  | tighter {nesting n : Nat} {tree : Tree} {tokens : List Token} (positive : 0 < n)
      (inner : Derives nesting (n + 1) tree tokens) : Derives nesting n tree tokens

/-! ## Spelling -/

def opText : BinaryOp → Text
  | .mul => ['*']
  | .div => ['/']
  | .add => ['+']
  | .sub => ['-']
  | .lt => ['<']
  | .le => ['<', '=']
  | .ge => ['>', '=']
  | .gt => ['>']
  | .eq => ['=']
  | .ne => ['<', '>']
  | .and => ['a', 'n', 'd']
  | .or => ['o', 'r']

def tokenText : Token → Text
  | .number number => number.text
  | .string raw => '"' :: (raw ++ ['"'])
  | .unknown digits => zbxUnknownStr ++ digits
  | .minus => ['-']
  | .not => ['n', 'o', 't']
  | .binary op => opText op
  | .opening => ['(']
  | .closing => [')']

/-- The token may be followed directly by the text. -/
def Delimited (token : Token) (after : Text) : Prop :=
  match token with
  | .number _ | .string _ | .unknown _ => isNumberDelimiter (headChar after) = true
  | .not | .binary .and | .binary .or => isOperatorDelimiter (headChar after) = true
  | _ => True

/-- The text spells the tokens, with any blanks around them, before the rest. -/
inductive Spells : List Token → Text → Text → Prop where
  | nil {blanks rest : Text} (areBlank : ∀ c ∈ blanks, isBlank c = true)
      (stops : StopsAt isBlank rest) : Spells [] (blanks ++ rest) rest
  | cons {blanks after rest : Text} {token : Token} {tokens : List Token}
      (areBlank : ∀ c ∈ blanks, isBlank c = true) (delimited : Delimited token after)
      (later : Spells tokens after rest) :
      Spells (token :: tokens) (blanks ++ (tokenText token ++ after)) rest

def Renders (nesting : Nat) (tree : Tree) (text : Text) : Prop :=
  ∃ tokens, Derives nesting 1 tree tokens ∧ Spells tokens text []

/-! ## Values -/

/-- The number that an operand stands for, unless it is a string that is not numeric. -/
def toNumber : Variant → Option Number
  | .dbl number => some number
  | .str text => (evaluateStringToDouble text).map Number.known

/-- A number other than zero counts as true. -/
def isNonzero (value : ℚ) : Bool :=
  !zbxDoubleCompare value 0

/-- A binary operation on known numbers, which fails for a division by zero. -/
def exactValue (op : BinaryOp) (left right : ℚ) : Option ℚ :=
  match op with
  | .mul => some (left * right)
  | .div => if zbxDoubleCompare right 0 then none else some (left / right)
  | .add => some (left + right)
  | .sub => some (left - right)
  | .lt => some (ofBool (left < right - zbxDoubleEpsilon))
  | .le => some (ofBool (left ≤ right + zbxDoubleEpsilon))
  | .ge => some (ofBool (left ≥ right - zbxDoubleEpsilon))
  | .gt => some (ofBool (left > right + zbxDoubleEpsilon))
  | .eq => some (ofBool (zbxDoubleCompare left right))
  | .ne => some (ofBool (!zbxDoubleCompare left right))
  | .and => some (ofBool (isNonzero left && isNonzero right))
  | .or => some (ofBool (isNonzero left || isNonzero right))

/-- The result of `and` and `or` that one operand decides, whatever the other is. -/
def decidedBy (op : BinaryOp) (operand : ℚ) : Option ℚ :=
  match op with
  | .and => if isNonzero operand then none else some 0
  | .or => if isNonzero operand then some 1 else none
  | _ => none

/-- A binary operation on numbers: Unknown makes the result Unknown, unless the other operand
decides it. -/
def numberValue (op : BinaryOp) : Number → Number → Option Number
  | .known left, .known right => (exactValue op left right).map Number.known
  | .known left, .unknown index => some ((decidedBy op left).elim (.unknown index) Number.known)
  | .unknown index, .known right =>
    if op = .div ∧ zbxDoubleCompare right 0 then none
    else some ((decidedBy op right).elim (.unknown index) Number.known)
  | .unknown _, .unknown index => some (.unknown index)

/-- Operands are equal as numbers if both are numeric, and else as strings. -/
def equalOperands (left right : Variant) : Bool :=
  match variantGetDouble left, variantGetDouble right with
  | some left, some right => zbxDoubleCompare left right
  | _, _ => left = right

def isUnknown : Variant → Option Nat
  | .dbl (.unknown index) => some index
  | _ => none

/-- A binary operation: equality compares strings too, the others need numbers. -/
def binaryValue (op : BinaryOp) (left right : Variant) : Option Variant :=
  if level op = 3 then
    match isUnknown left, isUnknown right with
    | some index, _ => some (.dbl (.unknown index))
    | none, some index => some (.dbl (.unknown index))
    | none, none =>
      let equal := equalOperands left right
      some (.dbl (.known (ofBool (if op = .ne then !equal else equal))))
  else
    (toNumber left).bind fun left =>
    (toNumber right).bind fun right => (numberValue op left right).map Variant.dbl

/-- The value of a tree, which is missing for a division by zero and for a string that is not
numeric where a number is needed. -/
def value : Tree → Option Variant
  | .number number => some (.dbl (.known number))
  | .string text => some (.str text)
  | .unknown index => some (.dbl (.unknown index))
  | .minus operand =>
    ((value operand).bind toNumber).map fun number => .dbl (negate number)
  | .not operand =>
    ((value operand).bind toNumber).map fun number => .dbl (negateTruth number)
  | .binary op left right =>
    (value left).bind fun left => (value right).bind fun right => binaryValue op left right

/-- What a tree gives as a whole: a known number. -/
def result (tree : Tree) : Option ℚ :=
  ((value tree).bind toNumber).bind fun number =>
    match number with
    | .known value => some value
    | .unknown _ => none

variable {text rest middle after gap : Text} {token : Token}
variable {tokens first second : List Token}

/-! ## Spelled text -/

theorem skipBlank_append (areBlank : ∀ c ∈ gap, isBlank c = true)
    (stops : StopsAt isBlank rest) : skipBlank (gap ++ rest) = rest :=
  (takeWhile_append_of_stopsAt areBlank stops).2

def startOf : Token → Char → Prop
  | .number _, c => isMantissa c = true
  | .string _, c => c = '"'
  | .unknown _, c => c = 'Z'
  | .minus, c => c = '-'
  | .not, c => c = 'n'
  | .binary op, c => (opText op).head? = some c
  | .opening, c => c = '('
  | .closing, c => c = ')'

theorem tokenText_eq_cons (token : Token) :
    ∃ c others, tokenText token = c :: others ∧ startOf token c := by
  cases token with
  | number number => exact number.text_eq_cons
  | string raw => exact ⟨_, _, rfl, rfl⟩
  | unknown digits => exact ⟨_, _, rfl, rfl⟩
  | minus => exact ⟨_, _, rfl, rfl⟩
  | not => exact ⟨_, _, rfl, rfl⟩
  | binary op => cases op <;> exact ⟨_, _, rfl, rfl⟩
  | opening => exact ⟨_, _, rfl, rfl⟩
  | closing => exact ⟨_, _, rfl, rfl⟩

theorem not_isBlank_of_isMantissa {c : Char} (isOne : isMantissa c = true) : isBlank c = false := by
  rw [Bool.eq_false_iff]
  intro isBlank
  simp only [Evaluate.isBlank, Bool.or_eq_true, decide_eq_true_eq] at isBlank
  obtain ((rfl | rfl) | rfl) | rfl := isBlank
  all_goals exact absurd isOne (by decide)

theorem not_isBlank_of_startOf {c : Char} (starts : startOf token c) : isBlank c = false := by
  cases token with
  | number number => exact not_isBlank_of_isMantissa starts
  | binary op =>
    cases op
    all_goals
      obtain rfl := Option.some.inj starts
      rfl
  | _ =>
    obtain rfl := starts
    rfl

theorem stopsAt_token (token : Token) (after : Text) :
    StopsAt isBlank (tokenText token ++ after) := by
  obtain ⟨c, others, shape, starts⟩ := tokenText_eq_cons token
  intro first isFirst
  rw [shape, cons_append, head?_cons, Option.mem_some_iff] at isFirst
  exact isFirst ▸ not_isBlank_of_startOf starts

theorem Spells.stops (spells : Spells tokens text rest) : StopsAt isBlank rest := by
  induction spells with
  | nil areBlank stops => exact stops
  | cons areBlank delimited later ih => exact ih

theorem Spells.length_le (spells : Spells tokens text rest) : rest.length ≤ text.length := by
  induction spells with
  | nil areBlank stops =>
    rw [length_append]
    exact Nat.le_add_left _ _
  | cons areBlank delimited later ih =>
    rw [length_append, length_append]
    omega

theorem spells_nil (stops : StopsAt isBlank text) : Spells [] text text :=
  Spells.nil (forall_mem_nil _) stops

theorem Spells.blanks (spells : Spells tokens text rest)
    (areBlank : ∀ c ∈ gap, isBlank c = true) : Spells tokens (gap ++ text) rest := by
  have together {others : Text} (othersBlank : ∀ c ∈ others, isBlank c = true) :
      ∀ c ∈ gap ++ others, isBlank c = true := by
    intro c member
    exact (mem_append.mp member).elim (areBlank c) (othersBlank c)
  cases spells with
  | nil othersBlank stops =>
    rw [← append_assoc]
    exact Spells.nil (together othersBlank) stops
  | cons othersBlank delimited later =>
    rw [← append_assoc]
    exact Spells.cons (together othersBlank) delimited later

theorem isBlank_of_mem_takeWhile (text : Text) :
    ∀ c ∈ text.takeWhile isBlank, isBlank c = true :=
  fun _ member => mem_takeWhile_imp member

theorem spells_skipBlank (text : Text) : Spells [] text (skipBlank text) := by
  have split := (takeWhile_append_dropWhile (p := isBlank) (l := text)).symm
  have spells := spells_nil (stopsAt_dropWhile isBlank text)
  have whole := spells.blanks (isBlank_of_mem_takeWhile text)
  rwa [← split] at whole

theorem Spells.of_skipBlank (spells : Spells tokens (skipBlank text) rest) :
    Spells tokens text rest := by
  have split := (takeWhile_append_dropWhile (p := isBlank) (l := text)).symm
  have whole := spells.blanks (isBlank_of_mem_takeWhile text)
  rwa [skipBlank, ← split] at whole

theorem Spells.skipBlank (spells : Spells tokens text rest) :
    Spells tokens (skipBlank text) rest := by
  cases spells with
  | nil areBlank stops =>
    rw [skipBlank_append areBlank stops]
    exact spells_nil stops
  | cons areBlank delimited later =>
    rw [skipBlank_append areBlank (stopsAt_token _ _)]
    exact Spells.cons (forall_mem_nil _) delimited later

theorem Spells.uncons (spells : Spells (token :: tokens) text rest) :
    ∃ after, Evaluate.skipBlank text = tokenText token ++ after ∧ Delimited token after ∧
      Spells tokens after rest := by
  cases spells with
  | cons areBlank delimited later =>
    exact ⟨_, skipBlank_append areBlank (stopsAt_token _ _), delimited, later⟩

theorem Spells.append (spells : Spells first text middle) (later : Spells second middle rest) :
    Spells (first ++ second) text rest := by
  induction spells with
  | nil areBlank stops => exact later.blanks areBlank
  | cons areBlank delimited _ ih => exact Spells.cons areBlank delimited (ih later)

theorem Spells.split (spells : Spells (first ++ second) text rest) :
    ∃ middle, Spells first text middle ∧ Spells second middle rest := by
  induction first generalizing text with
  | nil => exact ⟨Evaluate.skipBlank text, spells_skipBlank text, spells.skipBlank⟩
  | cons token first ih =>
    cases spells with
    | cons areBlank delimited later =>
      obtain ⟨middle, before, after⟩ := ih later
      exact ⟨middle, Spells.cons areBlank delimited before, after⟩

theorem Spells.uncons_of_stops (spells : Spells (token :: tokens) text rest)
    (stops : StopsAt isBlank text) :
    ∃ after, text = tokenText token ++ after ∧ Delimited token after ∧
      Spells tokens after rest := by
  have skipped := skipBlank_append (forall_mem_nil _) stops
  rw [nil_append] at skipped
  obtain ⟨after, shape, delimited, later⟩ := spells.uncons
  exact ⟨after, skipped.symm.trans shape, delimited, later⟩

end Zabbix.Expression.Grammar
