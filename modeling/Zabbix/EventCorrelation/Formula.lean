import Zabbix.Common.Integers
import Zabbix.Expression.Evaluate
import Zabbix.Library.SqlGrammar
import Zabbix.Tokens.Find

/-!
# Formulas of correlation rules

A formula combines the numbers of conditions in braces by `and`, `or` and parentheses.  Before it
is evaluated, and before it becomes a part of a query, each number is replaced by a text for its
condition.
-/

namespace Zabbix.EventCorrelation.Formula

open Common.Text Common.Integers Expression.Numbers Expression.Evaluate List Option
open Library.SqlGrammar (Level)
open Tokens.Find

/-! ## Replacing conditions -/

/-- `zbx_replace_string`: the new text, and the new end of what was replaced. -/
def zbxReplaceString (data : Text) (l r : Nat) (value : Text) : Text × Nat :=
  (data.take l ++ (value ++ data.drop (r + 1)), l + value.length - 1)

/-- The number in a token, without its braces. -/
def isUint64N (expression : Text) (token : Token) : Option Nat :=
  isUintNRange (expression.drop (token.l + 1)) (token.r - token.l - 1) 0 maxUint64

/-- The loop over the tokens, which is left where a condition has no value. -/
def replaceConditions (valueOf : Nat → Option Text) : Nat → Text → Nat → Option Text
  | 0, _, _ => none
  | turns + 1, expression, pos =>
    match zbxTokenFind expression pos with
    | none => some expression
    | some token =>
      if token.type ≠ .objectid then replaceConditions valueOf turns expression (pos + 1)
      else
        match isUint64N expression token with
        | none => replaceConditions valueOf turns expression (pos + 1)
        | some conditionid =>
          (valueOf conditionid).bind fun value =>
            let (expression, r) := zbxReplaceString expression token.l token.r value
            replaceConditions valueOf turns expression (r + 1)

/-- The formula with its conditions replaced; every turn is at a later character. -/
def replaced (valueOf : Nat → Option Text) (formula : Text) : Option Text :=
  replaceConditions valueOf (formula.length + 1) formula 0

/-! ## What formulas are -/

inductive Tree where
  | condition (conditionid : Nat)
  | and (left right : Tree)
  | or (left right : Tree)
deriving DecidableEq

namespace Tree

def holds (truth : Nat → Bool) : Tree → Bool
  | .condition conditionid => truth conditionid
  | .and left right => left.holds truth && right.holds truth
  | .or left right => left.holds truth || right.holds truth

def conditionids : Tree → List Nat
  | .condition conditionid => [conditionid]
  | .and left right | .or left right => left.conditionids ++ right.conditionids

end Tree

inductive Symbol where
  | condition (digits : Text)
  | and
  | or
  | opening
  | closing

/-- The symbols are written for the tree.  `and` binds tighter than `or`. -/
inductive Derives : Level → Tree → List Symbol → Prop where
  | condition {digits : Text} (areDigits : ∀ c ∈ digits, c.isDigit = true) (nonempty : digits ≠ [])
      (fits : digitsValue digits ≤ maxUint64) :
      Derives .operand (.condition (digitsValue digits)) [.condition digits]
  | group {tree : Tree} {symbols : List Symbol} (inner : Derives .disjunction tree symbols) :
      Derives .operand tree (.opening :: (symbols ++ [.closing]))
  | operand {tree : Tree} {symbols : List Symbol} (inner : Derives .operand tree symbols) :
      Derives .conjunction tree symbols
  | and {left right : Tree} {before after : List Symbol}
      (first : Derives .conjunction left before) (second : Derives .operand right after) :
      Derives .conjunction (.and left right) (before ++ .and :: after)
  | conjunction {tree : Tree} {symbols : List Symbol}
      (inner : Derives .conjunction tree symbols) : Derives .disjunction tree symbols
  | or {left right : Tree} {before after : List Symbol}
      (first : Derives .disjunction left before) (second : Derives .conjunction right after) :
      Derives .disjunction (.or left right) (before ++ .or :: after)

/-- A symbol with the blanks after it. -/
abbrev Item := Symbol × Text

def symbolText (conditionText : Text → Text) : Symbol → Text
  | .condition digits => conditionText digits
  | .and => ['a', 'n', 'd']
  | .or => ['o', 'r']
  | .opening => ['(']
  | .closing => [')']

def write (conditionText : Text → Text) (items : List Item) : Text :=
  items.flatMap fun (symbol, gap) => symbolText conditionText symbol ++ gap

/-- The number of a condition in braces. -/
def braced (digits : Text) : Text :=
  '{' :: (digits ++ ['}'])

/-- The symbol may be written right before the next one. -/
def MayTouch : Symbol → List Item → Prop
  | .condition _, items => items = [] ∨ ∃ gap later, items = (.closing, gap) :: later
  | .and, items | .or, items => ∃ gap later, items = (.opening, gap) :: later
  | .opening, _ | .closing, _ => True

/-- There are blanks where symbols may not touch. -/
def Separated : List Item → Prop
  | [] => True
  | (symbol, gap) :: items =>
    (∀ c ∈ gap, isBlank c = true) ∧ (gap = [] → MayTouch symbol items) ∧ Separated items

def IsFormula (tree : Tree) (formula : Text) : Prop :=
  ∃ blanks items, (∀ c ∈ blanks, isBlank c = true) ∧ Separated items ∧
    Derives .disjunction tree (items.map Prod.fst) ∧ formula = blanks ++ write braced items

/-! ## Formulas are replaced as a whole -/

variable {valueOf : Nat → Option Text} {digits plain before rest : Text} {items : List Item}
  {turns value : Nat}

theorem decimalLoop_of_le {max : Nat} (areDigits : ∀ c ∈ digits, c.isDigit = true)
    (fits : Nat.ofDigitChars 10 digits value ≤ max) :
    decimalLoop max value digits = some (Nat.ofDigitChars 10 digits value) := by
  induction digits generalizing value with
  | nil => rfl
  | cons c digits ih =>
    obtain ⟨isFirst, areLater⟩ := forall_mem_cons.mp areDigits
    rw [Nat.ofDigitChars_cons] at fits ⊢
    have grows : 10 * value + (c.toNat - '0'.toNat) ≤ max := by
      rw [Nat.ofDigitChars_eq_ofDigitChars_zero] at fits
      have positive : 1 ≤ 10 ^ digits.length := Nat.one_le_pow _ _ (by decide)
      calc 10 * value + (c.toNat - '0'.toNat)
          ≤ 10 ^ digits.length * (10 * value + (c.toNat - '0'.toNat)) :=
            Nat.le_mul_of_pos_left _ positive
        _ ≤ max := (Nat.le_add_right _ _).trans fits
    have isSmall : ¬(max - digitValue c) / 10 < value := by
      rw [digitValue]
      omega
    rw [decimalLoop, if_pos isFirst, if_neg isSmall, digitValue, Nat.mul_comm value 10]
    exact ih areLater fits

theorem isUintNRange_digits (areDigits : ∀ c ∈ digits, c.isDigit = true) (nonempty : digits ≠ [])
    (fits : digitsValue digits ≤ maxUint64) (rest : Text) :
    isUintNRange (digits ++ rest) digits.length 0 maxUint64 = some (digitsValue digits) := by
  have notEmpty : ¬(digits ++ rest = [] ∨ digits.length = 0) := by
    simp [nonempty]
  rw [isUintNRange, if_neg notEmpty, take_left, decimalLoop_of_le areDigits fits]
  change (some (digitsValue digits)).filter _ = _
  simp [fits]

theorem zbxTokenFind_skip (noBrace : '{' ∉ plain) :
    zbxTokenFind (before ++ (plain ++ rest)) before.length =
      zbxTokenFind (before ++ (plain ++ rest)) (before ++ plain).length := by
  have isCount : (before ++ (plain ++ rest)).length - before.length =
      plain.length + ((before ++ (plain ++ rest)).length - (before ++ plain).length) := by
    simp only [length_append]
    omega
  have isSkipped : (List.range' before.length plain.length).findSome? (fun position =>
      if (before ++ (plain ++ rest))[position]? = some '{' then
        tokenAt (before ++ (plain ++ rest)) position else none) = none := by
    rw [findSome?_range'_eq_none]
    intro place atLeast isLess
    refine if_neg fun isBrace => noBrace ?_
    rw [getElem?_append_right atLeast, getElem?_append_left (by omega)] at isBrace
    exact mem_of_getElem? isBrace
  rw [zbxTokenFind, isCount, ← range'_append_1, findSome?_append, isSkipped,
    none_or, ← length_append, zbxTokenFind]

def conditionToken (before digits : Text) : Token where
  type := .objectid
  l := before.length
  r := before.length + 1 + digits.length

theorem zbxTokenParseObjectid_braced (areDigits : ∀ c ∈ digits, c.isDigit = true)
    (nonempty : digits ≠ []) :
    zbxTokenParseObjectid (before ++ (braced digits ++ rest)) before.length =
      some (conditionToken before digits) := by
  have isInside : (before ++ (braced digits ++ rest)).drop (before.length + 1) =
      digits ++ '}' :: rest := by
    rw [drop_append]
    simp [braced]
  have isRun : (digits ++ '}' :: rest).takeWhile Char.isDigit = digits := by
    rw [takeWhile_append_of_pos areDigits, takeWhile_cons_of_neg (by decide), append_nil]
  have isEnd : (before ++ (braced digits ++ rest)).drop (before.length + 1 + digits.length) =
      '}' :: rest := by
    rw [← drop_drop, isInside, drop_left]
  have isPositive : digits.length ≠ 0 := length_eq_zero_iff.not.mpr nonempty
  rw [zbxTokenParseObjectid, endOfChars, isInside, isRun, isEnd, if_pos ⟨isPositive, rfl⟩]
  rfl

theorem zbxTokenFind_braced (areDigits : ∀ c ∈ digits, c.isDigit = true) (nonempty : digits ≠ []) :
    zbxTokenFind (before ++ (braced digits ++ rest)) before.length =
      some (conditionToken before digits) := by
  obtain ⟨c, others, rfl⟩ := exists_cons_of_ne_nil nonempty
  have isDigit := areDigits c mem_cons_self
  have isBrace : (before ++ (braced (c :: others) ++ rest))[before.length]? = some '{' := by
    rw [getElem?_append_right le_rfl, Nat.sub_self]
    rfl
  have isNext : ((before ++ (braced (c :: others) ++ rest)).drop (before.length + 1)).head? =
      some c := by
    rw [drop_append]
    simp [braced]
  have notSpecial : c ≠ '$' ∧ c ≠ '#' ∧ c ≠ '{' := by
    refine ⟨?_, ?_, ?_⟩ <;> (rintro rfl; exact absurd isDigit (by decide))
  have isToken : tokenAt (before ++ (braced (c :: others) ++ rest)) before.length =
      some (conditionToken before (c :: others)) := by
    unfold tokenAt
    simp only [isNext]
    rw [if_neg notSpecial.1, if_neg notSpecial.2.1, if_neg notSpecial.2.2, if_pos isDigit,
      zbxTokenParseObjectid_braced areDigits nonempty, some_or]
  rw [zbxTokenFind, findSome?_range'_eq_some]
  refine ⟨before.length, le_rfl, ?_, ?_, fun earlier atLeast isLess => absurd isLess (by omega)⟩
  · simp only [length_append, braced, length_cons]
    omega
  · rw [if_pos isBrace, isToken]

/-- The number of a condition that has a value. -/
structure IsReplaced (valueOf : Nat → Option Text) (digits : Text) : Prop where
  areDigits : ∀ c ∈ digits, c.isDigit = true
  nonempty : digits ≠ []
  fits : digitsValue digits ≤ maxUint64
  hasValue : ∃ value, valueOf (digitsValue digits) = some value ∧ value ≠ []

/-- What is written for a condition. -/
def replacement (valueOf : Nat → Option Text) (digits : Text) : Text :=
  (valueOf (digitsValue digits)).getD []

/-- Numbers of conditions have values, and there are no braces between the symbols. -/
def AreReplaced (valueOf : Nat → Option Text) (items : List Item) : Prop :=
  ∀ item ∈ items, '{' ∉ item.2 ∧ ∀ digits, item.1 = .condition digits → IsReplaced valueOf digits

theorem replaceConditions_token {expression value : Text} {token : Token} {pos conditionid : Nat}
    (isFound : zbxTokenFind expression pos = some token) (isObject : token.type = .objectid)
    (isNumber : isUint64N expression token = some conditionid)
    (isValue : valueOf conditionid = some value) (turns : Nat) :
    replaceConditions valueOf (turns + 1) expression pos =
      replaceConditions valueOf turns (zbxReplaceString expression token.l token.r value).1
        ((zbxReplaceString expression token.l token.r value).2 + 1) := by
  rw [replaceConditions, isFound]
  simp only [isObject, ne_eq, not_true_eq_false, if_false, isNumber, isValue, bind_some]

theorem replaceConditions_condition (isReplaced : IsReplaced valueOf digits)
    (noBrace : '{' ∉ plain) (turns : Nat) (before rest : Text) :
    replaceConditions valueOf (turns + 1) (before ++ (plain ++ (braced digits ++ rest)))
        before.length =
      replaceConditions valueOf turns ((before ++ (plain ++ replacement valueOf digits)) ++ rest)
        (before ++ (plain ++ replacement valueOf digits)).length := by
  obtain ⟨value, isValue, isText⟩ := isReplaced.hasValue
  have isWritten : replacement valueOf digits = value := by
    rw [replacement, isValue]
    rfl
  rw [isWritten]
  have isInside : ((before ++ plain) ++ (braced digits ++ rest)).drop
      ((before ++ plain).length + 1) = digits ++ '}' :: rest := by
    rw [drop_append]
    simp [braced]
  have isAfter : ((before ++ plain) ++ (braced digits ++ rest)).drop
      ((before ++ plain).length + 1 + digits.length + 1) = rest := by
    rw [Nat.add_assoc, ← drop_drop, isInside, drop_append]
    simp
  have isNumber : isUint64N ((before ++ plain) ++ (braced digits ++ rest))
      (conditionToken (before ++ plain) digits) = some (digitsValue digits) := by
    have isLength : (before ++ plain).length + 1 + digits.length - (before ++ plain).length - 1 =
        digits.length := by omega
    simp only [isUint64N, conditionToken]
    rw [isInside, isLength]
    exact isUintNRange_digits isReplaced.areDigits isReplaced.nonempty isReplaced.fits _
  have isNew : zbxReplaceString ((before ++ plain) ++ (braced digits ++ rest))
      (before ++ plain).length ((before ++ plain).length + 1 + digits.length) value =
        ((before ++ plain) ++ (value ++ rest), (before ++ plain).length + value.length - 1) := by
    rw [zbxReplaceString, take_left, isAfter]
  have isEnd : (before ++ plain).length + value.length - 1 + 1 =
      ((before ++ plain) ++ value).length := by
    have positive := length_pos_iff.mpr isText
    simp only [length_append]
    omega
  have isFound : zbxTokenFind ((before ++ plain) ++ (braced digits ++ rest)) before.length =
      some (conditionToken (before ++ plain) digits) := by
    rw [append_assoc, zbxTokenFind_skip noBrace, ← append_assoc before plain,
      zbxTokenFind_braced isReplaced.areDigits isReplaced.nonempty]
  have isTurn := replaceConditions_token isFound rfl isNumber isValue turns
  simp only [conditionToken, isNew, isEnd] at isTurn
  simpa only [append_assoc] using isTurn

theorem replaceConditions_write (areReplaced : AreReplaced valueOf items)
    (enough : items.length < turns) (noBrace : '{' ∉ plain) :
    replaceConditions valueOf turns (before ++ (plain ++ write braced items)) before.length =
      some (before ++ (plain ++ write (replacement valueOf) items)) := by
  induction items generalizing turns before plain with
  | nil =>
    obtain ⟨turns, rfl⟩ := Nat.exists_eq_add_of_lt enough
    have notFound : zbxTokenFind (before ++ (plain ++ [])) before.length = none := by
      rw [zbxTokenFind_skip noBrace, zbxTokenFind, append_nil, Nat.sub_self]
      rfl
    change replaceConditions valueOf (0 + turns + 1) (before ++ (plain ++ [])) before.length = _
    rw [replaceConditions, notFound]
    rfl
  | cons item items ih =>
    obtain ⟨symbol, gap⟩ := item
    obtain ⟨⟨noBraceAfter, isCondition⟩, areLater⟩ := forall_mem_cons.mp areReplaced
    rw [length_cons] at enough
    have passed {text : Text} (isText : ∀ conditionText, symbolText conditionText symbol = text)
        (noBraceText : '{' ∉ text) :
        replaceConditions valueOf turns
            (before ++ (plain ++ write braced ((symbol, gap) :: items))) before.length =
          some (before ++ (plain ++ write (replacement valueOf) ((symbol, gap) :: items))) := by
      have noBraces : '{' ∉ plain ++ (text ++ gap) := by
        simp only [mem_append, not_or]
        exact ⟨noBrace, noBraceText, noBraceAfter⟩
      have isLater := @ih _ before turns areLater (Nat.lt_of_succ_lt enough) noBraces
      simpa only [write, flatMap_cons, isText, append_assoc] using isLater
    cases symbol with
    | condition digits =>
      obtain ⟨turns, rfl⟩ : ∃ less, turns = less + 1 := ⟨turns - 1, by omega⟩
      have isTurn := replaceConditions_condition (isCondition digits rfl) noBrace turns before
        (gap ++ write braced items)
      have isLater := @ih _ (before ++ (plain ++ replacement valueOf digits)) turns
        areLater (Nat.lt_of_succ_lt_succ enough) noBraceAfter
      rw [isLater] at isTurn
      simpa only [write, flatMap_cons, symbolText, append_assoc] using isTurn
    | and => exact passed (fun _ => rfl) (by decide)
    | or => exact passed (fun _ => rfl) (by decide)
    | opening => exact passed (fun _ => rfl) (by decide)
    | closing => exact passed (fun _ => rfl) (by decide)

theorem conditions_of_derives {part : Level} {tree : Tree} {symbols : List Symbol}
    (derives : Derives part tree symbols) (member : Symbol.condition digits ∈ symbols) :
    (∀ c ∈ digits, c.isDigit = true) ∧ digits ≠ [] ∧ digitsValue digits ≤ maxUint64 ∧
      digitsValue digits ∈ tree.conditionids := by
  induction derives with
  | condition areDigits nonempty fits =>
    obtain rfl := Symbol.condition.inj (mem_singleton.mp member)
    exact ⟨areDigits, nonempty, fits, mem_singleton_self _⟩
  | group inner ih =>
    rw [mem_cons, mem_append, mem_singleton] at member
    obtain isOpening | isInner | isClosing := member
    · cases isOpening
    · exact ih isInner
    · cases isClosing
  | operand inner ih | conjunction inner ih => exact ih member
  | and first second isFirst isSecond | or first second isFirst isSecond =>
    rw [mem_append, mem_cons] at member
    obtain isBefore | isOperator | isAfter := member
    · obtain ⟨areDigits, nonempty, fits, isIn⟩ := isFirst isBefore
      exact ⟨areDigits, nonempty, fits, mem_append_left _ isIn⟩
    · cases isOperator
    · obtain ⟨areDigits, nonempty, fits, isIn⟩ := isSecond isAfter
      exact ⟨areDigits, nonempty, fits, mem_append_right _ isIn⟩

theorem isBlank_of_separated (separated : Separated items) {item : Item} (member : item ∈ items) :
    ∀ c ∈ item.2, isBlank c = true := by
  induction items with
  | nil => cases member
  | cons first items ih =>
    obtain ⟨areBlank, -, areSeparated⟩ := separated
    obtain rfl | isLater := mem_cons.mp member
    · exact areBlank
    · exact ih areSeparated isLater

theorem no_brace_of_blanks {blanks : Text} (areBlank : ∀ c ∈ blanks, isBlank c = true) :
    '{' ∉ blanks :=
  fun isIn => absurd (areBlank _ isIn) (by decide)

theorem length_le_write (items : List Item) : items.length ≤ (write braced items).length := by
  induction items with
  | nil => exact le_rfl
  | cons item items ih =>
    obtain ⟨symbol, gap⟩ := item
    have positive : 0 < (symbolText braced symbol).length := by
      cases symbol <;> exact Nat.succ_pos _
    rw [write, flatMap_cons, ← write, length_append, length_append, length_cons]
    omega

/-- A formula is replaced symbol by symbol. -/
theorem replaced_write {tree : Tree} {blanks : Text} (areBlank : ∀ c ∈ blanks, isBlank c = true)
    (separated : Separated items) (derives : Derives .disjunction tree (items.map Prod.fst))
    (haveValues : ∀ conditionid ∈ tree.conditionids,
      ∃ value, valueOf conditionid = some value ∧ value ≠ []) :
    replaced valueOf (blanks ++ write braced items) =
      some (blanks ++ write (replacement valueOf) items) := by
  have areReplaced : AreReplaced valueOf items := by
    intro item member
    refine ⟨no_brace_of_blanks (isBlank_of_separated separated member), fun digits same => ?_⟩
    have isSymbol : Symbol.condition digits ∈ items.map Prod.fst :=
      List.mem_map.mpr ⟨item, member, same⟩
    obtain ⟨areDigits, nonempty, fits, isIn⟩ := conditions_of_derives derives isSymbol
    exact ⟨areDigits, nonempty, fits, haveValues _ isIn⟩
  have enough : items.length < (blanks ++ write braced items).length + 1 := by
    have atMost := length_le_write items
    rw [length_append]
    omega
  change replaceConditions valueOf _ ([] ++ (blanks ++ _)) ([] : Text).length = some ([] ++ _)
  exact replaceConditions_write areReplaced enough (no_brace_of_blanks areBlank)

/-! ## Nesting -/

/-- How deep the parentheses are after a character, and how deep they have been. -/
def parenStep : Nat × Nat → Char → Nat × Nat
  | (depth, deepest), c =>
    if c = '(' then (depth + 1, max deepest (depth + 1))
    else if c = ')' then (depth - 1, deepest)
    else (depth, deepest)

/-- How deep the parentheses of a text are nested. -/
def nesting (text : Text) : Nat :=
  (text.foldl parenStep (0, 0)).2

/-- Parentheses that are closed as they are opened, and nested as deep as given. -/
def Balanced (levels : Nat) (text : Text) : Prop :=
  ∀ depth deepest, depth ≤ deepest →
    text.foldl parenStep (depth, deepest) = (depth, max deepest (depth + levels))

theorem nesting_of_balanced {levels : Nat} {text : Text} (balanced : Balanced levels text) :
    nesting text = levels := by
  rw [nesting, balanced 0 0 le_rfl, Nat.zero_add, Nat.zero_max]

theorem Balanced.append {levels levels' : Nat} {first second : Text}
    (isFirst : Balanced levels first) (isSecond : Balanced levels' second) :
    Balanced (max levels levels') (first ++ second) := by
  intro depth deepest atLeast
  rw [foldl_append, isFirst _ _ atLeast, isSecond _ _ (atLeast.trans (le_max_left _ _)),
    Nat.max_assoc, Nat.add_max_add_left]

theorem Balanced.group {levels : Nat} {text : Text} (balanced : Balanced levels text) :
    Balanced (levels + 1) ('(' :: (text ++ [')'])) := by
  intro depth deepest atLeast
  rw [foldl_cons, foldl_append]
  change parenStep (text.foldl parenStep (depth + 1, max deepest (depth + 1))) ')' = _
  rw [balanced _ _ (le_max_right _ _)]
  change (depth, max (max deepest (depth + 1)) (depth + 1 + levels)) = _
  refine congrArg (Prod.mk depth) ?_
  omega

theorem balanced_nil : Balanced 0 [] := by
  intro depth deepest atLeast
  rw [foldl_nil, Nat.add_zero, Nat.max_eq_left atLeast]

theorem foldl_parenStep_plain {text : Text} (noParens : ∀ c ∈ text, c ≠ '(' ∧ c ≠ ')')
    (state : Nat × Nat) : text.foldl parenStep state = state := by
  induction text with
  | nil => rfl
  | cons c text ih =>
    obtain ⟨isOther, areOthers⟩ := forall_mem_cons.mp noParens
    rw [foldl_cons, parenStep, if_neg isOther.1, if_neg isOther.2, ih areOthers]

def symbolParens : Symbol → Text
  | .opening => ['(']
  | .closing => [')']
  | _ => []

theorem noParens_of_blanks {blanks : Text} (areBlank : ∀ c ∈ blanks, isBlank c = true) :
    ∀ c ∈ blanks, c ≠ '(' ∧ c ≠ ')' := by
  intro c member
  constructor
  · rintro rfl
    exact absurd (areBlank _ member) (by decide)
  · rintro rfl
    exact absurd (areBlank _ member) (by decide)

theorem foldl_parenStep_write {conditionText : Text → Text}
    (noParens : ∀ digits, .condition digits ∈ items.map Prod.fst →
      ∀ c ∈ conditionText digits, c ≠ '(' ∧ c ≠ ')')
    (separated : Separated items) (state : Nat × Nat) :
    (write conditionText items).foldl parenStep state =
      ((items.map Prod.fst).flatMap symbolParens).foldl parenStep state := by
  induction items generalizing state with
  | nil => rfl
  | cons item items ih =>
    obtain ⟨symbol, gap⟩ := item
    obtain ⟨areBlank, -, areSeparated⟩ := separated
    have isSymbol (state : Nat × Nat) : (symbolText conditionText symbol).foldl parenStep state =
        (symbolParens symbol).foldl parenStep state := by
      cases symbol with
      | condition digits =>
        exact foldl_parenStep_plain (noParens digits mem_cons_self) state
      | and | or | opening | closing => rfl
    rw [write, flatMap_cons, ← write, foldl_append, foldl_append, isSymbol,
      foldl_parenStep_plain (noParens_of_blanks areBlank),
      ih (fun digits member => noParens digits (mem_cons_of_mem _ member))
        areSeparated, map_cons, flatMap_cons, foldl_append]

end Zabbix.EventCorrelation.Formula
