import Zabbix.EventCorrelation.NewEvent

/-!
# Verdicts of formulas

The evaluator gives the three-valued verdict of a formula whose parentheses are nested at most 31
deep, and rejects every other.
-/

namespace Zabbix.EventCorrelation.Verdicts

open Common.Text Formula NewEvent Expression Expression.Evaluate Expression.Numbers List Option
open Library.SqlGrammar (Level)

/-- `0` -/
def zero : SuffixedNumber :=
  { Unknown.one with
    whole := ['0'], areDigits := List.all_eq_true.mp (by decide), nonempty := by decide }

def verdictToken : Option Bool → Grammar.Token
  | some true => .number Unknown.one
  | some false => .number zero
  | none => .unknown ['0']

def symbolToken (verdicts : Nat → Option Bool) : Symbol → Grammar.Token
  | .condition digits => verdictToken (verdicts (digitsValue digits))
  | .and => .binary .and
  | .or => .binary .or
  | .opening => .opening
  | .closing => .closing

def verdictTree : Option Bool → Grammar.Tree
  | some true => .number Unknown.one.value
  | some false => .number zero.value
  | none => .unknown (digitsValue ['0'])

def expressionTree (verdicts : Nat → Option Bool) : Tree → Grammar.Tree
  | .condition conditionid => verdictTree (verdicts conditionid)
  | .and left right => .binary .and (expressionTree verdicts left) (expressionTree verdicts right)
  | .or left right => .binary .or (expressionTree verdicts left) (expressionTree verdicts right)

def verdictNumber : Option Bool → Number
  | some true => .known 1
  | some false => .known 0
  | none => .unknown 0

variable {verdicts : Nat → Option Bool} {tree : Tree} {items : List Item} {blanks : Text}

/-! ## Values of formulas -/

theorem value_zero : zero.value = 0 := by
  have isDigits : digitsValue (zero.whole ++ zero.fraction.getD []) = 0 := by decide
  rw [SuffixedNumber.value, isDigits, Nat.cast_zero, zero_mul, zero_mul]

theorem value_one : Unknown.one.value = 1 := by
  have isDigits : digitsValue (Unknown.one.whole ++ Unknown.one.fraction.getD []) = 1 := by decide
  rw [SuffixedNumber.value, isDigits]
  norm_num [Unknown.one]

theorem value_verdictTree (known : Option Bool) :
    Grammar.value (verdictTree known) = some (.dbl (verdictNumber known)) := by
  obtain _ | _ | _ := known
  · rfl
  · rw [verdictTree, Grammar.value, verdictNumber, value_zero]
  · rw [verdictTree, Grammar.value, verdictNumber, value_one]

theorem binaryValue_and (left right : Option Bool) :
    Grammar.binaryValue .and (.dbl (verdictNumber left)) (.dbl (verdictNumber right)) =
      some (.dbl (verdictNumber (verdictAnd left right))) := by
  obtain _ | _ | _ := left <;> obtain _ | _ | _ := right <;> decide +kernel

theorem binaryValue_or (left right : Option Bool) :
    Grammar.binaryValue .or (.dbl (verdictNumber left)) (.dbl (verdictNumber right)) =
      some (.dbl (verdictNumber (verdictOr left right))) := by
  obtain _ | _ | _ := left <;> obtain _ | _ | _ := right <;> decide +kernel

theorem value_expressionTree (tree : Tree) :
    Grammar.value (expressionTree verdicts tree) =
      some (.dbl (verdictNumber (treeVerdict verdicts tree))) := by
  induction tree with
  | condition conditionid => exact value_verdictTree _
  | and left right isLeft isRight =>
    rw [expressionTree, Grammar.value, isLeft, isRight, bind_some, bind_some,
      binaryValue_and, treeVerdict]
  | or left right isLeft isRight =>
    rw [expressionTree, Grammar.value, isLeft, isRight, bind_some, bind_some,
      binaryValue_or, treeVerdict]

/-! ## Formulas are expressions -/

def grammarLevel : Level → Nat
  | .disjunction => 1
  | .conjunction => 2
  | .operand => 9

theorem derives_loosen {nesting n : Nat} {expression : Grammar.Tree} {tokens : List Grammar.Token}
    (derives : Grammar.Derives nesting 9 expression tokens) (positive : 0 < n) (atMost : n ≤ 9) :
    Grammar.Derives nesting n expression tokens := by
  induction atMost using Nat.decreasingInduction with
  | self => exact derives
  | of_succ n isLess ih => exact .tighter positive (ih (Nat.succ_pos n))

theorem derives_verdictToken {nesting : Nat} (known : Option Bool) :
    Grammar.Derives nesting 9 (verdictTree known) [verdictToken known] := by
  obtain _ | _ | _ := known
  · exact .unknown (List.all_eq_true.mp (by decide)) (by decide)
  · exact .number zero
  · exact .number Unknown.one

theorem derives_expression {part : Level} {symbols : List Symbol}
    (derives : Derives part tree symbols) (verdicts : Nat → Option Bool) :
    ∃ levels, Balanced levels (symbols.flatMap symbolParens) ∧ ∀ nesting, levels ≤ nesting →
      Grammar.Derives nesting (grammarLevel part) (expressionTree verdicts tree)
        (symbols.map (symbolToken verdicts)) := by
  induction derives with
  | condition areDigits nonempty fits =>
    exact ⟨0, balanced_nil, fun _ _ => derives_verdictToken _⟩
  | group inner ih =>
    obtain ⟨levels, balanced, isExpression⟩ := ih
    refine ⟨levels + 1, ?_, fun nesting atMost => ?_⟩
    · rw [flatMap_cons, flatMap_append]
      exact balanced.group
    · obtain ⟨less, rfl⟩ : ∃ less, nesting = less + 1 := ⟨nesting - 1, by omega⟩
      rw [map_cons, map_append]
      exact .parentheses (isExpression less (by omega))
  | operand inner ih =>
    obtain ⟨levels, balanced, isExpression⟩ := ih
    exact ⟨levels, balanced, fun nesting atMost =>
      derives_loosen (isExpression nesting atMost) (by decide) (by decide)⟩
  | conjunction inner ih =>
    obtain ⟨levels, balanced, isExpression⟩ := ih
    exact ⟨levels, balanced, fun nesting atMost =>
      .tighter (by decide) (isExpression nesting atMost)⟩
  | @and left right before after first second isFirst isSecond =>
    obtain ⟨levels, balanced, isLeft⟩ := isFirst
    obtain ⟨levels', balanced', isRight⟩ := isSecond
    refine ⟨max levels levels', ?_, fun nesting atMost => ?_⟩
    · rw [flatMap_append, flatMap_cons]
      exact balanced.append balanced'
    · rw [map_append, map_cons]
      exact .binary .and (isLeft nesting (le_of_max_le_left atMost))
        (derives_loosen (isRight nesting (le_of_max_le_right atMost)) (by decide) (by decide))
  | @or left right before after first second isFirst isSecond =>
    obtain ⟨levels, balanced, isLeft⟩ := isFirst
    obtain ⟨levels', balanced', isRight⟩ := isSecond
    refine ⟨max levels levels', ?_, fun nesting atMost => ?_⟩
    · rw [flatMap_append, flatMap_cons]
      exact balanced.append balanced'
    · rw [map_append, map_cons]
      exact .binary .or (isLeft nesting (le_of_max_le_left atMost))
        (isRight nesting (le_of_max_le_right atMost))

def verdictsText (verdicts : Nat → Option Bool) (digits : Text) : Text :=
  verdictText (verdicts (digitsValue digits))

theorem tokenText_symbolToken (symbol : Symbol) :
    Grammar.tokenText (symbolToken verdicts symbol) =
      symbolText (verdictsText verdicts) symbol := by
  cases symbol with
  | condition digits =>
    rw [symbolToken, symbolText, verdictsText]
    generalize verdicts (digitsValue digits) = known
    obtain _ | _ | _ := known <;> rfl
  | and | or | opening | closing => rfl

theorem delimited_symbolToken {symbol : Symbol} {gap : Text}
    (separated : Separated ((symbol, gap) :: items)) :
    Grammar.Delimited (symbolToken verdicts symbol)
      (gap ++ write (verdictsText verdicts) items) := by
  obtain ⟨areBlank, mayTouch, -⟩ := separated
  have isDelimiter {c : Char} (blank : isBlank c = true) :
      isNumberDelimiter c = true ∧ isOperatorDelimiter c = true := by
    simp only [isBlank, Bool.or_eq_true, decide_eq_true_eq] at blank
    obtain ((rfl | rfl) | rfl) | rfl := blank <;> exact ⟨by decide, by decide⟩
  cases symbol with
  | condition digits =>
    have isEnded : isNumberDelimiter (headChar (gap ++ write (verdictsText verdicts) items)) =
        true := by
      cases gap with
      | cons c gap => exact (isDelimiter (areBlank c mem_cons_self)).1
      | nil =>
        obtain rfl | ⟨gap, later, rfl⟩ := mayTouch rfl
        · change isNumberDelimiter '\x00' = true
          decide
        · change isNumberDelimiter ')' = true
          decide
    rw [symbolToken]
    generalize verdicts (digitsValue digits) = known
    obtain _ | _ | _ := known <;> exact isEnded
  | and | or =>
    change isOperatorDelimiter (headChar (gap ++ write (verdictsText verdicts) items)) = true
    cases gap with
    | cons c gap => exact (isDelimiter (areBlank c mem_cons_self)).2
    | nil =>
      obtain ⟨gap, later, rfl⟩ := mayTouch rfl
      change isOperatorDelimiter '(' = true
      decide
  | opening | closing => exact trivial

theorem spells_expression (separated : Separated items) :
    Grammar.Spells ((items.map Prod.fst).map (symbolToken verdicts))
      (write (verdictsText verdicts) items) [] := by
  induction items with
  | nil => exact Grammar.spells_nil nofun
  | cons item items ih =>
    obtain ⟨symbol, gap⟩ := item
    have isLater := (ih separated.2.2).blanks separated.1
    have isToken := Grammar.Spells.cons (forall_mem_nil _)
      (delimited_symbolToken separated) isLater
    rw [nil_append, tokenText_symbolToken] at isToken
    simpa only [write, map_cons, flatMap_cons, append_assoc] using isToken

/-! ## Parentheses of expressions -/

variable {tokens : List Grammar.Token} {text rest : Text}

def tokenParens : Grammar.Token → Text
  | .opening => ['(']
  | .closing => [')']
  | _ => []

theorem balanced_of_derives {nesting n : Nat} {expression : Grammar.Tree}
    (derives : Grammar.Derives nesting n expression tokens) :
    ∃ levels ≤ nesting, Balanced levels (tokens.flatMap tokenParens) := by
  induction derives with
  | number | string | unknown => exact ⟨0, Nat.zero_le _, balanced_nil⟩
  | parentheses inner ih =>
    obtain ⟨levels, atMost, balanced⟩ := ih
    refine ⟨levels + 1, Nat.succ_le_succ atMost, ?_⟩
    rw [flatMap_cons, flatMap_append]
    exact balanced.group
  | minus operand ih | not operand ih | tighter positive inner ih =>
    exact ih
  | binary op first second isFirst isSecond =>
    obtain ⟨levels, atMost, balanced⟩ := isFirst
    obtain ⟨levels', atMost', balanced'⟩ := isSecond
    refine ⟨max levels levels', max_le atMost atMost', ?_⟩
    rw [flatMap_append, flatMap_cons]
    exact balanced.append balanced'

theorem foldl_tokenText {token : Grammar.Token} (wellFormed : Unknown.WellFormed token)
    (noQuote : '"' ∉ Grammar.tokenText token) (state : Nat × Nat) :
    (Grammar.tokenText token).foldl parenStep state =
      (tokenParens token).foldl parenStep state := by
  cases token with
  | number number =>
    refine foldl_parenStep_plain (fun c member => ?_) state
    have either := Correctness.isNumberChar_of_mem_text member
    constructor <;> (rintro rfl; exact absurd either (by decide))
  | string raw => exact absurd mem_cons_self noQuote
  | unknown digits =>
    refine foldl_parenStep_plain (fun c member => ?_) state
    obtain isName | isDigit := mem_append.mp member
    · constructor <;> (rintro rfl; exact absurd isName (by decide))
    · have either := wellFormed.1 c isDigit
      constructor <;> (rintro rfl; exact absurd either (by decide))
  | binary op => cases op <;> rfl
  | minus | not | opening | closing => rfl

theorem foldl_spells (spells : Grammar.Spells tokens text rest)
    (areTokens : ∀ token ∈ tokens, Unknown.WellFormed token ∧ '"' ∉ Grammar.tokenText token)
    (state : Nat × Nat) :
    text.foldl parenStep state =
      rest.foldl parenStep ((tokens.flatMap tokenParens).foldl parenStep state) := by
  induction spells generalizing state with
  | nil areBlank stops =>
    rw [foldl_append, foldl_parenStep_plain (noParens_of_blanks areBlank)]
    rfl
  | cons areBlank delimited later ih =>
    obtain ⟨⟨wellFormed, noQuote⟩, areLater⟩ := forall_mem_cons.mp areTokens
    rw [foldl_append, foldl_parenStep_plain (noParens_of_blanks areBlank),
      foldl_append, foldl_tokenText wellFormed noQuote, ih areLater,
      flatMap_cons, foldl_append]

theorem nesting_of_renders {nesting : Nat} {expression : Grammar.Tree}
    (renders : Grammar.Renders nesting expression text) (noQuote : '"' ∉ text) :
    Formula.nesting text ≤ nesting := by
  obtain ⟨tokens, derives, spells⟩ := renders
  obtain ⟨levels, atMost, balanced⟩ := balanced_of_derives derives
  have areTokens : ∀ token ∈ tokens,
      Unknown.WellFormed token ∧ '"' ∉ Grammar.tokenText token := by
    intro token member
    refine ⟨Unknown.wellFormed_of_derives derives token member, fun isQuote => noQuote ?_⟩
    exact (Correctness.mem_iff_of_spells spells (by decide)).mpr ⟨token, member, isQuote⟩
  have isNesting : Formula.nesting text = levels := by
    rw [Formula.nesting, foldl_spells spells areTokens, foldl_nil, balanced 0 0 le_rfl,
      Nat.zero_add, Nat.zero_max]
  rwa [isNesting]

/-! ## Results -/

def verdictResult : Option Bool → MatchResult
  | some true => .isMatch
  | some false => .noMatch
  | none => .mayMatch

theorem verdictText_plain (known : Option Bool) :
    ∀ c ∈ verdictText known, c ≠ '(' ∧ c ≠ ')' ∧ c ≠ '"' := by
  obtain _ | _ | _ := known <;> simp [verdictText, unknownText, zbxUnknownStr]

theorem noQuote_write (separated : Separated items) :
    '"' ∉ write (verdictsText verdicts) items := by
  intro isIn
  obtain ⟨⟨symbol, gap⟩, member, isQuote⟩ := mem_flatMap.mp isIn
  obtain isSymbol | isGap := mem_append.mp isQuote
  · cases symbol with
    | condition digits => exact (verdictText_plain _ _ isSymbol).2.2 rfl
    | and | or | opening | closing => simp [symbolText] at isSymbol
  · exact absurd (isBlank_of_separated separated member _ isGap) (by decide)

theorem nesting_write {conditionText : Text → Text} (areBlank : ∀ c ∈ blanks, isBlank c = true)
    (separated : Separated items)
    (noParens : ∀ digits, .condition digits ∈ items.map Prod.fst →
      ∀ c ∈ conditionText digits, c ≠ '(' ∧ c ≠ ')') :
    Formula.nesting (blanks ++ write conditionText items) =
      (((items.map Prod.fst).flatMap symbolParens).foldl parenStep (0, 0)).2 := by
  rw [Formula.nesting, foldl_append, foldl_parenStep_plain (noParens_of_blanks areBlank),
    foldl_parenStep_write noParens separated]

theorem matchResult_write (areBlank : ∀ c ∈ blanks, isBlank c = true)
    (separated : Separated items) (derives : Derives .disjunction tree (items.map Prod.fst))
    (verdicts : Nat → Option Bool) :
    matchResult (blanks ++ write (verdictsText verdicts) items) =
      if Formula.nesting (blanks ++ write (verdictsText verdicts) items) ≤ 31 then
        verdictResult (treeVerdict verdicts tree)
      else .noMatch := by
  have noParens : ∀ digits, .condition digits ∈ items.map Prod.fst →
      ∀ c ∈ verdictsText verdicts digits, c ≠ '(' ∧ c ≠ ')' := fun digits _ c member =>
    ⟨(verdictText_plain _ c member).1, (verdictText_plain _ c member).2.1⟩
  obtain ⟨levels, balanced, isExpression⟩ := derives_expression derives verdicts
  have isNesting : Formula.nesting (blanks ++ write (verdictsText verdicts) items) = levels := by
    rw [nesting_write areBlank separated noParens]
    exact nesting_of_balanced balanced
  split_ifs with isShallow
  · have renders : Grammar.Renders 31 (expressionTree verdicts tree)
        (blanks ++ write (verdictsText verdicts) items) :=
      ⟨_, isExpression 31 (isNesting ▸ isShallow), (spells_expression separated).blanks areBlank⟩
    have isNumber := Unknown.evaluateUnknown_of_renders renders
    rw [value_expressionTree, bind_some, Grammar.toNumber] at isNumber
    cases evaluated : evaluateUnknown (blanks ++ write (verdictsText verdicts) items) with
    | error failure =>
      rw [evaluated] at isNumber
      cases isNumber
    | ok number =>
      rw [evaluated] at isNumber
      obtain rfl := some.inj isNumber
      rw [matchResult, evaluated]
      generalize treeVerdict verdicts tree = known
      obtain _ | _ | _ := known
      · rfl
      · decide +kernel
      · decide +kernel
  · cases evaluated : evaluateUnknown (blanks ++ write (verdictsText verdicts) items) with
    | error failure => rw [matchResult, evaluated]
    | ok number =>
      obtain ⟨expression, renders⟩ := Unknown.renders_of_evaluateUnknown evaluated
      refine absurd (nesting_of_renders renders ?_) isShallow
      rw [mem_append, not_or]
      exact ⟨fun isIn => absurd (areBlank _ isIn) (by decide), noQuote_write separated⟩

/-! ## Rules -/

variable {configuration : Configuration} {database : Database} {event : Event} {oldValue : Bool}
  {correlation : Correlation}

def ConditionsExist (configuration : Configuration) (tree : Tree) : Prop :=
  ∀ conditionid ∈ tree.conditionids, (configuration.conditions conditionid).isSome = true

/-- What is known of a condition, by its number. -/
def knownOf (configuration : Configuration) (database : Database) (event : Event) (oldValue : Bool)
    (conditionid : Nat) : Option Bool :=
  (configuration.conditions conditionid).bind (verdict configuration database event oldValue)

theorem write_congr {first second : Text → Text}
    (same : ∀ digits, .condition digits ∈ items.map Prod.fst → first digits = second digits) :
    write first items = write second items := by
  refine flatMap_congr fun ⟨symbol, gap⟩ member => ?_
  cases symbol with
  | condition digits =>
    have isSymbol : Symbol.condition digits ∈ items.map Prod.fst :=
      List.mem_map.mpr ⟨_, member, rfl⟩
    simp only [symbolText, same digits isSymbol]
  | and | or | opening | closing => rfl

theorem formula_ne_nil {formula : Text} (isFormula : IsFormula tree formula) : formula ≠ [] := by
  obtain ⟨blanks, items, -, -, derives, rfl⟩ := isFormula
  have notEmpty : items.map Prod.fst ≠ [] := by
    generalize items.map Prod.fst = symbols at derives
    generalize Level.disjunction = part at derives
    induction derives with
    | operand inner ih | conjunction inner ih => exact ih
    | condition | group | and | or => simp
  have positive : 0 < items.length := by
    rw [← length_map Prod.fst]
    exact length_pos_iff.mpr notEmpty
  have atLeast := length_le_write items
  intro isEmpty
  have isLength := congrArg length isEmpty
  rw [length_append, length_nil] at isLength
  omega

theorem noParens_braced {digits : Text} (areDigits : ∀ c ∈ digits, c.isDigit = true) :
    ∀ c ∈ braced digits, c ≠ '(' ∧ c ≠ ')' := by
  intro c member
  rw [braced, mem_cons, mem_append, mem_singleton] at member
  obtain rfl | isDigit | rfl := member
  · exact ⟨by decide, by decide⟩
  · have isOne := areDigits c isDigit
    constructor <;> (rintro rfl; exact absurd isOne (by decide))
  · exact ⟨by decide, by decide⟩

theorem correlationMatchNewEvent_eq (isFormula : IsFormula tree correlation.formula)
    (exist : ConditionsExist configuration tree) :
    correlationMatchNewEvent configuration database event correlation oldValue =
      if Formula.nesting correlation.formula ≤ 31 then
        verdictResult (treeVerdict (knownOf configuration database event oldValue) tree)
      else .noMatch := by
  have notEmpty := formula_ne_nil isFormula
  obtain ⟨blanks, items, areBlank, separated, derives, isText⟩ := isFormula
  rw [correlationMatchNewEvent, if_neg notEmpty, isText]
  have haveValues : ∀ conditionid ∈ tree.conditionids, ∃ value,
      (configuration.conditions conditionid).map
        (correlationConditionMatchNewEvent configuration database event oldValue) = some value ∧
          value ≠ [] := by
    intro conditionid member
    obtain ⟨condition, isCondition⟩ := isSome_iff_exists.mp (exist conditionid member)
    refine ⟨_, congrArg _ isCondition, ?_⟩
    rw [correlationConditionMatchNewEvent_eq]
    generalize verdict configuration database event oldValue condition = known
    obtain _ | _ | _ := known <;> simp [verdictText, unknownText, zbxUnknownStr]
  have sameText : write (replacement fun conditionid =>
      (configuration.conditions conditionid).map
        (correlationConditionMatchNewEvent configuration database event oldValue)) items =
      write (verdictsText (knownOf configuration database event oldValue)) items := by
    refine write_congr fun digits member => ?_
    obtain ⟨-, -, -, isIn⟩ := conditions_of_derives derives member
    obtain ⟨condition, isCondition⟩ := isSome_iff_exists.mp (exist _ isIn)
    rw [replacement, verdictsText, knownOf, isCondition, bind_some, map_some,
      getD_some, correlationConditionMatchNewEvent_eq]
  have sameNesting : Formula.nesting (blanks ++ write (verdictsText
      (knownOf configuration database event oldValue)) items) =
        Formula.nesting (blanks ++ write braced items) := by
    rw [nesting_write areBlank separated, nesting_write areBlank separated]
    · intro digits member c isIn
      obtain ⟨areDigits, -, -, -⟩ := conditions_of_derives derives member
      exact noParens_braced areDigits c isIn
    · exact fun digits _ c member =>
        ⟨(verdictText_plain _ c member).1, (verdictText_plain _ c member).2.1⟩
  rw [replaced_write areBlank separated derives haveValues, sameText]
  exact (matchResult_write areBlank separated derives _).trans (by rw [sameNesting])

end Zabbix.EventCorrelation.Verdicts
