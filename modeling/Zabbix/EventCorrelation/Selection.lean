import Zabbix.EventCorrelation.Filter

/-!
# The selection of problems

The query for the problems that a rule may be true of.  Its condition is read from the texts of
the formulas, with the filters of their conditions, as the formulas are meant.
-/

namespace Zabbix.EventCorrelation.Selection

open Common.Text Option List
open Formula
open NewEvent
open Verdicts
open StringConditions
open EventCorrelation.Filter
open Expression.Numbers
open Library
open Library.Sql hiding Condition
open Library.SqlGrammar hiding Derives
open Library.SqlMeaning
open Library.SqlText

/-! ## Formulas with filters -/

def symbolTokens (tokensOf : Text → List SqlText.Token) : Symbol → List SqlText.Token
  | .condition digits => tokensOf digits
  | .and => [.keyword .andWord]
  | .or => [.keyword .orWord]
  | .opening => [.opening]
  | .closing => [.closing]

def sqlTree (sqlOf : Nat → Sql.Condition) : Tree → Sql.Condition
  | .condition conditionid => sqlOf conditionid
  | .and left right => .and (sqlTree sqlOf left) (sqlTree sqlOf right)
  | .or left right => .or (sqlTree sqlOf left) (sqlTree sqlOf right)

variable {filterText : Text → Text} {tokensOf : Text → List SqlText.Token}
  {sqlOf : Nat → Sql.Condition} {items : List Item} {tree tree' : Tree} {escapes : Bool}
  {blanks formula : Text}

theorem holds_sqlTree (tables : Tables) (tree : Tree) (scope : Scope) :
    (sqlTree sqlOf tree).holds tables scope =
      tree.holds fun conditionid => (sqlOf conditionid).holds tables scope := by
  induction tree with
  | condition conditionid => rfl
  | and left right isLeft isRight | or left right isLeft isRight =>
    rw [sqlTree, Sql.Condition.holds, isLeft, isRight, Tree.holds]

theorem derives_sqlTree {part : Level} {symbols : List Symbol}
    (derives : Formula.Derives part tree symbols)
    (areDerived : ∀ digits, .condition digits ∈ symbols →
      SqlGrammar.Derives .operand (sqlOf (digitsValue digits)) (tokensOf digits)) :
    SqlGrammar.Derives part (sqlTree sqlOf tree) (symbols.flatMap (symbolTokens tokensOf)) := by
  induction derives with
  | condition areDigits nonempty fits =>
    rw [flatMap_singleton]
    exact areDerived _ mem_cons_self
  | group inner ih =>
    rw [flatMap_cons, flatMap_append]
    refine .group (ih fun digits member => areDerived digits ?_)
    exact mem_cons_of_mem _ (mem_append_left _ member)
  | operand inner ih => exact .operand (ih areDerived)
  | conjunction inner ih => exact .conjunction (ih areDerived)
  | and first second isFirst isSecond =>
    rw [flatMap_append, flatMap_cons]
    exact .and (isFirst fun digits member => areDerived digits (mem_append_left _ member))
      (isSecond fun digits member => areDerived digits
        (mem_append_right _ (mem_cons_of_mem _ member)))
  | or first second isFirst isSecond =>
    rw [flatMap_append, flatMap_cons]
    exact .or (isFirst fun digits member => areDerived digits (mem_append_left _ member))
      (isSecond fun digits member => areDerived digits
        (mem_append_right _ (mem_cons_of_mem _ member)))

theorem sql_isBlank {c : Char} (blank : Expression.Evaluate.isBlank c = true) :
    SqlText.isBlank c = true := by
  simp only [Expression.Evaluate.isBlank, Bool.or_eq_true, decide_eq_true_eq] at blank
  obtain ((rfl | rfl) | rfl) | rfl := blank <;> decide

theorem isBreak_of_isBlank {c : Char} (blank : Expression.Evaluate.isBlank c = true) :
    isBreak c = true := by
  simp only [Expression.Evaluate.isBlank, Bool.or_eq_true, decide_eq_true_eq] at blank
  obtain ((rfl | rfl) | rfl) | rfl := blank <;> decide

theorem startsApart_of_separated {symbol : Symbol} {gap : Text}
    (separated : Separated ((symbol, gap) :: items))
    (notParenthesis : symbol ≠ .opening ∧ symbol ≠ .closing) :
    StartsApart (gap ++ write filterText items) := by
  obtain ⟨areBlank, mayTouch, -⟩ := separated
  cases gap with
  | cons c gap =>
    intro first isFirst
    obtain rfl := some.inj isFirst
    exact isBreak_of_isBlank (areBlank _ mem_cons_self)
  | nil =>
    have isNext := mayTouch rfl
    cases symbol with
    | condition digits =>
      obtain rfl | ⟨gap, later, rfl⟩ := isNext
      · exact nofun
      · intro first isFirst
        obtain rfl := some.inj isFirst
        rfl
    | and | or =>
      obtain ⟨gap, later, rfl⟩ := isNext
      intro first isFirst
      obtain rfl := some.inj isFirst
      rfl
    | opening => exact absurd rfl notParenthesis.1
    | closing => exact absurd rfl notParenthesis.2

theorem spells_write (separated : Separated items)
    (areSpelled : ∀ digits, .condition digits ∈ items.map Prod.fst →
      SqlText.Spells escapes (filterText digits) (tokensOf digits)) :
    SqlText.Spells escapes (write filterText items)
      ((items.map Prod.fst).flatMap (symbolTokens tokensOf)) := by
  induction items with
  | nil => exact spells_nil
  | cons item items ih =>
    obtain ⟨symbol, gap⟩ := item
    have areBlank : ∀ c ∈ gap, SqlText.isBlank c = true := fun c member =>
      sql_isBlank (separated.1 c member)
    have isLater := (ih separated.2.2 fun digits member =>
      areSpelled digits (mem_cons_of_mem _ member)).blanks areBlank
    have isWhole : write filterText ((symbol, gap) :: items) =
        symbolText filterText symbol ++ (gap ++ write filterText items) := by
      rw [write, flatMap_cons, append_assoc]
      rfl
    rw [isWhole, map_cons, flatMap_cons]
    cases symbol with
    | opening | closing => exact Spells.after_between rfl isLater
    | condition digits =>
      exact (areSpelled digits mem_cons_self).append
        (startsApart_of_separated separated (by simp)) isLater
    | and | or =>
      exact Spells.append ⟨[], .word _, rfl, rfl, rfl⟩
        (startsApart_of_separated separated (by simp)) isLater

/-! ## Formulas are read in one way -/

/-- A filter that tells numbers apart. -/
def numberText (value : Nat) : Text :=
  Nat.toDigits 10 value ++ ('=' :: Nat.toDigits 10 value)

def numberTokens (digits : Text) : List SqlText.Token :=
  [.number (digitsValue digits), .equals, .number (digitsValue digits)]

def numberCondition (value : Nat) : Sql.Condition :=
  .equals (.number value) (.number value)

theorem spells_numberText (value : Nat) :
    SqlText.Spells escapes (numberText value) [.number value, .equals, .number value] := by
  have isLater : SqlText.Spells escapes ('=' :: Nat.toDigits 10 value) [.equals, .number value] :=
    @Spells.after_between _ ['='] _ _ _ rfl (spells_number value)
  exact (spells_number value).append_cons rfl isLater

theorem sqlTree_inj (tree tree' : Tree)
    (same : sqlTree numberCondition tree = sqlTree numberCondition tree') : tree = tree' := by
  induction tree generalizing tree' with
  | condition conditionid => cases tree' <;> simp_all [sqlTree, numberCondition]
  | and left right isLeft isRight =>
    cases tree' with
    | and left' right' =>
      obtain ⟨sameLeft, sameRight⟩ := Sql.Condition.and.inj same
      rw [isLeft _ sameLeft, isRight _ sameRight]
    | condition | or => cases same
  | or left right isLeft isRight =>
    cases tree' with
    | or left' right' =>
      obtain ⟨sameLeft, sameRight⟩ := Sql.Condition.or.inj same
      rw [isLeft _ sameLeft, isRight _ sameRight]
    | condition | and => cases same

theorem read_of_isFormula (isFormula : IsFormula tree formula) :
    ∃ tokens, (replaced (fun value => some (numberText value)) formula).bind (lex true) =
        some tokens ∧
      readCondition tokens.length tokens = .ok (sqlTree numberCondition tree, []) := by
  obtain ⟨blanks, items, areBlank, separated, derives, rfl⟩ := isFormula
  have haveValues : ∀ conditionid ∈ tree.conditionids,
      ∃ value, some (numberText conditionid) = some value ∧ value ≠ [] := fun conditionid _ =>
    ⟨_, rfl, append_ne_nil_of_right_ne_nil _ (cons_ne_nil _ _)⟩
  have isText := replaced_write areBlank separated derives haveValues
  have areSpelled : ∀ digits, .condition digits ∈ items.map Prod.fst →
      SqlText.Spells true (replacement (fun value => some (numberText value)) digits)
        (numberTokens digits) := fun digits _ => spells_numberText (digitsValue digits)
  have spells := (spells_write separated areSpelled).blanks fun c member =>
    sql_isBlank (areBlank c member)
  have areDerived : ∀ digits, .condition digits ∈ items.map Prod.fst →
      SqlGrammar.Derives .operand (numberCondition (digitsValue digits)) (numberTokens digits) :=
    fun digits _ => .equals rfl rfl
  have isRead := readCondition_of_derives (derives_sqlTree derives areDerived)
  refine ⟨_, ?_, isRead⟩
  rw [isText, bind_some, lex_of_spells spells]

theorem isFormula_unique (isFormula : IsFormula tree formula)
    (isFormula' : IsFormula tree' formula) : tree = tree' := by
  obtain ⟨tokens, isLexed, isRead⟩ := read_of_isFormula isFormula
  obtain ⟨tokens', isLexed', isRead'⟩ := read_of_isFormula isFormula'
  obtain rfl := some.inj (isLexed.symm.trans isLexed')
  exact sqlTree_inj tree tree' (Prod.mk.inj (Except.ok.inj (isRead.symm.trans isRead'))).1

/-! ## Filters of rules -/

variable {backend : Backend} {configuration : Configuration} {database : Database} {event : Event}
  {correlation : Correlation}

/-- The truth of a condition, by its number. -/
def truthOf (configuration : Configuration) (database : Database) (event : Event)
    (includes : Text → Text → Bool) (problemTags : List Tag) (conditionid : Nat) : Bool :=
  match configuration.conditions conditionid with
  | some condition => condition.holds configuration database event includes problemTags
  | none => false

/-- The rule is true for the new event and a problem; one without conditions always is. -/
def RuleHolds (configuration : Configuration) (database : Database) (event : Event)
    (includes : Text → Text → Bool) (correlation : Correlation) (problem : Problem) : Prop :=
  correlation.formula = [] ∨ ∃ tree, IsFormula tree correlation.formula ∧
    tree.holds (truthOf configuration database event includes
      (tagsOf database problem.eventid)) = true

/-- The formula of the rule combines conditions that are there, or there is none. -/
def IsRule (configuration : Configuration) (correlation : Correlation) : Prop :=
  correlation.formula = [] ∨ ∃ tree, IsFormula tree correlation.formula ∧
    ConditionsExist configuration tree

theorem holds_congr {first second : Nat → Bool}
    (same : ∀ conditionid ∈ tree.conditionids, first conditionid = second conditionid) :
    tree.holds first = tree.holds second := by
  induction tree with
  | condition conditionid => exact same conditionid mem_cons_self
  | and left right isLeft isRight | or left right isLeft isRight =>
    rw [Tree.holds, Tree.holds,
      isLeft fun conditionid member => same conditionid (mem_append_left _ member),
      isRight fun conditionid member => same conditionid (mem_append_right _ member)]

theorem text_ne_nil {text : Text} {tokens : List SqlText.Token} {part : Level}
    {sqlCondition : Sql.Condition} (spells : SqlText.Spells escapes text tokens)
    (derives : SqlGrammar.Derives part sqlCondition tokens) : text ≠ [] := by
  rintro rfl
  have noTokens := (lex_of_spells spells).symm.trans (lex_of_spells spells_nil)
  have positive := length_pos_of_derives derives
  rw [some.inj noTokens] at positive
  exact absurd positive (Nat.lt_irrefl 0)

theorem denotes_formula (backend : Backend) (database : Database) (event : Event)
    (isFormula : IsFormula tree formula) (exist : ConditionsExist configuration tree) :
    ∃ expression meaning,
      replaced (fun conditionid => (configuration.conditions conditionid).map
        (correlationConditionGetEventFilter backend configuration database event)) formula =
          some expression ∧ expression ≠ [] ∧
      Denotes backend.escapes (tables configuration database) .disjunction expression meaning ∧
      ∀ correlation problem, meaning (scopeOf correlation problem) =
        tree.holds (truthOf configuration database event likeContains
          (tagsOf database problem.eventid)) := by
  have isFilter (condition : NewEvent.Condition) : ∃ tokens sqlCondition,
      SqlText.Spells backend.escapes
          (correlationConditionGetEventFilter backend configuration database event condition) tokens ∧
        SqlGrammar.Derives .operand sqlCondition tokens ∧
          ∀ correlation problem,
            sqlCondition.holds (tables configuration database) (scopeOf correlation problem) =
              condition.holds configuration database event likeContains
                (tagsOf database problem.eventid) := by
    obtain ⟨meaning, ⟨tokens, sqlCondition, spells, derives, isMeaning⟩, holds⟩ :=
      @isFilter_correlationConditionGetEventFilter backend configuration database event condition
    exact ⟨tokens, sqlCondition, spells, derives, fun correlation problem =>
      (isMeaning _).trans (holds correlation problem)⟩
  choose tokens sqlCondition areSpelled areDerived hold using isFilter
  obtain ⟨blanks, items, areBlank, separated, derives, rfl⟩ := isFormula
  let filterOf := fun conditionid => (configuration.conditions conditionid).map
    (correlationConditionGetEventFilter backend configuration database event)
  let tokensOf := fun digits => ((configuration.conditions (digitsValue digits)).map tokens).getD []
  let sqlOf := fun conditionid =>
    ((configuration.conditions conditionid).map sqlCondition).getD (.isNull (.number 0))
  have haveValues : ∀ conditionid ∈ tree.conditionids,
      ∃ value, filterOf conditionid = some value ∧ value ≠ [] := by
    intro conditionid member
    obtain ⟨condition, isCondition⟩ := isSome_iff_exists.mp (exist conditionid member)
    have isValue : filterOf conditionid = some _ := congrArg (Option.map _) isCondition
    exact ⟨_, isValue, text_ne_nil (areSpelled condition) (areDerived condition)⟩
  have isSymbol : ∀ digits, .condition digits ∈ items.map Prod.fst →
      SqlText.Spells backend.escapes (replacement filterOf digits) (tokensOf digits) ∧
        SqlGrammar.Derives .operand (sqlOf (digitsValue digits)) (tokensOf digits) := by
    intro digits member
    obtain ⟨-, -, -, isIn⟩ := conditions_of_derives derives member
    obtain ⟨condition, isCondition⟩ := isSome_iff_exists.mp (exist _ isIn)
    simp only [replacement, filterOf, tokensOf, sqlOf, isCondition, map_some, getD_some]
    exact ⟨areSpelled condition, areDerived condition⟩
  have spells := (spells_write separated fun digits member => (isSymbol digits member).1).blanks
    fun c member => sql_isBlank (areBlank c member)
  have isDerived := derives_sqlTree derives fun digits member => (isSymbol digits member).2
  refine ⟨_, _, replaced_write areBlank separated derives haveValues,
    text_ne_nil spells isDerived, denotes_of spells isDerived, fun correlation problem => ?_⟩
  rw [holds_sqlTree]
  refine holds_congr fun conditionid member => ?_
  obtain ⟨condition, isCondition⟩ := isSome_iff_exists.mp (exist conditionid member)
  simp only [sqlOf, truthOf, isCondition, map_some, getD_some]
  exact hold condition correlation problem

theorem denotes_correlationid (escapes : Bool) (tables : Tables) (correlationid : Nat) :
    Denotes escapes tables .operand
      ("c.correlationid=".toList ++ Nat.toDigits 10 correlationid) fun scope =>
        same (Sql.column scope "c.correlationid".toList) (.number correlationid) := by
  have isBefore : lexFrom escapes .between "c.correlationid=".toList =
      some ([.name "c.correlationid".toList, .equals], .between) := rfl
  exact denotes_of (.after_between isBefore (spells_number correlationid))
    (@SqlGrammar.Derives.equals (.name "c.correlationid".toList) (.number correlationid)
      (.column "c.correlationid".toList) (.number correlationid) rfl rfl)

theorem denotes_correlationAddEventFilter (backend : Backend) (database : Database) (event : Event)
    (isRule : IsRule configuration correlation) :
    ∃ meaning, Denotes backend.escapes (tables configuration database) .conjunction
        (correlationAddEventFilter backend configuration database event correlation) meaning ∧
      ∀ found problem, meaning (scopeOf found problem) = true ↔
        found.correlationid = correlation.correlationid ∧
          RuleHolds configuration database event likeContains correlation problem := by
  have isNumber := (denotes_correlationid backend.escapes (tables configuration database)
    correlation.correlationid).conjunction
  have isSame (found : Correlation) (problem : Problem) :
      same (Sql.column (scopeOf found problem) "c.correlationid".toList)
        (.number correlation.correlationid) = true ↔
          found.correlationid = correlation.correlationid := by
    change same (.number found.correlationid) (.number correlation.correlationid) = true ↔ _
    rw [same_number, decide_eq_true_eq, eq_comm]
  unfold correlationAddEventFilter
  obtain isEmpty | ⟨tree, isFormula, exist⟩ := isRule
  · have isReplaced (valueOf : Nat → Option Text) :
        replaced valueOf correlation.formula = some [] := by
      rw [isEmpty]
      rfl
    refine ⟨_, by simpa only [isReplaced] using isNumber, fun found problem => ?_⟩
    exact (isSame found problem).trans (and_iff_left (Or.inl isEmpty)).symm
  · obtain ⟨expression, meaning, isReplaced, notEmpty, denotes, holds⟩ :=
      denotes_formula backend database event isFormula exist
    obtain ⟨c, others, rfl⟩ := exists_cons_of_ne_nil notEmpty
    refine ⟨_, by simpa only [isReplaced] using isNumber.and denotes.group,
      fun found problem => ?_⟩
    rw [Bool.and_eq_true, isSame, holds]
    refine and_congr_right fun _ => ⟨fun isTrue => Or.inr ⟨tree, isFormula, isTrue⟩, ?_⟩
    rintro (isEmpty | ⟨tree', isFormula', isTrue⟩)
    · exact absurd isEmpty (formula_ne_nil isFormula)
    · rwa [isFormula_unique isFormula isFormula']

end Zabbix.EventCorrelation.Selection
