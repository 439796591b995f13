import Zabbix.EventCorrelation.Formula
import Zabbix.Expression.Unknown

/-!
# Rules for a new event

Before problems are looked for, the formula of a rule is evaluated on the new event, with
conditions on old events left unknown.  The evaluation gives the three-valued verdict of the
formula, if its parentheses are not nested too deep.
-/

namespace Zabbix.EventCorrelation.NewEvent

open Common.Text Formula Expression.Evaluate Expression.Numbers List
open Library.SqlGrammar (Level)

/-! ## Rules and events -/

/-- `CONDITION_OPERATOR_*` of correlation conditions -/
inductive Operator where
  | equal
  | notEqual
  | like
  | notLike
deriving DecidableEq

/-- `zbx_corr_condition_t` -/
inductive Condition where
  | oldEventTag (tag : Text)
  | newEventTag (tag : Text)
  | newEventHostgroup (groupid : Nat) (op : Operator)
  | eventTagPair (oldtag newtag : Text)
  | oldEventTagValue (tag value : Text) (op : Operator)
  | newEventTagValue (tag value : Text) (op : Operator)
deriving DecidableEq

/-- `ZBX_CORR_OPERATION_*` -/
inductive Operation where
  | closeOld
  | closeNew
deriving DecidableEq

/-- `zbx_correlation_t` -/
structure Correlation where
  correlationid : Nat
  formula : Text
  operations : List Operation
deriving DecidableEq

/-- What is read from the configuration cache: the rules in the order of their numbers, the
conditions, and the groups that are nested in a host group, with itself. -/
structure Configuration where
  correlations : List Correlation
  conditions : Nat → Option Condition
  nestedHostgroupids : Nat → List Nat
  isSorted : correlations.Pairwise fun first second => first.correlationid < second.correlationid

/-- `zbx_tag_t` -/
structure Tag where
  tag : Text
  value : Text
deriving DecidableEq

/-- `DB_EVENT` -/
structure Event where
  eventid : Nat
  objectid : Nat
  clock : Nat
  ns : Nat
  tags : List Tag

/-- A row of `problem`; the numbers of events start at one. -/
structure Problem where
  eventid : Nat
  objectid : Nat
  source : Nat
  rEventid : Option Nat
  isNumber : eventid ≠ 0

/-- A row of `problem_tag`. -/
structure ProblemTag where
  eventid : Nat
  tag : Text
  value : Text

/-- The tables that correlation reads.  `functions` has triggers and items, `items` has items and
hosts, and `hosts_groups` has hosts and groups. -/
structure Database where
  problems : List Problem
  problemTags : List ProblemTag
  functions : List (Nat × Nat)
  items : List (Nat × Nat)
  hostsGroups : List (Nat × Nat)
  isKey : (problems.map Problem.eventid).Nodup

/-! ## Conditions on the new event -/

/-- `strstr` -/
def contains (text part : Text) : Bool :=
  text.tails.any part.isPrefixOf

def zbxStrmatchCondition (value pattern : Text) : Operator → Bool
  | .equal => value = pattern
  | .notEqual => value ≠ pattern
  | .like => contains value pattern
  | .notLike => !contains value pattern

variable (configuration : Configuration) (database : Database) (event : Event)

/-- The select of a host of the trigger's items that is in one of the groups. -/
def correlationMatchEventHostgroup (groupid : Nat) : Bool :=
  database.functions.any fun (triggerid, itemid) =>
    triggerid = event.objectid && database.items.any fun (itemid', hostid) =>
      itemid' = itemid && database.hostsGroups.any fun (hostid', groupid') =>
        hostid' = hostid && decide (groupid' ∈ configuration.nestedHostgroupids groupid)

/-- `ZBX_UNKNOWN_STR "0"` -/
def unknownText : Text :=
  zbxUnknownStr ++ ['0']

def correlationConditionMatchNewEvent (oldValue : Bool) : Condition → Text
  | .oldEventTag _ | .oldEventTagValue _ _ _ => if oldValue then unknownText else ['0']
  | .newEventTag tag => if event.tags.any fun found => found.tag = tag then ['1'] else ['0']
  | .newEventTagValue tag value op =>
    if event.tags.any fun found => found.tag = tag && zbxStrmatchCondition found.value value op
    then ['1'] else ['0']
  | .newEventHostgroup groupid op =>
    let isMember := correlationMatchEventHostgroup configuration database event groupid
    if op = .notEqual then if isMember then ['0'] else ['1']
    else if isMember then ['1'] else ['0']
  | .eventTagPair _ newtag =>
    if event.tags.any fun found => found.tag = newtag then
      if oldValue then unknownText else ['0']
    else ['0']

/-- `zbx_correlation_match_result_t` -/
inductive MatchResult where
  | noMatch
  | isMatch
  | mayMatch
deriving DecidableEq

/-- What a formula with its conditions replaced gives. -/
def matchResult (expression : Text) : MatchResult :=
  match evaluateUnknown expression with
  | .error _ => .noMatch
  | .ok (.unknown _) => .mayMatch
  | .ok (.known result) => if zbxDoubleCompare result 1 then .isMatch else .noMatch

def correlationMatchNewEvent (correlation : Correlation) (oldValue : Bool) : MatchResult :=
  if correlation.formula = [] then .mayMatch
  else
    match replaced (fun conditionid => (configuration.conditions conditionid).map
      (correlationConditionMatchNewEvent configuration database event oldValue))
        correlation.formula with
    | none => .noMatch
    | some expression => matchResult expression

/-! ## What conditions mean -/

/-- The truth of a condition for the new event and a problem with the given tags, where `includes`
tells which values contain a text. -/
def Condition.holds (includes : Text → Text → Bool) (problemTags : List Tag) : Condition → Bool
  | .oldEventTag tag => problemTags.any fun found => found.tag = tag
  | .newEventTag tag => event.tags.any fun found => found.tag = tag
  | .newEventHostgroup groupid op =>
    let isMember := correlationMatchEventHostgroup configuration database event groupid
    if op = .notEqual then !isMember else isMember
  | .eventTagPair oldtag newtag =>
    event.tags.any fun found => found.tag = newtag &&
      problemTags.any fun old => old.tag = oldtag && old.value = found.value
  | .oldEventTagValue tag value op =>
    match op with
    | .equal => problemTags.any fun found => found.tag = tag && found.value = value
    | .notEqual => !problemTags.any fun found => found.tag = tag && found.value = value
    | .like => problemTags.any fun found => found.tag = tag && includes found.value value
    | .notLike => !problemTags.any fun found => found.tag = tag && includes found.value value
  | .newEventTagValue tag value op =>
    event.tags.any fun found => found.tag = tag && zbxStrmatchCondition found.value value op

/-- The truth of a condition as far as it is known from the new event. -/
def verdict (oldValue : Bool) (condition : Condition) : Option Bool :=
  match condition with
  | .oldEventTag _ | .oldEventTagValue _ _ _ => if oldValue then none else some false
  | .eventTagPair _ newtag =>
    if oldValue && event.tags.any fun found => found.tag = newtag then none else some false
  | _ => some (condition.holds configuration database event contains [])

def verdictText : Option Bool → Text
  | some true => ['1']
  | some false => ['0']
  | none => unknownText

variable {configuration database event} {oldValue : Bool}

theorem correlationConditionMatchNewEvent_eq (condition : Condition) :
    correlationConditionMatchNewEvent configuration database event oldValue condition =
      verdictText (verdict configuration database event oldValue condition) := by
  cases condition with
  | oldEventTag tag | oldEventTagValue tag value op => cases oldValue <;> rfl
  | newEventTag tag =>
    simp only [correlationConditionMatchNewEvent, verdict, Condition.holds]
    split_ifs with isTag <;> simp [isTag, verdictText]
  | newEventTagValue tag value op =>
    simp only [correlationConditionMatchNewEvent, verdict, Condition.holds]
    split_ifs with isTag <;> simp [isTag, verdictText]
  | newEventHostgroup groupid op =>
    simp only [correlationConditionMatchNewEvent, verdict, Condition.holds]
    split_ifs with isOther isMember isMember <;> simp [isMember, verdictText]
  | eventTagPair oldtag newtag =>
    simp only [correlationConditionMatchNewEvent, verdict]
    generalize (event.tags.any fun found => decide (found.tag = newtag)) = hasTag
    cases oldValue <;> cases hasTag <;> rfl

theorem holds_of_verdict {condition : Condition} {truth : Bool}
    (isKnown : verdict configuration database event true condition = some truth)
    (includes : Text → Text → Bool) (problemTags : List Tag) :
    condition.holds configuration database event includes problemTags = truth := by
  cases condition with
  | oldEventTag tag | oldEventTagValue tag value op => cases isKnown
  | newEventTag tag | newEventTagValue tag value op | newEventHostgroup groupid op =>
    exact Option.some.inj isKnown
  | eventTagPair oldtag newtag =>
    simp only [verdict, Bool.true_and] at isKnown
    split_ifs at isKnown with noTag
    obtain rfl := Option.some.inj isKnown
    rw [Bool.not_eq_true, List.any_eq_false] at noTag
    rw [Condition.holds, List.any_eq_false]
    intro found member
    have isOther := noTag found member
    simp_all

/-! ## Three-valued formulas -/

/-- `and` and `or` as far as their operands are known. -/
def verdictAnd : Option Bool → Option Bool → Option Bool
  | some false, _ | _, some false => some false
  | some true, some true => some true
  | _, _ => none

def verdictOr : Option Bool → Option Bool → Option Bool
  | some true, _ | _, some true => some true
  | some false, some false => some false
  | _, _ => none

def treeVerdict (verdicts : Nat → Option Bool) : Tree → Option Bool
  | .condition conditionid => verdicts conditionid
  | .and left right => verdictAnd (treeVerdict verdicts left) (treeVerdict verdicts right)
  | .or left right => verdictOr (treeVerdict verdicts left) (treeVerdict verdicts right)

theorem holds_of_treeVerdict {verdicts : Nat → Option Bool} {truth : Nat → Bool} {tree : Tree}
    (agree : ∀ conditionid ∈ tree.conditionids, ∀ known,
      verdicts conditionid = some known → truth conditionid = known) :
    ∀ known, treeVerdict verdicts tree = some known → tree.holds truth = known := by
  induction tree with
  | condition conditionid => exact agree conditionid mem_cons_self
  | and left right isLeft isRight =>
    have agreeLeft := isLeft fun conditionid member =>
      agree conditionid (mem_append_left _ member)
    have agreeRight := isRight fun conditionid member =>
      agree conditionid (mem_append_right _ member)
    simp only [treeVerdict, Tree.holds]
    generalize treeVerdict verdicts left = leftVerdict at agreeLeft
    generalize treeVerdict verdicts right = rightVerdict at agreeRight
    obtain _ | _ | _ := leftVerdict <;> obtain _ | _ | _ := rightVerdict <;>
      simp_all [verdictAnd]
  | or left right isLeft isRight =>
    have agreeLeft := isLeft fun conditionid member =>
      agree conditionid (mem_append_left _ member)
    have agreeRight := isRight fun conditionid member =>
      agree conditionid (mem_append_right _ member)
    simp only [treeVerdict, Tree.holds]
    generalize treeVerdict verdicts left = leftVerdict at agreeLeft
    generalize treeVerdict verdicts right = rightVerdict at agreeRight
    obtain _ | _ | _ := leftVerdict <;> obtain _ | _ | _ := rightVerdict <;>
      simp_all [verdictOr]

end Zabbix.EventCorrelation.NewEvent
