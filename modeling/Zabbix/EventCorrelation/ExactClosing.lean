import Zabbix.EventCorrelation.ClosedProblems
import Mathlib.Data.List.Nodup

/-!
# Exact closing

A rule that is true of an open problem is discarded for the new event only where its parentheses
are nested too deep, and what is queued is what the rules are true of, as `like` reads texts.
-/

namespace Zabbix.EventCorrelation.ExactClosing

open Common.Text Formula NewEvent Verdicts StringConditions EventCorrelation.Filter Selection
open GlobalRules
open ClosedProblems Library

variable {backend : Backend} {configuration : Configuration} {database : Database} {event : Event}
  {order : RowOrder} {state : State} {rule : Correlation} {problem : Problem}
  {includes : Text → Text → Bool}

/-! ## Discarded rules -/

theorem agrees_knownOf (problemTags : List Tag) (conditionid : Nat) (known : Bool)
    (isKnown : knownOf configuration database event true conditionid = some known) :
    truthOf configuration database event includes problemTags conditionid = known := by
  rw [knownOf] at isKnown
  rw [truthOf]
  cases isCondition : configuration.conditions conditionid with
  | none => simp [isCondition] at isKnown
  | some condition =>
    rw [isCondition, Option.bind_some] at isKnown
    exact holds_of_verdict isKnown includes problemTags

theorem matches_iff_nesting (isRule : IsRule configuration rule)
    (ruleHolds : RuleHolds configuration database event includes rule problem) :
    correlationMatchNewEvent configuration database event rule true ≠ .noMatch ↔
      nesting rule.formula ≤ 31 := by
  obtain isEmpty | ⟨tree, isFormula, exist⟩ := isRule
  · rw [correlationMatchNewEvent, if_pos isEmpty, isEmpty]
    exact iff_of_true (by simp) (Nat.zero_le 31)
  · obtain isEmpty | ⟨tree', isFormula', holds⟩ := ruleHolds
    · exact absurd isEmpty (formula_ne_nil isFormula)
    · obtain rfl := isFormula_unique isFormula isFormula'
      have notFalse : treeVerdict (knownOf configuration database event true) tree ≠
          some false := by
        intro isFalse
        have contrary : tree.holds (truthOf configuration database event includes
            (tagsOf database problem.eventid)) = false :=
          holds_of_treeVerdict (fun conditionid _ => agrees_knownOf _ conditionid) false isFalse
        simp [holds] at contrary
      rw [correlationMatchNewEvent_eq isFormula exist]
      split_ifs with shallow
      · refine iff_of_true ?_ shallow
        cases isVerdict : treeVerdict (knownOf configuration database event true) tree with
        | none => simp [verdictResult]
        | some truth =>
          cases truth with
          | true => simp [verdictResult]
          | false => exact absurd isVerdict notFalse
      · exact iff_of_false (fun contrary => contrary rfl) shallow

/-! ## What is queued -/

/-- A rule that closes old events is true of the problem. -/
def IsClosed (configuration : Configuration) (database : Database) (event : Event)
    (problem : Problem) : Prop :=
  ∃ rule ∈ configuration.correlations, ClosesOld rule ∧
    RuleHolds configuration database event contains rule problem

/-- A formula that the evaluator takes. -/
def IsShallow (rule : Correlation) : Prop :=
  nesting rule.formula ≤ 31

/-- A rule that closes old events is selected with the problem, as `like` reads texts. -/
def IsSelected (configuration : Configuration) (database : Database) (event : Event)
    (problem : Problem) : Prop :=
  ∃ rule ∈ configuration.correlations, ClosesOld rule ∧ IsShallow rule ∧
    RuleHolds configuration database event likeContains rule problem

/-- The problem table is taken for resolved only if it is. -/
def KnowsOpen (database : Database) (state : State) : Prop :=
  state.problemState = .resolved → ∀ problem ∈ database.problems, isOpen problem = false

/-- All rules combine conditions that are there. -/
def AreRules (configuration : Configuration) : Prop :=
  ∀ rule ∈ configuration.correlations, IsRule configuration rule

theorem correlationid_inj {rules : List Correlation} {rule' : Correlation}
    (isSorted : rules.Pairwise fun first second => first.correlationid < second.correlationid)
    (member : rule ∈ rules) (member' : rule' ∈ rules)
    (same : rule.correlationid = rule'.correlationid) : rule = rule' := by
  have isFound := find?_of_mem isSorted member
  rw [same, find?_of_mem isSorted member'] at isFound
  exact (Option.some.inj isFound).symm

/-- The rules for old events, after the first loop. -/
def corrOldOf (configuration : Configuration) (database : Database) (event : Event)
    (state : State) : List Correlation :=
  (sortRules configuration database event state.problemState).corrOld

theorem corrOldOf_sublist :
    (corrOldOf configuration database event state).Sublist configuration.correlations := by
  obtain ⟨added, isSublist, isAdded⟩ := sublist_corrOld configuration.correlations
    { problemState := state.problemState, corrOld := [], corrNew := [] }
  rw [corrOldOf, sortRules, isAdded]
  exact isSublist

theorem mem_corrOldOf (knowsOpen : KnowsOpen database state) (member : problem ∈ database.problems)
    (isOpen : GlobalRules.isOpen problem = true) :
    rule ∈ corrOldOf configuration database event state ↔
      rule ∈ configuration.correlations ∧ ChecksOld configuration database event rule := by
  have notResolved : state.problemState ≠ .resolved := by
    intro resolved
    exact absurd isOpen (Bool.eq_false_iff.mp (knowsOpen resolved problem member))
  rw [corrOldOf, sortRules, mem_corrOld _ _ (seesOpen_of_isOpen member isOpen notResolved)]
  exact or_iff_right List.not_mem_nil

theorem rowCloses_iff (areRules : AreRules configuration) (knowsOpen : KnowsOpen database state)
    (eventid : Nat) :
    (∃ row, (∃ found ∈ configuration.correlations, ∃ problem ∈ database.problems,
        isOpen problem = true ∧
          Selects configuration database event (corrOldOf configuration database event state)
            found problem ∧ rowOf found problem = row) ∧
        RowCloses (corrOldOf configuration database event state) eventid row) ↔
      ∃ problem ∈ database.problems, isOpen problem = true ∧ problem.eventid = eventid ∧
        IsSelected configuration database event problem := by
  have isSorted := configuration.isSorted.sublist
    (@corrOldOf_sublist configuration database event state)
  constructor
  · rintro ⟨row, ⟨found, -, problem, member, open', ⟨rule, isOld, isRule, ruleHolds⟩, rfl⟩,
      found', problem', same, isEvent, rule', isOld', isRule', closesOld⟩
    simp only [rowOf, List.cons.injEq, Sql.Value.number.injEq, and_true] at same
    have sameRule := correlationid_inj isSorted isOld isOld'
      (isRule.symm.trans (same.2.2.trans isRule'.symm))
    subst sameRule
    obtain ⟨isIn, checksOld⟩ := (mem_corrOldOf knowsOpen member open').mp isOld
    have notDiscarded := (checksOld_of_closesOld closesOld).mp checksOld
    exact ⟨problem, member, open', same.1.trans isEvent, rule, isIn, closesOld,
      (matches_iff_nesting (areRules rule isIn) ruleHolds).mp notDiscarded, ruleHolds⟩
  · rintro ⟨problem, member, open', isEvent, rule, isIn, closesOld, shallow, ruleHolds⟩
    have notDiscarded := (matches_iff_nesting (areRules rule isIn) ruleHolds).mpr shallow
    have isOld := (mem_corrOldOf knowsOpen member open').mpr
      ⟨isIn, (checksOld_of_closesOld closesOld).mpr notDiscarded⟩
    exact ⟨_, ⟨rule, isIn, problem, member, open', ⟨rule, isOld, rfl, ruleHolds⟩, rfl⟩,
      rule, problem, rfl, isEvent, rule, isOld, rfl, closesOld⟩

theorem isQueued_correlateEventByGlobalRules (areRules : AreRules configuration)
    (knowsOpen : KnowsOpen database state) (eventid : Nat) :
    IsQueued (correlateEventByGlobalRules backend configuration database event order state)
        eventid ↔
      IsQueued state eventid ∨ ∃ problem ∈ database.problems, isOpen problem = true ∧
        problem.eventid = eventid ∧
          IsSelected configuration database event problem := by
  rw [← rowCloses_iff areRules knowsOpen, correlateEventByGlobalRules]
  change IsQueued (executeOld backend configuration database event order
    (corrOldOf configuration database event state) _) eventid ↔ _
  have sameQueue (corrNew : List Correlation) (problemState : ProblemState) :
      IsQueued (executeNew event corrNew { state with problemState }) eventid ↔
        IsQueued state eventid := by
    rw [IsQueued, correlationCache_executeNew, IsQueued]
  rw [executeOld]
  split_ifs with isEmpty
  · rw [sameQueue, isEmpty]
    refine (or_iff_left ?_).symm
    rintro ⟨row, ⟨found, -, problem, -, -, ⟨rule, isOld, -⟩, -⟩, -⟩
    cases isOld
  · have areOld : ∀ rule ∈ corrOldOf configuration database event state,
        IsRule configuration rule := fun rule isOld =>
      areRules rule (corrOldOf_sublist.subset isOld)
    obtain ⟨rows, isQuery, areRows⟩ := @query_problemQuery backend _ database event _ isEmpty areOld
    rw [isQuery]
    have mem_arrange (row : List Sql.Value) : row ∈ order.arrange rows ↔ row ∈ rows :=
      (order.isPerm rows).mem_iff
    have isSorted := configuration.isSorted.sublist
      (@corrOldOf_sublist configuration database event state)
    simp only
    rw [isQueued_processRows isSorted, sameQueue]
    · simp only [mem_arrange, areRows]
    · intro row isRow
      obtain ⟨found, -, problem, -, -, -, rfl⟩ := (areRows row).mp ((mem_arrange row).mp isRow)
      exact ⟨found, problem, rfl⟩

/-! ## Exactness -/

/-- Exactly the open problems that a rule closes are queued, and no rule that is true of one is
discarded for the new event. -/
structure ActsExactly (backend : Backend) (configuration : Configuration) (database : Database)
    (event : Event) (order : RowOrder) (state : State) : Prop where
  closes : ∀ eventid,
    IsQueued (correlateEventByGlobalRules backend configuration database event order state)
        eventid ↔
      IsQueued state eventid ∨ ∃ problem ∈ database.problems, isOpen problem = true ∧
        problem.eventid = eventid ∧ IsClosed configuration database event problem
  keeps : ∀ rule ∈ configuration.correlations, ∀ problem ∈ database.problems,
    isOpen problem = true → RuleHolds configuration database event contains rule problem →
      correlationMatchNewEvent configuration database event rule true ≠ .noMatch

/-- Rules that are true of an open problem are not nested too deep, and it is the same for the
problems that are not queued whether their texts are read as patterns of `like`. -/
structure ReadsLiterally (configuration : Configuration) (database : Database) (event : Event)
    (state : State) : Prop where
  shallow : ∀ rule ∈ configuration.correlations, ∀ problem ∈ database.problems,
    isOpen problem = true → RuleHolds configuration database event contains rule problem →
      IsShallow rule
  literal : ∀ problem ∈ database.problems, isOpen problem = true →
    ¬ IsQueued state problem.eventid →
      (IsSelected configuration database event problem ↔
        IsClosed configuration database event problem)

theorem problem_of_eventid {problem' : Problem} (member : problem ∈ database.problems)
    (member' : problem' ∈ database.problems) (same : problem.eventid = problem'.eventid) :
    problem = problem' :=
  List.inj_on_of_nodup_map database.isKey member member' same

theorem actsExactly_iff (areRules : AreRules configuration)
    (knowsOpen : KnowsOpen database state) :
    ActsExactly backend configuration database event order state ↔
      ReadsLiterally configuration database event state := by
  have isQueued := @isQueued_correlateEventByGlobalRules backend configuration database event order
    state areRules knowsOpen
  constructor
  · rintro ⟨closes, keeps⟩
    refine ⟨fun rule isIn problem member isOpen ruleHolds =>
      (matches_iff_nesting (areRules rule isIn) ruleHolds).mp
        (keeps rule isIn problem member isOpen ruleHolds), ?_⟩
    intro problem member isOpen notQueued
    have same := (isQueued problem.eventid).symm.trans (closes problem.eventid)
    rw [or_iff_right notQueued, or_iff_right notQueued] at same
    constructor
    · intro isSelected
      obtain ⟨problem', member', -, isEvent, isClosed⟩ :=
        same.mp ⟨problem, member, isOpen, rfl, isSelected⟩
      rwa [problem_of_eventid member member' isEvent.symm]
    · intro isClosed
      obtain ⟨problem', member', -, isEvent, isSelected⟩ :=
        same.mpr ⟨problem, member, isOpen, rfl, isClosed⟩
      rwa [problem_of_eventid member member' isEvent.symm]
  · rintro ⟨shallow, literal⟩
    refine ⟨fun eventid => (isQueued eventid).trans ?_, ?_⟩
    · by_cases isThere : IsQueued state eventid
      · exact iff_of_true (Or.inl isThere) (Or.inl isThere)
      · rw [or_iff_right isThere, or_iff_right isThere]
        refine exists_congr fun problem => and_congr_right fun member =>
          and_congr_right fun isOpen => and_congr_right fun isEvent => ?_
        exact literal problem member isOpen (isEvent ▸ isThere)
    · intro rule isIn problem member isOpen ruleHolds
      exact (matches_iff_nesting (areRules rule isIn) ruleHolds).mpr
        (shallow rule isIn problem member isOpen ruleHolds)

/-! ## Plain texts -/

/-- What the condition looks for in old values has no character that is special to `like`. -/
def IsPlainCondition : NewEvent.Condition → Prop
  | .oldEventTagValue _ value .like | .oldEventTagValue _ value .notLike =>
    ∀ c ∈ value, Sql.isPlain c = true
  | _ => True

theorem likeContains_of_plain {part : Text} (arePlain : ∀ c ∈ part, Sql.isPlain c = true)
    (text : Text) : likeContains text part = contains text part := by
  rw [likeContains, likePattern, contains, Bool.eq_iff_iff, Sql.likeMatches_contains arePlain,
    List.any_eq_true]
  simp only [List.mem_tails, List.isPrefixOf_iff_prefix, List.infix_iff_prefix_suffix, and_comm]

theorem holds_of_isPlainCondition {condition : NewEvent.Condition}
    (isPlain : IsPlainCondition condition) (problemTags : List Tag) :
    condition.holds configuration database event likeContains problemTags =
      condition.holds configuration database event contains problemTags := by
  cases condition with
  | oldEventTagValue tag value op =>
    cases op with
    | equal | notEqual => rfl
    | like | notLike => simp only [NewEvent.Condition.holds, likeContains_of_plain isPlain]
  | oldEventTag | newEventTag | newEventHostgroup | eventTagPair | newEventTagValue => rfl

theorem ruleHolds_of_plain (arePlain : ∀ conditionid condition,
      configuration.conditions conditionid = some condition → IsPlainCondition condition) :
    RuleHolds configuration database event likeContains rule problem ↔
      RuleHolds configuration database event contains rule problem := by
  have sameTruth : truthOf configuration database event likeContains
      (tagsOf database problem.eventid) = truthOf configuration database event contains
        (tagsOf database problem.eventid) := by
    funext conditionid
    rw [truthOf, truthOf]
    cases isCondition : configuration.conditions conditionid with
    | none => rfl
    | some condition =>
      exact holds_of_isPlainCondition (arePlain conditionid condition isCondition) _
  rw [RuleHolds, RuleHolds, sameTruth]

theorem readsLiterally_of_plain
    (areShallow : ∀ rule ∈ configuration.correlations, IsShallow rule)
    (arePlain : ∀ conditionid condition,
      configuration.conditions conditionid = some condition → IsPlainCondition condition) :
    ReadsLiterally configuration database event state where
  shallow rule isIn _ _ _ _ := areShallow rule isIn
  literal problem _ _ _ := by
    refine exists_congr fun rule => and_congr_right fun isIn => and_congr_right fun _ => ?_
    rw [ruleHolds_of_plain arePlain]
    exact and_iff_right (areShallow rule isIn)

/-! ## A rule for one condition -/

/-- A rule that closes old problems with a tag whose value contains a text. -/
def closingRule : Correlation where
  correlationid := 1
  formula := "\x7b1\x7d".toList
  operations := [.closeOld]

def closingConfiguration (value : Text) : Configuration where
  correlations := [closingRule]
  conditions conditionid :=
    if conditionid = 1 then some (.oldEventTagValue ['a'] value .like) else none
  nestedHostgroupids groupid := [groupid]
  isSorted := List.pairwise_singleton ..

def openProblem : Problem where
  eventid := 1
  objectid := 1
  source := 0
  rEventid := none
  isNumber := Nat.one_ne_zero

def openDatabase (value : Text) : Database where
  problems := [openProblem]
  problemTags := [{ eventid := 1, tag := ['a'], value }]
  functions := []
  items := []
  hostsGroups := []
  isKey := List.nodup_singleton 1

def laterEvent : Event where
  eventid := 2
  objectid := 1
  clock := 0
  ns := 0
  tags := []

def sameOrder : RowOrder where
  arrange rows := rows
  isPerm _ := .refl _

def startState : State where
  correlationCache := []
  eventRecovery := []
  noAction := false
  problemState := .unknown

theorem isFormula_closingRule : IsFormula (.condition 1) closingRule.formula :=
  ⟨[], [(.condition ['1'], [])], nofun, ⟨nofun, fun _ => Or.inl rfl, trivial⟩,
    .conjunction (.operand (@Formula.Derives.condition ['1'] (by simp) nofun (by decide))), rfl⟩

theorem areRules_closingConfiguration (value : Text) : AreRules (closingConfiguration value) := by
  intro rule isIn
  obtain rfl := List.mem_singleton.mp isIn
  refine Or.inr ⟨_, isFormula_closingRule, fun conditionid member => ?_⟩
  obtain rfl := List.mem_singleton.mp member
  rfl

theorem knowsOpen_startState (database : Database) : KnowsOpen database startState :=
  nofun

theorem ruleHolds_closingRule (value text : Text) :
    RuleHolds (closingConfiguration value) (openDatabase text) laterEvent includes closingRule
      openProblem ↔ includes text value = true := by
  have isTruth : truthOf (closingConfiguration value) (openDatabase text) laterEvent includes
      (tagsOf (openDatabase text) openProblem.eventid) 1 = includes text value := by
    simp [truthOf, closingConfiguration, openDatabase, openProblem, tagsOf,
      NewEvent.Condition.holds]
  constructor
  · rintro (isEmpty | ⟨tree, isFormula, isTrue⟩)
    · exact absurd isEmpty (formula_ne_nil isFormula_closingRule)
    · rw [isFormula_unique isFormula isFormula_closingRule] at isTrue
      exact isTruth.symm.trans isTrue
  · exact fun isTrue => Or.inr ⟨_, isFormula_closingRule, isTruth.trans isTrue⟩

theorem actsExactly_plain :
    ActsExactly .mysql (closingConfiguration "1x2".toList) (openDatabase "1x2".toList) laterEvent
      sameOrder startState := by
  refine (actsExactly_iff (areRules_closingConfiguration _) (knowsOpen_startState _)).mpr
    (readsLiterally_of_plain ?_ ?_)
  · intro rule isIn
    obtain rfl := List.mem_singleton.mp isIn
    exact Nat.zero_le 31
  · intro conditionid condition isCondition
    simp only [closingConfiguration] at isCondition
    split_ifs at isCondition
    obtain rfl := Option.some.inj isCondition
    simp [IsPlainCondition, Sql.isPlain]

/-- The text `1_2` closes a problem with the value `1x2`. -/
theorem not_actsExactly_wildcard :
    AreRules (closingConfiguration "1_2".toList) ∧ KnowsOpen (openDatabase "1x2".toList) startState ∧
      ¬ ActsExactly .mysql (closingConfiguration "1_2".toList) (openDatabase "1x2".toList)
        laterEvent sameOrder startState := by
  refine ⟨areRules_closingConfiguration _, knowsOpen_startState _, fun actsExactly => ?_⟩
  have isSelected : IsSelected (closingConfiguration "1_2".toList) (openDatabase "1x2".toList)
      laterEvent openProblem :=
    ⟨closingRule, List.mem_singleton.mpr rfl, List.mem_singleton.mpr rfl, Nat.zero_le 31,
      (ruleHolds_closingRule _ _).mpr (by decide)⟩
  have isQueued : IsQueued (correlateEventByGlobalRules .mysql (closingConfiguration "1_2".toList)
      (openDatabase "1x2".toList) laterEvent sameOrder startState) 1 :=
    (isQueued_correlateEventByGlobalRules (areRules_closingConfiguration _)
      (knowsOpen_startState _) 1).mpr
        (Or.inr ⟨openProblem, List.mem_singleton.mpr rfl, rfl, rfl, isSelected⟩)
  obtain isThere | ⟨problem, member, -, -, rule, isIn, -, ruleHolds⟩ :=
    (actsExactly.closes 1).mp isQueued
  · exact absurd isThere Bool.false_ne_true
  · obtain rfl := List.mem_singleton.mp member
    obtain rfl := List.mem_singleton.mp isIn
    exact absurd ((ruleHolds_closingRule _ _).mp ruleHolds) (by decide)

end Zabbix.EventCorrelation.ExactClosing
