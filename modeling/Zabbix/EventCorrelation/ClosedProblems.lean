import Zabbix.EventCorrelation.GlobalRules

/-!
# The problems that are closed

The rows of the query are the open problems with the rules that are true of them.  Their order is
of no matter to what is queued.
-/

namespace Zabbix.EventCorrelation.ClosedProblems

open Common.Text List
open Formula
open NewEvent
open Verdicts
open StringConditions
open EventCorrelation.Filter
open Selection
open GlobalRules
open Library
open Library.Sql hiding Condition
open Library.SqlGrammar hiding Derives
open Library.SqlMeaning
open Library.SqlText (lexFrom lexFrom_append)

variable {backend : Backend} {configuration : Configuration} {database : Database} {event : Event}
  {corrOld : List Correlation} {problem : Problem} {eventid : Nat} {state : State}

/-! ## The rows of the query -/

/-- A rule of the list is true of the problem, as the query reads conditions. -/
def Selects (configuration : Configuration) (database : Database) (event : Event)
    (rules : List Correlation) (found : Correlation) (problem : Problem) : Prop :=
  ∃ rule ∈ rules, found.correlationid = rule.correlationid ∧
    RuleHolds configuration database event likeContains rule problem

theorem selects_cons {rule : Correlation} {later : List Correlation} {found : Correlation} :
    Selects configuration database event (rule :: later) found problem ↔
      (found.correlationid = rule.correlationid ∧
        RuleHolds configuration database event likeContains rule problem) ∨
          Selects configuration database event later found problem :=
  exists_mem_cons_iff ..

theorem denotes_addRules {text : Text} {meaning : Scope → Bool}
    (areRules : ∀ rule ∈ corrOld, IsRule configuration rule)
    (denotes : Denotes backend.escapes (tables configuration database) .disjunction text meaning) :
    ∃ meaning', Denotes backend.escapes (tables configuration database) .disjunction
        (corrOld.foldl (addRule backend configuration database event)
          (text, " or ".toList)).1 meaning' ∧
      ∀ found problem, meaning' (scopeOf found problem) = true ↔
        meaning (scopeOf found problem) = true ∨
          Selects configuration database event corrOld found problem := by
  induction corrOld generalizing text meaning with
  | nil =>
    refine ⟨meaning, denotes, fun found problem => (or_iff_left ?_).symm⟩
    rintro ⟨rule, member, -⟩
    cases member
  | cons rule later ih =>
    obtain ⟨isRule, areLater⟩ := forall_mem_cons.mp areRules
    obtain ⟨ofRule, ruleDenotes, ruleHolds⟩ :=
      denotes_correlationAddEventFilter backend database event isRule
    obtain ⟨meaning', isText, holds⟩ := ih areLater (denotes.or ruleDenotes)
    refine ⟨meaning', isText, fun found problem => (holds found problem).trans ?_⟩
    rw [Bool.or_eq_true, ruleHolds, or_assoc, selects_cons]

theorem denotes_rules (nonempty : corrOld ≠ [])
    (areRules : ∀ rule ∈ corrOld, IsRule configuration rule) :
    ∃ meaning, Denotes backend.escapes (tables configuration database) .disjunction
        (corrOld.foldl (addRule backend configuration database event) ([], [])).1 meaning ∧
      ∀ found problem, meaning (scopeOf found problem) = true ↔
        Selects configuration database event corrOld found problem := by
  obtain ⟨rule, later, rfl⟩ := exists_cons_of_ne_nil nonempty
  obtain ⟨isRule, areLater⟩ := forall_mem_cons.mp areRules
  obtain ⟨ofRule, ruleDenotes, ruleHolds⟩ :=
    denotes_correlationAddEventFilter backend database event isRule
  obtain ⟨meaning, isText, holds⟩ := denotes_addRules areLater ruleDenotes.disjunction
  refine ⟨meaning, isText, fun found problem => (holds found problem).trans ?_⟩
  rw [ruleHolds, selects_cons]

theorem denotes_rEventid (escapes : Bool) (tables : Tables) :
    Denotes escapes tables .operand "p.r_eventid is null".toList fun scope =>
      decide (Sql.column scope "p.r_eventid".toList = .null) :=
  denotes_of ⟨[.name "p.r_eventid".toList, .keyword .isWord], .word "null".toList, rfl, rfl, rfl⟩
    (@SqlGrammar.Derives.isNull (.name "p.r_eventid".toList) (.column "p.r_eventid".toList) rfl)

theorem denotes_source (escapes : Bool) (tables : Tables) :
    Denotes escapes tables .operand "p.source=0".toList fun scope =>
      same (Sql.column scope "p.source".toList) (.number 0) :=
  denotes_of ⟨[.name "p.source".toList, .equals], .word ['0'], rfl, rfl, rfl⟩
    (@SqlGrammar.Derives.equals (.name "p.source".toList) (.number 0)
      (.column "p.source".toList) (.number 0) rfl rfl)

def rowOf (found : Correlation) (problem : Problem) : List Value :=
  [.number problem.eventid, .number problem.objectid, .number found.correlationid]

/-- What is selected from the rules and the problems, and the columns of it. -/
def sources : List (Text × Text) :=
  [("correlation".toList, "c".toList), ("problem".toList, "p".toList)]

def columns : List Text :=
  ["p.eventid".toList, "p.objectid".toList, "c.correlationid".toList]

theorem mem_scopes {scope : Scope} :
    scope ∈ scopes (tables configuration database) sources ↔
      ∃ found ∈ configuration.correlations, ∃ problem ∈ database.problems,
        scope = scopeOf found problem := by
  have isCorrelation : tables configuration database "correlation".toList =
      configuration.correlations.map correlationRow := rfl
  have isProblem : tables configuration database "problem".toList =
      database.problems.map problemRow := rfl
  simp only [sources, scopes, isCorrelation, isProblem, mem_flatMap, List.mem_map, mem_singleton]
  constructor
  · rintro ⟨_, ⟨found, isFound, rfl⟩, _, ⟨_, ⟨problem, isIn, rfl⟩, _, rfl, rfl⟩, rfl⟩
    exact ⟨found, isFound, problem, isIn, rfl⟩
  · rintro ⟨found, isFound, problem, isIn, rfl⟩
    exact ⟨_, ⟨found, isFound, rfl⟩, _, ⟨_, ⟨problem, isIn, rfl⟩, _, rfl, rfl⟩, rfl⟩

theorem isOpen_columns (found : Correlation) (problem : Problem) :
    (decide (Sql.column (scopeOf found problem) "p.r_eventid".toList = .null) &&
      same (Sql.column (scopeOf found problem) "p.source".toList) (.number 0)) =
        isOpen problem := by
  have isSource : Sql.column (scopeOf found problem) "p.source".toList =
      .number problem.source := rfl
  have isRecovery : Sql.column (scopeOf found problem) "p.r_eventid".toList =
      problem.rEventid.elim .null .number := by
    obtain ⟨_, _, _, _ | _⟩ := problem <;> rfl
  rw [isSource, isRecovery, same_number, isOpen, eventSourceTriggers]
  cases problem.rEventid <;> simp [eq_comm]

theorem query_problemQuery (nonempty : corrOld ≠ [])
    (areRules : ∀ rule ∈ corrOld, IsRule configuration rule) :
    ∃ rows, query backend.escapes (tables configuration database)
        (problemQuery backend configuration database event corrOld) = some rows ∧
      ∀ row, row ∈ rows ↔ ∃ found ∈ configuration.correlations, ∃ problem ∈ database.problems,
        isOpen problem = true ∧ Selects configuration database event corrOld found problem ∧
          rowOf found problem = row := by
  obtain ⟨meaning, denotes, holds⟩ := denotes_rules nonempty areRules
  have isSelect : lexFrom backend.escapes .between
      "select p.eventid,p.objectid,c.correlationid ".toList = some ([.keyword .selectWord, .name "p.eventid".toList, .comma, .name "p.objectid".toList,
        .comma, .name "c.correlationid".toList], .between) := rfl
  have isFrom : lexFrom backend.escapes .between "from correlation c,problem p where ".toList =
      some ([.keyword .fromWord, .name "correlation".toList, .name "c".toList, .comma,
        .name "problem".toList, .name "p".toList, .keyword .whereWord], .between) := rfl
  have isWhole := ((denotes_rEventid backend.escapes (tables configuration database)).conjunction.and
    (denotes_source backend.escapes (tables configuration database))).and denotes.group
  have isQuery := @query_of_denotes _ _ _ _ _ columns sources _ (lexFrom_append isSelect isFrom)
    (fun _ => rfl) isWhole.disjunction
  refine ⟨_, isQuery, fun row => ?_⟩
  rw [List.mem_map]
  constructor
  · rintro ⟨scope, isIn, rfl⟩
    obtain ⟨isScope, isTrue⟩ := mem_filter.mp isIn
    obtain ⟨found, isFound, problem, isProblem, rfl⟩ := mem_scopes.mp isScope
    rw [isOpen_columns, Bool.and_eq_true, holds] at isTrue
    exact ⟨found, isFound, problem, isProblem, isTrue.1, isTrue.2, rfl⟩
  · rintro ⟨found, isFound, problem, isProblem, open', selects, rfl⟩
    refine ⟨scopeOf found problem, mem_filter.mpr ⟨mem_scopes.mpr
      ⟨found, isFound, problem, isProblem, rfl⟩, ?_⟩, rfl⟩
    rw [isOpen_columns, Bool.and_eq_true, holds]
    exact ⟨open', selects⟩

/-! ## What is queued -/

/-- The old event is queued to be closed. -/
def IsQueued (state : State) (eventid : Nat) : Prop :=
  hasRecovery state.correlationCache eventid = true

def ClosesOld (rule : Correlation) : Prop :=
  .closeOld ∈ rule.operations

instance (rule : Correlation) : Decidable (ClosesOld rule) :=
  inferInstanceAs (Decidable (_ ∈ _))

theorem hasRecovery_insertRecovery (set : List EventRecovery) (recovery : EventRecovery)
    (eventid : Nat) :
    hasRecovery (insertRecovery set recovery) eventid = true ↔
      hasRecovery set eventid = true ∨ recovery.eventid = eventid := by
  rw [insertRecovery]
  split_ifs with isThere
  · refine (or_iff_left_of_imp ?_).symm
    rintro rfl
    exact isThere
  · rw [hasRecovery, any_cons, Bool.or_eq_true, decide_eq_true_eq, or_comm]
    rfl

variable {rule : Correlation} {oldEventid oldObjectid : Nat}

theorem isQueued_executeOperation (notZero : oldEventid ≠ 0) (operation : Operation) :
    IsQueued (executeOperation rule event oldEventid oldObjectid state operation) eventid ↔
      IsQueued state eventid ∨ (operation = .closeOld ∧ oldEventid = eventid) := by
  cases operation with
  | closeOld =>
    rw [executeOperation, if_neg notZero, IsQueued, hasRecovery_insertRecovery]
    simp only [IsQueued, true_and]
  | closeNew =>
    have sameCache : (executeOperation rule event oldEventid oldObjectid state
        .closeNew).correlationCache = state.correlationCache := by
      rw [executeOperation]
      split_ifs <;> rfl
    simp [IsQueued, sameCache]

theorem isQueued_foldl_executeOperation (notZero : oldEventid ≠ 0) (operations : List Operation) :
    IsQueued (operations.foldl (executeOperation rule event oldEventid oldObjectid) state) eventid ↔
      IsQueued state eventid ∨ (.closeOld ∈ operations ∧ oldEventid = eventid) := by
  induction operations generalizing state with
  | nil => simp
  | cons operation operations ih =>
    rw [foldl_cons, ih, isQueued_executeOperation notZero, or_assoc, ← or_and_right,
      mem_cons, eq_comm]

theorem isQueued_correlationExecuteOperations (notZero : oldEventid ≠ 0) :
    IsQueued (correlationExecuteOperations rule event oldEventid oldObjectid state) eventid ↔
      IsQueued state eventid ∨ (ClosesOld rule ∧ oldEventid = eventid) :=
  isQueued_foldl_executeOperation notZero rule.operations

/-- Without an old event nothing is queued. -/
theorem correlationCache_correlationExecuteOperations :
    (correlationExecuteOperations rule event 0 0 state).correlationCache =
      state.correlationCache := by
  rw [correlationExecuteOperations]
  generalize rule.operations = operations
  induction operations generalizing state with
  | nil => rfl
  | cons operation operations ih =>
    rw [foldl_cons, ih]
    cases operation with
    | closeOld => rw [executeOperation, if_pos rfl]
    | closeNew =>
      rw [executeOperation]
      split_ifs <;> rfl

theorem correlationCache_executeNew (corrNew : List Correlation) :
    (executeNew event corrNew state).correlationCache = state.correlationCache := by
  rw [executeNew]
  induction corrNew generalizing state with
  | nil => rfl
  | cons rule later ih =>
    rw [foldl_cons, ih, correlationCache_correlationExecuteOperations]

/-! ## Rows in any order -/

def RowCloses (corrOld : List Correlation) (eventid : Nat) (row : List Value) : Prop :=
  ∃ found problem, row = rowOf found problem ∧ problem.eventid = eventid ∧
    ∃ rule ∈ corrOld, rule.correlationid = found.correlationid ∧ ClosesOld rule

variable (isSorted : corrOld.Pairwise fun first second => first.correlationid < second.correlationid)

include isSorted

theorem find?_of_mem (member : rule ∈ corrOld) :
    (corrOld.find? fun found => found.correlationid = rule.correlationid) = some rule := by
  induction corrOld with
  | nil => cases member
  | cons first later ih =>
    obtain ⟨areAbove, laterSorted⟩ := pairwise_cons.mp isSorted
    obtain rfl | isLater := mem_cons.mp member
    · exact find?_cons_of_pos (decide_eq_true rfl)
    · have isOther := Nat.ne_of_lt (areAbove rule isLater)
      rw [find?_cons_of_neg (by simpa using isOther), ih laterSorted isLater]

theorem isQueued_processRow (found : Correlation) (problem : Problem) :
    IsQueued (processRow event corrOld state (rowOf found problem)) eventid ↔
      IsQueued state eventid ∨ RowCloses corrOld eventid (rowOf found problem) := by
  have closes : RowCloses corrOld eventid (rowOf found problem) ↔ problem.eventid = eventid ∧
      ∃ rule ∈ corrOld, rule.correlationid = found.correlationid ∧ ClosesOld rule := by
    constructor
    · rintro ⟨found', problem', same, isEvent, rule, member, isRule, closesOld⟩
      simp only [rowOf, cons.injEq, Value.number.injEq, and_true] at same
      exact ⟨same.1.trans isEvent, rule, member, isRule.trans same.2.2.symm, closesOld⟩
    · exact fun ⟨isEvent, isClosed⟩ => ⟨found, problem, rfl, isEvent, isClosed⟩
  rw [closes, rowOf, processRow]
  split_ifs with isQueued
  · refine (or_iff_left_of_imp ?_).symm
    rintro ⟨rfl, -⟩
    exact isQueued
  · cases isFound : corrOld.find? fun rule => rule.correlationid = found.correlationid with
    | none =>
      refine (or_iff_left ?_).symm
      rintro ⟨-, rule, member, isRule, -⟩
      exact absurd (decide_eq_true isRule) (find?_eq_none.mp isFound rule member)
    | some rule =>
      have member := mem_of_find?_eq_some isFound
      have isRule : rule.correlationid = found.correlationid := by
        simpa using find?_some isFound
      simp only [isQueued_correlationExecuteOperations problem.isNumber]
      refine or_congr_right ⟨fun ⟨closesOld, isEvent⟩ =>
        ⟨isEvent, rule, member, isRule, closesOld⟩, ?_⟩
      rintro ⟨isEvent, rule', member', isRule', closesOld⟩
      rw [← isRule', find?_of_mem isSorted member'] at isFound
      obtain rfl := Option.some.inj isFound
      exact ⟨closesOld, isEvent⟩

theorem isQueued_processRows
    {rows : List (List Value)} (areRows : ∀ row ∈ rows, ∃ found problem, row = rowOf found problem) :
    IsQueued (rows.foldl (processRow event corrOld) state) eventid ↔
      IsQueued state eventid ∨ ∃ row ∈ rows, RowCloses corrOld eventid row := by
  induction rows generalizing state with
  | nil => simp
  | cons row rows ih =>
    obtain ⟨⟨found, problem, rfl⟩, areLater⟩ := forall_mem_cons.mp areRows
    rw [foldl_cons, ih areLater, isQueued_processRow isSorted, or_assoc, exists_mem_cons_iff]

omit isSorted

/-! ## Rules for old events -/

/-- A rule whose old events are looked at, where there are any. -/
def ChecksOld (configuration : Configuration) (database : Database) (event : Event)
    (rule : Correlation) : Prop :=
  match correlationMatchNewEvent configuration database event rule true with
  | .noMatch => False
  | .isMatch => correlationHasOldEventOperation rule = true
  | .mayMatch => True

theorem checksOld_of_closesOld (closesOld : ClosesOld rule) :
    ChecksOld configuration database event rule ↔
      correlationMatchNewEvent configuration database event rule true ≠ .noMatch := by
  have hasOperation : correlationHasOldEventOperation rule = true :=
    List.any_eq_true.mpr ⟨_, closesOld, by decide⟩
  rw [ChecksOld]
  cases correlationMatchNewEvent configuration database event rule true <;> simp [hasOperation]

theorem corrOld_addOld (scopes : Scopes) (rule : Correlation) :
    (addOld configuration database event scopes rule).corrOld =
      if queriedState database scopes.problemState = .resolved then scopes.corrOld
      else scopes.corrOld ++ [rule] := by
  simp only [addOld]
  split_ifs <;> rfl

theorem problemState_addOld (scopes : Scopes) (rule : Correlation) :
    (addOld configuration database event scopes rule).problemState =
      queriedState database scopes.problemState := by
  simp only [addOld]
  split_ifs <;> rfl

theorem sublist_corrOld (rules : List Correlation) (scopes : Scopes) :
    ∃ added, added.Sublist rules ∧
      (rules.foldl (sortRule configuration database event) scopes).corrOld =
        scopes.corrOld ++ added := by
  induction rules generalizing scopes with
  | nil => exact ⟨[], .slnil, (append_nil _).symm⟩
  | cons rule later ih =>
    have ofRule : (sortRule configuration database event scopes rule).corrOld = scopes.corrOld ∨
        (sortRule configuration database event scopes rule).corrOld =
          scopes.corrOld ++ [rule] := by
      unfold sortRule
      split
      · exact Or.inl rfl
      · split_ifs
        · rw [corrOld_addOld]
          split_ifs <;> simp
        · exact Or.inl rfl
      · rw [corrOld_addOld]
        split_ifs <;> simp
    obtain ⟨added, isSublist, isAdded⟩ :=
      ih (sortRule configuration database event scopes rule)
    rw [foldl_cons, isAdded]
    obtain same | same := ofRule
    · exact ⟨added, isSublist.cons rule, by rw [same]⟩
    · exact ⟨rule :: added, isSublist.cons_cons rule, by rw [same, append_assoc]; rfl⟩

/-- There is an open problem that is not taken for resolved. -/
def SeesOpen (database : Database) (problemState : ProblemState) : Prop :=
  queriedState database problemState ≠ .resolved

theorem seesOpen_of_isOpen {problemState : ProblemState} (member : problem ∈ database.problems)
    (isOpen : GlobalRules.isOpen problem = true)
    (notResolved : problemState ≠ .resolved) : SeesOpen database problemState := by
  have anyOpen : database.problems.any GlobalRules.isOpen = true :=
    List.any_eq_true.mpr ⟨problem, member, isOpen⟩
  cases problemState with
  | unknown => simp [SeesOpen, queriedState, anyOpen]
  | resolved => exact absurd rfl notResolved
  | isOpen => simp [SeesOpen, queriedState]

theorem seesOpen_queriedState {problemState : ProblemState}
    (seesOpen : SeesOpen database problemState) :
    SeesOpen database (queriedState database problemState) := by
  have unchanged : queriedState database (queriedState database problemState) =
      queriedState database problemState := by
    cases problemState with
    | unknown =>
      rw [queriedState]
      split_ifs <;> rfl
    | resolved | isOpen => rfl
  rwa [SeesOpen, unchanged]

theorem mem_corrOld (rules : List Correlation) (scopes : Scopes)
    (seesOpen : SeesOpen database scopes.problemState) :
    rule ∈ (rules.foldl (sortRule configuration database event) scopes).corrOld ↔
      rule ∈ scopes.corrOld ∨
        (rule ∈ rules ∧ ChecksOld configuration database event rule) := by
  induction rules generalizing scopes with
  | nil => simp
  | cons first later ih =>
    have ofRule : SeesOpen database
          (sortRule configuration database event scopes first).problemState ∧
        (rule ∈ (sortRule configuration database event scopes first).corrOld ↔
          rule ∈ scopes.corrOld ∨
            (rule = first ∧ ChecksOld configuration database event first)) := by
      have ofAdded : SeesOpen database
            (addOld configuration database event scopes first).problemState ∧
          (rule ∈ (addOld configuration database event scopes first).corrOld ↔
            rule ∈ scopes.corrOld ∨ rule = first) := by
        rw [problemState_addOld, corrOld_addOld, if_neg seesOpen, mem_append, mem_singleton]
        exact ⟨seesOpen_queriedState seesOpen, Iff.rfl⟩
      unfold sortRule ChecksOld
      cases correlationMatchNewEvent configuration database event first true with
      | noMatch => simpa using seesOpen
      | mayMatch => simpa using ofAdded
      | isMatch =>
        by_cases hasOperation : correlationHasOldEventOperation first = true
        · simpa [hasOperation] using ofAdded
        · simpa [hasOperation] using seesOpen
    rw [foldl_cons, ih _ ofRule.1, ofRule.2, or_assoc, mem_cons, or_and_right]
    refine or_congr_right (or_congr_left (and_congr_right ?_))
    rintro rfl
    exact Iff.rfl

end Zabbix.EventCorrelation.ClosedProblems
