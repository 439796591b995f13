import Zabbix.EventCorrelation.StringConditions
import Zabbix.EventCorrelation.Verdicts

/-!
# Filters of problems

The conditions of a rule as conditions of a query on open problems.  Conditions on the new event
are replaced by what they are, and conditions on old events by selects of their tags.
-/

namespace Zabbix.EventCorrelation.Filter

open Common.Text
open Formula
open NewEvent
open StringConditions
open Library
open Library.Sql hiding Condition
open Library.SqlGrammar hiding Derives
open Library.SqlMeaning
open Library.SqlText

/-! ## Texts of filters -/

variable (backend : Backend)

def existsProblemTag (conditions : Text) : Text :=
  "exists (select null from problem_tag pt where ".toList ++
    (("p.eventid=pt.eventid".toList ++ (" and ".toList ++ conditions)) ++ [')'])

/-- The condition on the name of a tag. -/
def tagText (tag : Text) : Text :=
  "pt.tag='".toList ++ (dbDynEscapeString backend tag ++ ['\''])

def correlationConditionAddTagMatch (tag value : Text) (op : Operator) : Text :=
  let valueEsc := dbDynEscapeString backend value
  match op with
  | .equal =>
    existsProblemTag (tagText backend tag ++
      (" and ".toList ++ ("pt.value".toList ++ zbxSqlStrcmp backend valueEsc)))
  | .notEqual =>
    "not ".toList ++ existsProblemTag (tagText backend tag ++
      (" and ".toList ++ ("pt.value".toList ++ zbxSqlStrcmp backend valueEsc)))
  | .like =>
    existsProblemTag (tagText backend tag ++
      (" and ".toList ++ ("pt.value like '%".toList ++ (valueEsc ++ ['%', '\'']))))
  | .notLike =>
    "not ".toList ++ existsProblemTag (tagText backend tag ++
      (" and ".toList ++ ("pt.value like '%".toList ++ (valueEsc ++ ['%', '\'']))))

variable (configuration : Configuration) (database : Database) (event : Event)

def correlationConditionGetEventFilter (condition : Condition) : Text :=
  match condition with
  | .newEventTag _ | .newEventTagValue _ _ _ | .newEventHostgroup _ _ =>
    correlationConditionMatchNewEvent configuration database event true condition ++ "=1".toList
  | .oldEventTag tag => existsProblemTag (tagText backend tag)
  | .eventTagPair oldtag newtag =>
    let values := (event.tags.filter fun tag => tag.tag = newtag).map Tag.value
    if values = [] then "1=0".toList
    else
      existsProblemTag (tagText backend oldtag ++
        (" and".toList ++ dbAddStrCondition backend "pt.value".toList values))
  | .oldEventTagValue tag value op => correlationConditionAddTagMatch backend tag value op

/-- `correlation_add_event_filter`: the text that is added, even where a condition is missing. -/
def correlationAddEventFilter (correlation : Correlation) : Text :=
  let correlationText := "c.correlationid=".toList ++ Nat.toDigits 10 correlation.correlationid
  match replaced (fun conditionid => (configuration.conditions conditionid).map
    (correlationConditionGetEventFilter backend configuration database event))
      correlation.formula with
  | none => correlationText
  | some [] => correlationText
  | some expression => correlationText ++ (" and ".toList ++ '(' :: (expression ++ [')']))

/-! ## The tables of queries -/

def correlationRow (correlation : Correlation) : Row := fun name =>
  if name = "correlationid".toList then .number correlation.correlationid else .null

def problemRow (problem : Problem) : Row := fun name =>
  if name = "eventid".toList then .number problem.eventid
  else if name = "objectid".toList then .number problem.objectid
  else if name = "source".toList then .number problem.source
  else if name = "r_eventid".toList then
    match problem.rEventid with
    | none => .null
    | some eventid => .number eventid
  else .null

def problemTagRow (tag : ProblemTag) : Row := fun name =>
  if name = "eventid".toList then .number tag.eventid
  else if name = "tag".toList then .text tag.tag
  else if name = "value".toList then .text tag.value
  else .null

def tables : Tables := fun name =>
  if name = "correlation".toList then configuration.correlations.map correlationRow
  else if name = "problem".toList then database.problems.map problemRow
  else if name = "problem_tag".toList then database.problemTags.map problemTagRow
  else []

def tagsOf (eventid : Nat) : List Tag :=
  (database.problemTags.filter fun tag => tag.eventid = eventid).map fun tag =>
    { tag := tag.tag, value := tag.value }

def scopeOf (correlation : Correlation) (problem : Problem) : Scope :=
  [("c".toList, correlationRow correlation), ("p".toList, problemRow problem)]

variable {backend} {configuration} {database} {event} {tag value : Text} {meaning : Scope → Bool}

theorem denotes_tagText (backend : Backend) (tables : Tables) (tag : Text) :
    Denotes backend.escapes tables .operand (tagText backend tag) fun scope =>
      same (Sql.column scope "pt.tag".toList) (.text tag) :=
  denotes_literal backend rfl tag

/-! ## Filters on tags -/

theorem denotes_eventid (escapes : Bool) (tables : Tables) :
    Denotes escapes tables .operand "p.eventid=pt.eventid".toList fun scope =>
      same (Sql.column scope "p.eventid".toList) (Sql.column scope "pt.eventid".toList) :=
  denotes_of ⟨[.name "p.eventid".toList, .equals], .word "pt.eventid".toList, rfl, rfl, rfl⟩
    (@SqlGrammar.Derives.equals (.name "p.eventid".toList) (.name "pt.eventid".toList)
      (.column "p.eventid".toList) (.column "pt.eventid".toList) rfl rfl)

def tagScope (row : Row) (scope : Scope) : Scope :=
  ("pt".toList, row) :: scope

theorem denotes_existsProblemTag {escapes : Bool} {tables : Tables} {conditions : Text}
    (denotes : Denotes escapes tables .conjunction
      ("p.eventid=pt.eventid".toList ++ (" and ".toList ++ conditions)) meaning) :
    Denotes escapes tables .operand (existsProblemTag conditions) fun scope =>
      (tables "problem_tag".toList).any fun row => meaning (tagScope row scope) :=
  Denotes.existing rfl denotes.disjunction

theorem denotes_notExistsProblemTag {escapes : Bool} {tables : Tables} {conditions : Text}
    (denotes : Denotes escapes tables .conjunction
      ("p.eventid=pt.eventid".toList ++ (" and ".toList ++ conditions)) meaning) :
    Denotes escapes tables .operand ("not ".toList ++ existsProblemTag conditions) fun scope =>
      !(tables "problem_tag".toList).any fun row => meaning (tagScope row scope) := by
  have isNot : lexFrom escapes .between "not ".toList =
      some ([.keyword .notWord], .between) := rfl
  have isExists : lexFrom escapes .between "exists (select null from problem_tag pt where ".toList =
      some (.keyword .existsWord :: existsTokens "problem_tag".toList "pt".toList, .between) := rfl
  unfold existsProblemTag
  rw [← List.append_assoc]
  exact Denotes.missing (lexFrom_append isNot isExists) denotes.disjunction

theorem denotes_tagConditions {tables : Tables} {condition : Text} (tag : Text)
    (denotes : Denotes backend.escapes tables .operand condition meaning) :
    Denotes backend.escapes tables .conjunction
      ("p.eventid=pt.eventid".toList ++ (" and ".toList ++
        (tagText backend tag ++ (" and ".toList ++ condition)))) fun scope =>
      (same (Sql.column scope "p.eventid".toList) (Sql.column scope "pt.eventid".toList) &&
        same (Sql.column scope "pt.tag".toList) (.text tag)) && meaning scope := by
  have isTag := (denotes_eventid backend.escapes tables).conjunction.and
    (denotes_tagText backend tables tag)
  have isBoth := isTag.and denotes
  rwa [List.append_assoc, List.append_assoc] at isBoth

theorem any_problemTags (problem : Problem) (test : Tag → Bool)
    (hold : Row → Bool) (agree : ∀ tag : ProblemTag, hold (problemTagRow tag) =
      (decide (tag.eventid = problem.eventid) && test { tag := tag.tag, value := tag.value })) :
    (tables configuration database "problem_tag".toList).any hold =
      (tagsOf database problem.eventid).any test := by
  have isTable : tables configuration database "problem_tag".toList =
      database.problemTags.map problemTagRow := rfl
  rw [isTable, tagsOf, List.any_map, List.any_map, List.any_filter]
  exact List.any_congr rfl agree

/-! ## Filters of conditions -/

theorem same_number (first second : Nat) :
    same (.number first) (.number second) = decide (second = first) := by
  simp [same, eq_comm]

theorem same_text (first second : Text) :
    same (.text first) (.text second) = decide (first = second) := by
  simp [same]

variable {found : ProblemTag} {correlation : Correlation} {problem : Problem}

theorem column_eventid :
    same (Sql.column (tagScope (problemTagRow found) (scopeOf correlation problem))
        "p.eventid".toList)
      (Sql.column (tagScope (problemTagRow found) (scopeOf correlation problem))
        "pt.eventid".toList) = decide (found.eventid = problem.eventid) :=
  same_number problem.eventid found.eventid

theorem column_tag :
    Sql.column (tagScope (problemTagRow found) (scopeOf correlation problem)) "pt.tag".toList =
      .text found.tag :=
  rfl

theorem column_value :
    Sql.column (tagScope (problemTagRow found) (scopeOf correlation problem)) "pt.value".toList =
      .text found.value :=
  rfl

/-- What `like` takes for a value that contains a text: the text is a part of a pattern. -/
def likeContains (text part : Text) : Bool :=
  likeMatches (likePattern part) text

/-- The filter of a condition holds for a problem as the condition does, but for what is contained
in a value. -/
def IsFilter (backend : Backend) (configuration : Configuration) (database : Database)
    (event : Event) (condition : Condition) (filter : Text) : Prop :=
  ∃ meaning, Denotes backend.escapes (tables configuration database) .operand filter meaning ∧
    ∀ correlation problem, meaning (scopeOf correlation problem) =
      condition.holds configuration database event likeContains
        (tagsOf database problem.eventid)

theorem denotes_tagFilter (configuration : Configuration) (database : Database)
    {condition : Text} (tag : Text) (test : Text → Bool)
    (denotes : Denotes backend.escapes (tables configuration database) .operand condition meaning)
    (agree : ∀ (found : ProblemTag) correlation problem,
      meaning (tagScope (problemTagRow found) (scopeOf correlation problem)) = test found.value) :
    ∃ inner, Denotes backend.escapes (tables configuration database) .conjunction
        ("p.eventid=pt.eventid".toList ++ (" and ".toList ++
          (tagText backend tag ++ (" and ".toList ++ condition)))) inner ∧
      ∀ correlation problem,
        (tables configuration database "problem_tag".toList).any (fun row =>
          inner (tagScope row (scopeOf correlation problem))) =
        (tagsOf database problem.eventid).any fun found => found.tag = tag && test found.value := by
  refine ⟨_, denotes_tagConditions tag denotes, fun correlation problem => ?_⟩
  refine any_problemTags problem _ _ fun found => ?_
  rw [column_eventid, column_tag, same_text, agree, Bool.and_assoc]

theorem isFilter_oldEventTag (tag : Text) :
    IsFilter backend configuration database event (.oldEventTag tag)
      (existsProblemTag (tagText backend tag)) := by
  have isTag := (denotes_eventid backend.escapes (tables configuration database)).conjunction.and
    (denotes_tagText backend (tables configuration database) tag)
  refine ⟨_, denotes_existsProblemTag isTag, fun correlation problem => ?_⟩
  refine any_problemTags problem _ _ fun found => ?_
  rw [column_eventid, column_tag, same_text]

theorem isFilter_oldEventTagValue (tag value : Text) (op : Operator) :
    IsFilter backend configuration database event (.oldEventTagValue tag value op)
      (correlationConditionAddTagMatch backend tag value op) := by
  obtain ⟨equal, isEqual, equalHolds⟩ := denotes_tagFilter configuration database tag
    (fun found => found = value)
    (denotes_zbxSqlStrcmp backend (tables configuration database) value)
    fun found correlation problem => by rw [column_value, same_text]
  obtain ⟨like, isLike, likeHolds⟩ := denotes_tagFilter configuration database tag
    (fun found => likeContains found value)
    (denotes_like backend (tables configuration database) value) fun _ _ _ => rfl
  cases op with
  | equal =>
    exact ⟨_, denotes_existsProblemTag isEqual, equalHolds⟩
  | notEqual =>
    exact ⟨_, denotes_notExistsProblemTag isEqual, fun correlation problem =>
      congrArg not (equalHolds correlation problem)⟩
  | like =>
    exact ⟨_, denotes_existsProblemTag isLike, likeHolds⟩
  | notLike =>
    exact ⟨_, denotes_notExistsProblemTag isLike, fun correlation problem =>
      congrArg not (likeHolds correlation problem)⟩

theorem any_eventTagPair (oldtag newtag : Text) (problemTags : List Tag) :
    (problemTags.any fun old => old.tag = oldtag &&
        ((event.tags.filter fun tag => tag.tag = newtag).map Tag.value).any (old.value = ·)) =
      (Condition.eventTagPair oldtag newtag).holds configuration database event likeContains
        problemTags := by
  rw [NewEvent.Condition.holds, Bool.eq_iff_iff]
  simp only [List.any_eq_true, Bool.and_eq_true, decide_eq_true_eq, List.mem_map, List.mem_filter]
  constructor
  · rintro ⟨old, isOld, isTag, value, ⟨found, ⟨isFound, isNew⟩, rfl⟩, isValue⟩
    exact ⟨found, isFound, isNew, old, isOld, isTag, isValue⟩
  · rintro ⟨found, isFound, isNew, old, isOld, isTag, isValue⟩
    exact ⟨old, isOld, isTag, _, ⟨found, ⟨isFound, isNew⟩, rfl⟩, isValue⟩

theorem isFilter_eventTagPair (oldtag newtag : Text) :
    IsFilter backend configuration database event (.eventTagPair oldtag newtag)
      (correlationConditionGetEventFilter backend configuration database event
        (.eventTagPair oldtag newtag)) := by
  unfold correlationConditionGetEventFilter
  simp only
  split_ifs with noValues
  · refine ⟨_, denotes_of ⟨[.number 1, .equals], .word ['0'], rfl, rfl, rfl⟩
      (@SqlGrammar.Derives.equals (.number 1) (.number 0) (.number 1) (.number 0) rfl rfl),
      fun correlation problem => ?_⟩
    rw [← any_eventTagPair, noValues]
    change false = _
    rw [eq_comm, List.any_eq_false]
    simp
  · obtain ⟨values, isText, isValues⟩ := denotes_dbAddStrCondition backend
      (tables configuration database) noValues
    obtain ⟨inner, isInner, innerHolds⟩ := denotes_tagFilter configuration database oldtag
      (fun found => ((event.tags.filter fun tag => tag.tag = newtag).map Tag.value).any (found = ·))
      isValues fun found correlation problem => by
        rw [hasValue, column_value]
        exact List.any_congr rfl fun value => same_text found.value value
    have isBlank : " and".toList ++ ' ' :: values = " and ".toList ++ values := rfl
    rw [isText, isBlank]
    exact ⟨_, denotes_existsProblemTag isInner, fun correlation problem =>
      (innerHolds correlation problem).trans (any_eventTagPair oldtag newtag _)⟩

theorem isFilter_known {condition : Condition}
    (isKnown : verdict configuration database event true condition =
      some (condition.holds configuration database event contains []))
    (isNew : ∀ problemTags, condition.holds configuration database event likeContains problemTags =
      condition.holds configuration database event contains []) :
    IsFilter backend configuration database event condition
      (correlationConditionMatchNewEvent configuration database event true condition ++
        "=1".toList) := by
  rw [correlationConditionMatchNewEvent_eq, isKnown]
  cases truth : condition.holds configuration database event contains [] with
  | true =>
    refine ⟨_, denotes_of ⟨[.number 1, .equals], .word ['1'], rfl, rfl, rfl⟩
      (@SqlGrammar.Derives.equals (.number 1) (.number 1) (.number 1) (.number 1) rfl rfl),
      fun correlation problem => ?_⟩
    rw [isNew, truth]
    rfl
  | false =>
    refine ⟨_, denotes_of ⟨[.number 0, .equals], .word ['1'], rfl, rfl, rfl⟩
      (@SqlGrammar.Derives.equals (.number 0) (.number 1) (.number 0) (.number 1) rfl rfl),
      fun correlation problem => ?_⟩
    rw [isNew, truth]
    rfl

theorem isFilter_correlationConditionGetEventFilter (condition : Condition) :
    IsFilter backend configuration database event condition
      (correlationConditionGetEventFilter backend configuration database event condition) := by
  cases condition with
  | oldEventTag tag => exact isFilter_oldEventTag tag
  | oldEventTagValue tag value op => exact isFilter_oldEventTagValue tag value op
  | eventTagPair oldtag newtag => exact isFilter_eventTagPair oldtag newtag
  | newEventTag tag => exact isFilter_known rfl fun _ => rfl
  | newEventTagValue tag value op => exact isFilter_known rfl fun _ => rfl
  | newEventHostgroup groupid op => exact isFilter_known rfl fun _ => rfl

end Zabbix.EventCorrelation.Filter
