import Zabbix.EventCorrelation.Selection

/-!
# Global correlation

A new event is put to all rules.  Rules that match it and have nothing to do with old events are
executed at once, and the others for the problems that a query selects.
-/

namespace Zabbix.EventCorrelation.GlobalRules

open Common.Text
open Formula
open NewEvent
open Verdicts
open StringConditions
open EventCorrelation.Filter
open Selection
open Library
open Library.Sql hiding Condition
open Library.SqlGrammar hiding Derives
open Library.SqlMeaning
open Library.SqlText (lexFrom)

/-! ## The state of correlation -/

/-- `zbx_event_recovery_t` -/
structure EventRecovery where
  eventid : Nat
  objectid : Nat
  correlationid : Nat
  cEventid : Nat
  clock : Nat
  ns : Nat

/-- `zbx_problem_state_t` -/
inductive ProblemState where
  | unknown
  | resolved
  | isOpen
deriving DecidableEq

/-- The queue of old events to close, the events that are recovered, `ZBX_FLAGS_DB_EVENT_NO_ACTION`
of the new event, and what is known of the problem table. -/
structure State where
  correlationCache : List EventRecovery
  eventRecovery : List EventRecovery
  noAction : Bool
  problemState : ProblemState

/-- `zbx_hashset_search`, by the event. -/
def hasRecovery (set : List EventRecovery) (eventid : Nat) : Bool :=
  set.any fun recovery => recovery.eventid = eventid

/-- `zbx_hashset_insert`, which keeps what is there. -/
def insertRecovery (set : List EventRecovery) (recovery : EventRecovery) : List EventRecovery :=
  if hasRecovery set recovery.eventid then set else recovery :: set

/-! ## Operations -/

def correlationHasOldEventOperation (correlation : Correlation) : Bool :=
  correlation.operations.any fun operation => operation = .closeOld

/-- One turn of the loop over the operations. -/
def executeOperation (correlation : Correlation) (event : Event) (oldEventid oldObjectid : Nat)
    (state : State) : Operation → State
  | .closeNew =>
    if hasRecovery state.eventRecovery event.eventid then state
    else
      { state with
        eventRecovery := insertRecovery state.eventRecovery
          { eventid := event.eventid, objectid := event.objectid,
            correlationid := correlation.correlationid, cEventid := event.eventid,
            clock := event.clock, ns := event.ns }
        noAction := true }
  | .closeOld =>
    if oldEventid = 0 then state
    else
      { state with
        correlationCache := insertRecovery state.correlationCache
          { eventid := oldEventid, objectid := oldObjectid,
            correlationid := correlation.correlationid, cEventid := event.eventid,
            clock := event.clock, ns := event.ns } }

def correlationExecuteOperations (correlation : Correlation) (event : Event)
    (oldEventid oldObjectid : Nat) (state : State) : State :=
  correlation.operations.foldl (executeOperation correlation event oldEventid oldObjectid) state

/-! ## The query for problems -/

section

variable (backend : Backend) (configuration : Configuration) (database : Database) (event : Event)

/-- One turn of the loop over the rules, with the delimiter before the next. -/
def addRule (state : Text × Text) (correlation : Correlation) : Text × Text :=
  (state.1 ++ (state.2 ++
    correlationAddEventFilter backend configuration database event correlation), " or ".toList)

def problemQuery (corrOld : List Correlation) : Text :=
  "select p.eventid,p.objectid,c.correlationid from correlation c,problem p where ".toList ++
    (("p.r_eventid is null".toList ++ (" and ".toList ++ "p.source=0".toList)) ++
      (" and ".toList ++ '(' ::
        ((corrOld.foldl (addRule backend configuration database event) ([], [])).1 ++ [')'])))

/-! ## Rules for an event -/

def eventSourceTriggers : Nat := 0

/-- A problem of a trigger that is not resolved. -/
def isOpen (problem : Problem) : Bool :=
  problem.rEventid.isNone && problem.source = eventSourceTriggers

/-- What is known of the problem table when it is needed. -/
def queriedState : ProblemState → ProblemState
  | .unknown => if database.problems.any isOpen then .isOpen else .resolved
  | state => state

/-- The state of the problem table, and the rules for old and for new events. -/
structure Scopes where
  problemState : ProblemState
  corrOld : List Correlation
  corrNew : List Correlation

/-- A rule that is executed for old events, unless there are none. -/
def addOld (scopes : Scopes) (correlation : Correlation) : Scopes :=
  let problemState := queriedState database scopes.problemState
  if problemState = .resolved then
    if correlationMatchNewEvent configuration database event correlation false = .isMatch then
      { scopes with problemState, corrNew := scopes.corrNew ++ [correlation] }
    else { scopes with problemState }
  else { scopes with problemState, corrOld := scopes.corrOld ++ [correlation] }

/-- One turn of the first loop. -/
def sortRule (scopes : Scopes) (correlation : Correlation) : Scopes :=
  match correlationMatchNewEvent configuration database event correlation true with
  | .noMatch => scopes
  | .isMatch =>
    if correlationHasOldEventOperation correlation then
      addOld configuration database event scopes correlation
    else { scopes with corrNew := scopes.corrNew ++ [correlation] }
  | .mayMatch => addOld configuration database event scopes correlation

/-- A row of the query; `zbx_vector_ptr_bsearch` finds what the sorted vector has. -/
def processRow (corrOld : List Correlation) (state : State) : List Value → State
  | [.number eventid, .number objectid, .number correlationid] =>
    if hasRecovery state.correlationCache eventid then state
    else
      match corrOld.find? fun correlation => correlation.correlationid = correlationid with
      | none => state
      | some correlation =>
        correlationExecuteOperations correlation event eventid objectid state
  | _ => state

structure RowOrder where
  arrange : List (List Value) → List (List Value)
  isPerm : ∀ rows, (arrange rows).Perm rows

/-- The first loop. -/
def sortRules (problemState : ProblemState) : Scopes :=
  configuration.correlations.foldl (sortRule configuration database event)
    { problemState, corrOld := [], corrNew := [] }

/-- The rules that have nothing to do with old events. -/
def executeNew (corrNew : List Correlation) (state : State) : State :=
  corrNew.foldl (fun state correlation => correlationExecuteOperations correlation event 0 0 state)
    state

/-- The rules for old events, with the problems that are selected. -/
def executeOld (order : RowOrder) (corrOld : List Correlation) (state : State) : State :=
  if corrOld = [] then state
  else
    match query backend.escapes (tables configuration database)
      (problemQuery backend configuration database event corrOld) with
    | none => state
    | some rows => (order.arrange rows).foldl (processRow event corrOld) state

def correlateEventByGlobalRules (order : RowOrder) (state : State) : State :=
  let scopes := sortRules configuration database event state.problemState
  executeOld backend configuration database event order scopes.corrOld
    (executeNew event scopes.corrNew { state with problemState := scopes.problemState })

end

end Zabbix.EventCorrelation.GlobalRules
