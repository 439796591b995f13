import Mathlib.Algebra.Group.Nat.Defs
import Mathlib.Logic.Function.Basic
import Mathlib.Logic.Relation

/-!
# Trigger dependencies

The indexes that order triggers after the triggers they depend on, and the check of the triggers
that others depend on.  A recursion that is given fuel has no result when the fuel runs out, and
neither has one that follows a pointer to a trigger that is not there.
-/

namespace Zabbix.ConfigCache.TriggerDependencies

inductive TriggerStatus
  | enabled
  | disabled
deriving DecidableEq

inductive TriggerValue
  | ok
  | problem
deriving DecidableEq

/-- `ZBX_DC_TRIGGER` without the index, the only field that is written. -/
structure Trigger where
  status : TriggerStatus
  functional : Bool
  value : TriggerValue

/-- The triggers and the dependency lists.  Every list that another one points to is there. -/
structure Config where
  triggers : Nat → Option Trigger
  trigdeps : Nat → Option (List Nat)
  closed : ∀ triggerid dependencies, trigdeps triggerid = some dependencies →
    ∀ next ∈ dependencies, (trigdeps next).isSome

variable (config : Config)

def Config.dependencies (triggerid : Nat) : List Nat :=
  (config.trigdeps triggerid).getD []

/-! ## Topology -/

/-- The field `topoindex` of each trigger. -/
abbrev Topoindexes := Nat → Nat

/-- An index is raised above another one, as an `unsigned char`. -/
def raiseIndex (topoindex nextTopoindex : Nat) : Nat :=
  if topoindex < nextTopoindex + 1 then (nextTopoindex + 1) % 2 ^ 8 else topoindex

def sortLoop (sortRec : Nat → Topoindexes → Option (Nat × Topoindexes)) :
    List Nat → Nat → Topoindexes → Option (Nat × Topoindexes)
  | [], topoindex, topoindexes => some (topoindex, topoindexes)
  | next :: dependencies, topoindex, topoindexes =>
    if (config.triggers next).isNone then none
    else if 1 < topoindexes next then
      sortLoop sortRec dependencies (raiseIndex topoindex (topoindexes next)) topoindexes
    else if config.dependencies next = [] then
      sortLoop sortRec dependencies topoindex topoindexes
    else
      (sortRec next topoindexes).bind fun (nextTopoindex, topoindexes) =>
        sortLoop sortRec dependencies (raiseIndex topoindex nextTopoindex) topoindexes

def sortTriggersTopologicallyRec : Nat → Nat → Nat → Topoindexes → Option (Nat × Topoindexes)
  | 0, _, _, _ => none
  | fuel + 1, triggerid, level, topoindexes =>
    -- the recursive trigger dependency is too deep
    if 32 < level then some (2, topoindexes)
    else if (config.triggers triggerid).isNone then none
    -- the trigger dependencies contain a cycle
    else if topoindexes triggerid = 0 then some (2, topoindexes)
    else
      (sortLoop config
        (fun next topoindexes => sortTriggersTopologicallyRec fuel next (level + 1) topoindexes)
        (config.dependencies triggerid) 2 (Function.update topoindexes triggerid 0)).map
        fun (topoindex, topoindexes) =>
          (topoindex, Function.update topoindexes triggerid topoindex)

/-- The loop over the dependency lists in the order of the hash set. -/
def sortTriggersTopologically (fuel : Nat) (trigdeps : List Nat) (topoindexes : Topoindexes) :
    Option Topoindexes :=
  trigdeps.foldlM
    (fun topoindexes triggerid =>
      if (config.triggers triggerid).isNone ∨ 1 < topoindexes triggerid ∨
          config.dependencies triggerid = [] then
        some topoindexes
      else (sortTriggersTopologicallyRec config fuel triggerid 0 topoindexes).map (·.2))
    topoindexes

def triggerUpdateTopology (fuel : Nat) (trigdeps : List Nat) : Option Topoindexes :=
  sortTriggersTopologically config fuel trigdeps fun _ => 1

/-! ## Checks -/

def triggerDependencyLevelsMax : Nat := 32

/-- The sorted identifiers of the triggers that are processed. -/
structure TriggerIds where
  values : List Nat
  sorted : values.Pairwise (· ≤ ·)

/-- `zbx_vector_uint64_bsearch`, which finds what a sorted vector has. -/
def TriggerIds.bsearch (triggerids : TriggerIds) (triggerid : Nat) : Bool :=
  triggerids.values.contains triggerid

/-- The check of one trigger that another one depends on: the check fails, or goes on with the
triggers that are to be processed before. -/
def checkMaster (triggerids : TriggerIds) (next : Nat) (masterids : List Nat) : Bool × List Nat :=
  match config.triggers next with
  | none => (true, masterids)
  | some trigger =>
    if trigger.status = .enabled ∧ trigger.functional then
      if triggerids.bsearch next then (true, masterids ++ [next])
      else (decide (trigger.value ≠ .problem), masterids)
    else (true, masterids)

/-- The loop over the dependencies, which ends when a check fails. -/
def checkLoop (checkRec : Nat → List Nat → Option (Bool × List Nat)) (triggerids : TriggerIds) :
    List Nat → List Nat → Option (Bool × List Nat)
  | [], masterids => some (true, masterids)
  | next :: dependencies, masterids =>
    match checkMaster config triggerids next masterids with
    | (false, masterids) => some (false, masterids)
    | (true, masterids) =>
      (checkRec next masterids).bind fun
        | (false, masterids) => some (false, masterids)
        | (true, masterids) => checkLoop checkRec triggerids dependencies masterids

def checkTriggerDependenciesRec (triggerids : TriggerIds) :
    Nat → Nat → Nat → List Nat → Option (Bool × List Nat)
  | 0, _, _, _ => none
  | fuel + 1, triggerid, level, masterids =>
    if triggerDependencyLevelsMax < level then some (true, masterids)
    else
      checkLoop config
        (fun next masterids => checkTriggerDependenciesRec triggerids fuel next (level + 1) masterids)
        triggerids (config.dependencies triggerid) masterids

inductive DependencyStatus
  | unresolved
  | fail
deriving DecidableEq

/-- `zbx_trigger_dep_t` -/
structure TriggerDep where
  triggerid : Nat
  status : DependencyStatus
  masterids : List Nat
deriving DecidableEq

/-- What is reported about one trigger. -/
def triggerDep (triggerid : Nat) (ret : Bool) (masterids : List Nat) : List TriggerDep :=
  if ret = false ∨ masterids ≠ [] then
    [if ret then { triggerid, status := .unresolved, masterids }
      else { triggerid, status := .fail, masterids := [] }]
  else []

def getTriggerDependencies (fuel : Nat) (triggerids : TriggerIds) : Option (List TriggerDep) :=
  triggerids.values.foldlM
    (fun deps triggerid =>
      if (config.trigdeps triggerid).isNone then some deps
      else
        (checkTriggerDependenciesRec config triggerids fuel triggerid 0 []).map
          fun (ret, masterids) => deps ++ triggerDep triggerid ret masterids)
    []

end Zabbix.ConfigCache.TriggerDependencies
