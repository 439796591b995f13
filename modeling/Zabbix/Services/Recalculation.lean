import Zabbix.Services.Loading

/-!
# The loaded services as a network

The loaded services are the nodes of a network in which a change of status is passed on to the
parents.  `its_itservice_update_status` visits a node of this network.
-/

namespace Zabbix.Services.Recalculation

open Library.Propagation ItServices ServiceTree Loading List Option

variable {db : Database} {itservices : ZbxItservices} {triggerids : List Nat}
variable {active : Nat → Prop} {serviceid : Nat} {values : Nat → Nat}

/-- The loaded services with other statuses. -/
def withStatuses (itservices : ZbxItservices) (values : Nat → Nat) : ZbxItservices :=
  { itservices with
    itservices := itservices.itservices.map fun itservice =>
      { itservice with status := values itservice.serviceid } }

theorem search_withStatuses (itservices : ZbxItservices) (values : Nat → Nat) (serviceid : Nat) :
    (withStatuses itservices values).search serviceid =
      (itservices.search serviceid).map fun itservice =>
        { itservice with status := values serviceid } := by
  rw [ZbxItservices.search, withStatuses, ZbxItservices.search]
  induction itservices.itservices with
  | nil => rfl
  | cons itservice rest ih =>
    rw [map_cons, find?_cons, find?_cons]
    by_cases same : itservice.serviceid = serviceid
    · rw [decide_eq_true same]
      exact congrArg (fun other => some { itservice with status := values other }) same
    · rw [decide_eq_false same]
      exact ih

theorem status_withStatuses (isLoaded : serviceid ∈ loadedIds itservices) :
    (withStatuses itservices values).status serviceid = values serviceid := by
  obtain ⟨itservice, found⟩ := isSome_iff_exists.mp (isSome_search.mpr isLoaded)
  rw [ZbxItservices.status, search_withStatuses, found]
  rfl

theorem status_of_not_loaded (notLoaded : serviceid ∉ loadedIds itservices) :
    (withStatuses itservices values).status serviceid = 0 := by
  rw [ZbxItservices.status, search_withStatuses, search_eq_none.mpr notLoaded]
  rfl

theorem modify_withStatuses (itservices : ZbxItservices) (values : Nat → Nat)
    (serviceid status : Nat) :
    ((withStatuses itservices values).modify serviceid fun itservice =>
        { itservice with status }) =
      withStatuses itservices (Function.update values serviceid status) := by
  rw [ZbxItservices.modify, withStatuses, withStatuses, List.map_map]
  refine congrArg (fun rows => (⟨rows, itservices.index⟩ : ZbxItservices)) ?_
  refine map_congr_left fun itservice _ => ?_
  rw [Function.comp_apply, Function.update_apply]
  split <;> rfl

/-! ## The network -/

/-- How the loaded services depend on each other. -/
def networkOf (itservices : ZbxItservices) : Network Nat Nat where
  calculate serviceid values :=
    (itservices.search serviceid).bind (calculatedStatus (withStatuses itservices values).status)
  dependents := parentsOf itservices

theorem calculate_networkOf (itservices : ZbxItservices) (serviceid : Nat) (values : Nat → Nat) :
    (networkOf itservices).calculate serviceid values = (itservices.search serviceid).bind
      (calculatedStatus (withStatuses itservices values).status) :=
  rfl

theorem dependents_networkOf (itservices : ZbxItservices) (serviceid : Nat) :
    (networkOf itservices).dependents serviceid = parentsOf itservices serviceid :=
  rfl

/-- The session when the services have the values of a state. -/
def present (itservices : ZbxItservices) (clock : Int) (alarms : List ZbxStatusUpdate)
    (state : State Nat Nat) : Session :=
  (withStatuses itservices state.values,
    alarms ++ state.changes.map fun change => ⟨change.1, change.2, clock⟩)

theorem changeStatus_present (itservices : ZbxItservices) (clock : Int)
    (alarms : List ZbxStatusUpdate) (state : State Nat Nat) (serviceid status : Nat) :
    changeStatus (present itservices clock alarms state) serviceid status clock =
      present itservices clock alarms (state.assign serviceid status) := by
  rw [changeStatus, present, present, modify_withStatuses, State.assign_values,
    State.assign_changes, map_append, append_assoc]
  rfl

theorem foldlM_present {Item : Type} {clock : Int} {alarms : List ZbxStatusUpdate}
    {onSession : Session → Item → Option Session}
    {onState : State Nat Nat → Item → Option (State Nat Nat)}
    (shows : ∀ item state, onSession (present itservices clock alarms state) item =
      (onState state item).map (present itservices clock alarms))
    (items : List Item) (state : State Nat Nat) :
    items.foldlM onSession (present itservices clock alarms state) =
      (items.foldlM onState state).map (present itservices clock alarms) := by
  induction items generalizing state with
  | nil => rfl
  | cons item items ih =>
    rw [foldlM_cons, foldlM_cons, shows]
    cases onState state item with
    | none => rfl
    | some next => exact ih next

theorem itsItserviceUpdateStatus_present (itservices : ZbxItservices) (clock : Int)
    (alarms : List ZbxStatusUpdate) (depth serviceid : Nat) (state : State Nat Nat) :
    itsItserviceUpdateStatus clock depth serviceid (present itservices clock alarms state) =
      (visit (networkOf itservices) depth serviceid state).map
        (present itservices clock alarms) := by
  induction depth generalizing serviceid state with
  | zero => rfl
  | succ depth ih =>
    have updateStatuses (parents : List Nat) (state : State Nat Nat) :
        parents.foldlM
            (fun session parent => itsItserviceUpdateStatus clock depth parent session)
            (present itservices clock alarms state) =
          (parents.foldlM
            (fun state parent => visit (networkOf itservices) depth parent state) state).map
              (present itservices clock alarms) :=
      foldlM_present ih parents state
    have isSession : (present itservices clock alarms state).1 =
        withStatuses itservices state.values := rfl
    rw [itsItserviceUpdateStatus, visit, calculate_networkOf, isSession, search_withStatuses]
    cases found : itservices.search serviceid with
    | none => rfl
    | some itservice =>
      rw [map_some, bind_some]
      have isSame : calculatedStatus (withStatuses itservices state.values).status
          { itservice with status := state.values serviceid } =
            calculatedStatus (withStatuses itservices state.values).status itservice := rfl
      dsimp only
      rw [isSame]
      cases calculatedStatus (withStatuses itservices state.values).status itservice with
      | none => rfl
      | some status =>
        dsimp only
        split
        · rfl
        · have areParents : parentsOf itservices serviceid = itservice.parents := by
            rw [parentsOf, found]
            rfl
          rw [dependents_networkOf, areParents, ← updateStatuses, ← changeStatus_present]

/-! ## The loaded services in order -/

theorem calculatedStatus_congr {status status' : Nat → Nat} {itservice : ZbxItservice}
    (same : ∀ child ∈ itservice.children, status child = status' child) :
    calculatedStatus status itservice = calculatedStatus status' itservice := by
  rw [calculatedStatus, calculatedStatus]
  cases itservice.algorithm with
  | min => exact congrArg some (foldl_ext _ _ _ fun least child isChild => by
    rw [same child isChild])
  | max => exact congrArg some (foldl_ext _ _ _ fun greatest child isChild => by
    rw [same child isChild])
  | none => rfl
  | unknown code => rfl

theorem status_update (itservices : ZbxItservices) (values : Nat → Nat) {changed other : Nat}
    (isOther : other ≠ changed) (status : Nat) :
    (withStatuses itservices (Function.update values changed status)).status other =
      (withStatuses itservices values).status other := by
  rw [ZbxItservices.status, search_withStatuses, ZbxItservices.status, search_withStatuses,
    Function.update_of_ne isOther]

/-- A service that can be reached from a trigger and has children. -/
def Inner (db : Database) (active : Nat → Prop) (serviceid : Nat) : Prop :=
  active serviceid ∧ ∃ child, IsParent db child serviceid

theorem ordered_networkOf (wellFormed : WellFormed db)
    (loads : Loads db triggerids itservices active) :
    Ordered (networkOf itservices) active (height db) where
  closed := fun serviceid isActive parent isParent =>
    loads.closed serviceid isActive parent ((loads.parents serviceid isActive parent).mp isParent)
  below := fun serviceid isActive parent isParent =>
    height_lt wellFormed ((loads.parents serviceid isActive parent).mp isParent)
  unread := by
    intro serviceid isActive other notParent values status
    rw [calculate_networkOf, calculate_networkOf]
    cases found : itservices.search other with
    | none => rfl
    | some itservice =>
      refine calculatedStatus_congr fun child isChild => status_update itservices values ?_ status
      rintro rfl
      have isChildOf : child ∈ childrenOf itservices other := by
        rw [childrenOf, found]
        exact isChild
      have isParent := ((loads.children other child).mp isChildOf).2
      exact notParent ((loads.parents child isActive other).mpr isParent)

theorem Inner.closed (loads : Loads db triggerids itservices active)
    (isInner : Inner db active serviceid) {parent : Nat}
    (isParent : parent ∈ parentsOf itservices serviceid) : Inner db active parent := by
  have above := (loads.parents serviceid isInner.1 parent).mp isParent
  exact ⟨loads.closed serviceid isInner.1 parent above, serviceid, above⟩

/-! ## The algorithms -/

theorem foldl_least (status : Nat → Nat) (children : List Nat) (start : Nat) :
    children.foldl (fun least child => if status child < least then status child else least) start ∈
        start :: children.map status ∧
      ∀ other ∈ start :: children.map status,
        children.foldl (fun least child => if status child < least then status child else least)
          start ≤ other := by
  have isMin : children.foldl
      (fun least child => if status child < least then status child else least) start =
        (children.map status).foldl min start := by
    rw [foldl_map]
    refine foldl_ext _ _ _ fun least child _ => ?_
    split
    next below => exact (min_eq_right below.le).symm
    next notBelow => exact (min_eq_left (Nat.le_of_not_lt notBelow)).symm
  rw [isMin]
  exact min?_eq_some_iff.mp min?_cons'

theorem foldl_greatest (status : Nat → Nat) (children : List Nat) (start : Nat) :
    children.foldl
          (fun greatest child => if greatest < status child then status child else greatest) start ∈
        start :: children.map status ∧
      ∀ other ∈ start :: children.map status,
        other ≤ children.foldl
          (fun greatest child => if greatest < status child then status child else greatest)
          start := by
  have isMax : children.foldl
      (fun greatest child => if greatest < status child then status child else greatest) start =
        (children.map status).foldl max start := by
    rw [foldl_map]
    refine foldl_ext _ _ _ fun greatest child _ => ?_
    split
    next above => exact (max_eq_right above.le).symm
    next notAbove => exact (max_eq_left (Nat.le_of_not_lt notAbove)).symm
  rw [isMax]
  exact max?_eq_some_iff.mp max?_cons'

/-- The statuses of the children in the memory. -/
def loadedStatuses (itservices : ZbxItservices) (values : Nat → Nat) (serviceid : Nat) : Set Nat :=
  {status | ∃ child ∈ childrenOf itservices serviceid,
    (withStatuses itservices values).status child = status}

theorem status_severe (severe : ∀ other, values other < triggerSeverityCount) (serviceid : Nat) :
    (withStatuses itservices values).status serviceid < triggerSeverityCount := by
  by_cases isLoaded : serviceid ∈ loadedIds itservices
  · rw [status_withStatuses isLoaded]
    exact severe serviceid
  · rw [status_of_not_loaded isLoaded]
    decide

theorem childrenOf_of_found {itservice : ZbxItservice}
    (found : itservices.search serviceid = some itservice) :
    childrenOf itservices serviceid = itservice.children := by
  rw [childrenOf, found]
  rfl

theorem calculated_least {itservice : ZbxItservice} {status : Nat}
    (found : itservices.search serviceid = some itservice) (isMin : itservice.algorithm = .min)
    (severe : ∀ other, values other < triggerSeverityCount)
    (someChild : childrenOf itservices serviceid ≠ [])
    (calculated : (networkOf itservices).calculate serviceid values = some status) :
    IsLeast (loadedStatuses itservices values serviceid) status := by
  rw [calculate_networkOf, found, bind_some, calculatedStatus, isMin] at calculated
  obtain rfl := some.inj calculated
  rw [childrenOf_of_found found] at someChild
  rw [loadedStatuses, childrenOf_of_found found]
  obtain ⟨isOne, isLeast⟩ := foldl_least (withStatuses itservices values).status
    itservice.children triggerSeverityCount
  refine ⟨?_, fun other isOther => ?_⟩
  · rcases mem_cons.mp isOne with isStart | isChild
    · obtain ⟨child, isChild⟩ := exists_mem_of_ne_nil _ someChild
      have below := isLeast _ (mem_cons_of_mem _ (List.mem_map_of_mem isChild))
      rw [isStart] at below
      exact absurd (status_severe severe child) (Nat.not_lt_of_le below)
    · exact List.mem_map.mp isChild
  · obtain ⟨child, isChild, rfl⟩ := isOther
    exact isLeast _ (mem_cons_of_mem _ (List.mem_map_of_mem isChild))

theorem calculated_greatest {itservice : ZbxItservice} {status : Nat}
    (found : itservices.search serviceid = some itservice) (isMax : itservice.algorithm = .max)
    (someChild : childrenOf itservices serviceid ≠ [])
    (calculated : (networkOf itservices).calculate serviceid values = some status) :
    IsGreatest (loadedStatuses itservices values serviceid) status := by
  rw [calculate_networkOf, found, bind_some, calculatedStatus, isMax] at calculated
  obtain rfl := some.inj calculated
  rw [childrenOf_of_found found] at someChild
  rw [loadedStatuses, childrenOf_of_found found]
  obtain ⟨isOne, isGreatest⟩ := foldl_greatest (withStatuses itservices values).status
    itservice.children 0
  refine ⟨?_, fun other isOther => ?_⟩
  · rcases mem_cons.mp isOne with isStart | isChild
    · obtain ⟨child, isChild⟩ := exists_mem_of_ne_nil _ someChild
      have above := isGreatest _ (mem_cons_of_mem _ (List.mem_map_of_mem isChild))
      rw [isStart] at above
      rw [isStart]
      exact ⟨child, isChild, Nat.le_zero.mp above⟩
    · exact List.mem_map.mp isChild
  · obtain ⟨child, isChild, rfl⟩ := isOther
    exact isGreatest _ (mem_cons_of_mem _ (List.mem_map_of_mem isChild))

theorem calculated_severe (loads : Loads db triggerids itservices active)
    (isInner : Inner db active serviceid)
    (severe : ∀ other, values other < triggerSeverityCount) {status : Nat}
    (calculated : (networkOf itservices).calculate serviceid values = some status) :
    status < triggerSeverityCount := by
  obtain ⟨isActive, child, isParent⟩ := isInner
  have someChild : childrenOf itservices serviceid ≠ [] :=
    ne_nil_of_mem ((loads.children serviceid child).mpr ⟨isActive, isParent⟩)
  obtain ⟨itservice, found⟩ := isSome_iff_exists.mp
    (isSome_search.mpr (loads.activeLoaded serviceid isActive))
  have isChildStatus : status ∈ loadedStatuses itservices values serviceid := by
    cases algorithm : itservice.algorithm with
    | min => exact (calculated_least found algorithm severe someChild calculated).1
    | max => exact (calculated_greatest found algorithm someChild calculated).1
    | none =>
      rw [calculate_networkOf, found, bind_some, calculatedStatus, algorithm] at calculated
      cases calculated
    | unknown code =>
      rw [calculate_networkOf, found, bind_some, calculatedStatus, algorithm] at calculated
      cases calculated
  obtain ⟨child, -, rfl⟩ := isChildStatus
  exact status_severe severe child

end Zabbix.Services.Recalculation
