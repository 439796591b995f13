import Zabbix.Services.Recalculation

/-!
# Consistent statuses after the updates

Each update of the queue changes the services of its trigger and then recalculates their
parents, so that all services above the changed ones are settled again.
-/

namespace Zabbix.Services.Consistency

open Library.Propagation ItServices ServiceTree Loading Recalculation List Option List

variable {db : Database} {itservices : ZbxItservices} {triggerids : List Nat}
variable {active : Nat → Prop} {serviceid : Nat} {values : Nat → Nat}
variable {update : ZbxStatusUpdate} {state : State Nat Nat}

/-! ## The services of a trigger -/

def isCalculated (itservices : ZbxItservices) (serviceid : Nat) : Bool :=
  (itservices.search serviceid).any fun itservice => itservice.algorithm ≠ .none

/-- A service of a trigger gets the status of the trigger. -/
def assignLeaf (itservices : ZbxItservices) (status : Nat) (state : State Nat Nat)
    (serviceid : Nat) : State Nat Nat :=
  if isCalculated itservices serviceid ∧ state.values serviceid ≠ status then
    state.assign serviceid status
  else state

theorem applyToLeaf_present (itservices : ZbxItservices) (alarms : List ZbxStatusUpdate)
    (update : ZbxStatusUpdate) (state : State Nat Nat) (serviceid : Nat) :
    applyToLeaf update (present itservices update.clock alarms state) serviceid =
      present itservices update.clock alarms
        (assignLeaf itservices update.status state serviceid) := by
  have isSession : (present itservices update.clock alarms state).1 =
      withStatuses itservices state.values := rfl
  rw [applyToLeaf, isSession, search_withStatuses, assignLeaf, isCalculated]
  cases itservices.search serviceid with
  | none => rfl
  | some itservice =>
    dsimp only [map_some]
    rw [changeStatus_present]
    by_cases notCalculated : itservice.algorithm = .none
    · simp [notCalculated]
    · by_cases same : state.values serviceid = update.status
      · simp [same]
      · simp [notCalculated, same]

theorem applyToLeaves_present (itservices : ZbxItservices) (alarms : List ZbxStatusUpdate)
    (update : ZbxStatusUpdate) (leaves : List Nat) (state : State Nat Nat) :
    leaves.foldl (applyToLeaf update) (present itservices update.clock alarms state) =
      present itservices update.clock alarms
        (leaves.foldl (assignLeaf itservices update.status) state) := by
  induction leaves generalizing state with
  | nil => rfl
  | cons leaf leaves ih =>
    rw [foldl_cons, applyToLeaf_present, ih, foldl_cons]

/-- What the services of a trigger have when they have got its status. -/
structure AssignsLeaves (itservices : ZbxItservices) (leaves : List Nat) (status : Nat)
    (state final : State Nat Nat) : Prop where
  changes : ∃ added, final.changes = state.changes ++ added ∧
    Replays state.values added final.values
  values : ∀ serviceid, final.values serviceid =
    if serviceid ∈ leaves ∧ isCalculated itservices serviceid then status
    else state.values serviceid

theorem assignLeaves_spec (itservices : ZbxItservices) (leaves : List Nat) (status : Nat)
    (state : State Nat Nat) :
    AssignsLeaves itservices leaves status state
      (leaves.foldl (assignLeaf itservices status) state) := by
  induction leaves generalizing state with
  | nil => exact ⟨⟨[], (append_nil _).symm, Replays.nil _⟩, fun _ => by simp⟩
  | cons leaf leaves ih =>
    have rest := ih (assignLeaf itservices status state leaf)
    rw [foldl_cons]
    rw [assignLeaf] at rest ⊢
    split at rest
    next isChanged =>
      rw [if_pos isChanged]
      obtain ⟨added, isAdded, replays⟩ := rest.changes
      refine ⟨⟨(leaf, status) :: added, ?_, Replays.cons isChanged.2 replays⟩, fun other => ?_⟩
      · rw [isAdded, State.assign_changes, append_assoc, singleton_append]
      · rw [rest.values, State.assign_values, Function.update_apply]
        by_cases isLeaf : other = leaf
        · simp [isLeaf, isChanged.1]
        · simp [isLeaf]
    next notChanged =>
      rw [if_neg notChanged]
      refine ⟨rest.changes, fun other => ?_⟩
      rw [rest.values]
      by_cases isLeaf : other = leaf
      · subst isLeaf
        by_cases calculated : isCalculated itservices other
        · have same : state.values other = status := by
            by_contra notSame
            exact notChanged ⟨calculated, notSame⟩
          simp [same]
        · simp [calculated]
      · simp [isLeaf]

theorem assignLeaves_settled {network : Network Nat Nat} {rank : Nat → Nat}
    (ordered : Ordered network active rank) {leaves : List Nat} (status : Nat)
    (areActive : ∀ leaf ∈ leaves, active leaf)
    (notLeaf : serviceid ∉ leaves) (notAbove : serviceid ∉ leaves.flatMap network.dependents)
    (settled : Settled network state.values serviceid) :
    Settled network (leaves.foldl (assignLeaf itservices status) state).values serviceid := by
  induction leaves generalizing state with
  | nil => exact settled
  | cons leaf leaves ih =>
    rw [mem_cons, not_or] at notLeaf
    rw [flatMap_cons, mem_append, not_or] at notAbove
    refine ih (fun other isOther => areActive other (mem_cons_of_mem leaf isOther))
      notLeaf.2 notAbove.2 ?_
    rw [assignLeaf]
    split
    · intro value isValue
      rw [State.assign_values, ordered.unread leaf (areActive leaf mem_cons_self) serviceid
        notAbove.1] at isValue
      rw [State.assign_values, Function.update_of_ne notLeaf.1]
      exact settled value isValue
    · exact settled

/-! ## One update -/

theorem updateParents_present (itservices : ZbxItservices) (clock : Int)
    (alarms : List ZbxStatusUpdate) (depth serviceid : Nat) (state : State Nat Nat) :
    updateParents depth clock (present itservices clock alarms state) serviceid =
      ((parentsOf itservices serviceid).foldlM
        (fun state parent => visit (networkOf itservices) depth parent state) state).map
          (present itservices clock alarms) := by
  have updateStatuses : (parentsOf itservices serviceid).foldlM
      (fun session parent => itsItserviceUpdateStatus clock depth parent session)
      (present itservices clock alarms state) = _ :=
    foldlM_present (itsItserviceUpdateStatus_present itservices clock alarms depth)
      (parentsOf itservices serviceid) state
  have isSession : (present itservices clock alarms state).1 =
      withStatuses itservices state.values := rfl
  rw [← updateStatuses, updateParents, isSession, search_withStatuses, parentsOf]
  cases itservices.search serviceid <;> rfl

/-- What one update of the queue makes of the statuses. -/
structure Applies (db : Database) (active : Nat → Prop) (itservices : ZbxItservices)
    (update : ZbxStatusUpdate) (values : Nat → Nat) (final : State Nat Nat) : Prop where
  replays : Replays values final.changes final.values
  outer : ∀ serviceid, ¬ Inner db active serviceid → final.values serviceid =
    if serviceid ∈ itservices.index update.sourceid ∧ isCalculated itservices serviceid then
      update.status
    else values serviceid
  settled : (∀ serviceid, Inner db active serviceid →
      Settled (networkOf itservices) values serviceid) →
    ∀ serviceid, Inner db active serviceid → Settled (networkOf itservices) final.values serviceid
  severe : (∀ serviceid, values serviceid < triggerSeverityCount) →
    update.status < triggerSeverityCount →
    ∀ serviceid, final.values serviceid < triggerSeverityCount

theorem not_inner_of_index (wellFormed : WellFormed db)
    (loads : Loads db triggerids itservices active) {triggerid : Nat}
    (isTrigger : triggerid ∈ triggerids) (isIndexed : serviceid ∈ itservices.index triggerid) :
    ¬ Inner db active serviceid := by
  rintro ⟨-, child, isParent⟩
  obtain ⟨service, isService, rfl, hasTrigger⟩ :=
    (loads.index triggerid isTrigger serviceid).mp isIndexed
  exact wellFormed.leaves service isService (hasTrigger ▸ rfl) child isParent

theorem applyUpdate_spec (wellFormed : WellFormed db)
    (loads : Loads db triggerids itservices active) {depth : Nat}
    (deep : db.services.length < depth) (isTrigger : update.sourceid ∈ triggerids)
    (values : Nat → Nat) (alarms : List ZbxStatusUpdate) :
    ∃ final, applyUpdate depth (withStatuses itservices values, alarms) update =
        some (present itservices update.clock alarms final) ∧
      Applies db active itservices update values final := by
  have ordered := ordered_networkOf wellFormed loads
  have areActive : ∀ leaf ∈ itservices.index update.sourceid, active leaf :=
    loads.leaf update.sourceid isTrigger
  have areInner : ∀ parent ∈ (itservices.index update.sourceid).flatMap (parentsOf itservices),
      Inner db active parent := by
    intro parent isParent
    obtain ⟨leaf, isLeaf, isParent⟩ := mem_flatMap.mp isParent
    have above := (loads.parents leaf (areActive leaf isLeaf) parent).mp isParent
    exact ⟨loads.closed leaf (areActive leaf isLeaf) parent above, leaf, above⟩
  have closed : ∀ serviceid, Inner db active serviceid →
      ∀ parent ∈ (networkOf itservices).dependents serviceid, Inner db active parent :=
    fun serviceid isInner parent isParent => isInner.closed loads isParent
  have assigns := assignLeaves_spec itservices (itservices.index update.sourceid) update.status
    ⟨values, []⟩
  obtain ⟨final, folded, visits⟩ := visits_foldlM (itservices.index update.sourceid)
    ((itservices.index update.sourceid).foldl (assignLeaf itservices update.status) ⟨values, []⟩)
    fun leaf isLeaf state => by
      have visited := visits_foldlM (parentsOf itservices leaf) state fun parent isParent =>
        visit_visits ordered (ordered.closed leaf (areActive leaf isLeaf) parent isParent)
          (Nat.lt_of_le_of_lt (height_le db parent) deep)
      rw [flatMap_singleton'] at visited
      exact visited
  refine ⟨final, ?_, ?_, fun serviceid notInner => ?_, fun settled serviceid isInner => ?_, ?_⟩
  · have updateAll := foldlM_present
      (updateParents_present itservices update.clock alarms depth)
      (itservices.index update.sourceid)
      ((itservices.index update.sourceid).foldl (assignLeaf itservices update.status) ⟨values, []⟩)
    rw [folded, ← applyToLeaves_present, present, map_nil, append_nil] at updateAll
    exact updateAll
  · obtain ⟨added, isAdded, replays⟩ := assigns.changes
    obtain ⟨more, isMore, next⟩ := visits.changes
    rw [isMore, isAdded, nil_append]
    exact replays.append next
  · have isAssigned := assigns.values serviceid
    by_contra isChanged
    rw [← isAssigned] at isChanged
    exact notInner (visits.inside (Inner db active) closed areInner serviceid isChanged)
  · refine visits.settles {other | ¬ Inner db active other} (fun other isInner notAbove => ?_)
      serviceid (fun notInner => notInner isInner)
    have isInner := not_not.mp isInner
    exact assignLeaves_settled ordered update.status areActive
      (fun isLeaf => not_inner_of_index wellFormed loads isTrigger isLeaf isInner) notAbove
      (settled other isInner)
  · intro severe isSevere
    refine visits.valid (Inner db active) (· < triggerSeverityCount) closed
      (fun serviceid isInner values severe status => calculated_severe loads isInner severe)
      areInner fun serviceid => ?_
    rw [assigns.values]
    split
    · exact isSevere
    · exact severe serviceid

/-! ## All updates -/

def changeOf (alarm : ZbxStatusUpdate) : Nat × Nat :=
  (alarm.sourceid, alarm.status)

/-- What the queue makes of the statuses; the alarms are those that are added. -/
structure AppliesAll (db : Database) (active : Nat → Prop) (itservices : ZbxItservices)
    (updates alarms : List ZbxStatusUpdate) (values final : Nat → Nat) : Prop where
  replays : Replays values (alarms.map changeOf) final
  outer : ∀ serviceid, ¬ Inner db active serviceid → final serviceid =
    updates.foldl (fun status update =>
      if serviceid ∈ itservices.index update.sourceid ∧ isCalculated itservices serviceid then
        update.status
      else status) (values serviceid)
  settled : (∀ serviceid, Inner db active serviceid →
      Settled (networkOf itservices) values serviceid) →
    ∀ serviceid, Inner db active serviceid → Settled (networkOf itservices) final serviceid
  severe : (∀ serviceid, values serviceid < triggerSeverityCount) →
    (∀ update ∈ updates, update.status < triggerSeverityCount) →
    ∀ serviceid, final serviceid < triggerSeverityCount

theorem applyUpdates_spec (wellFormed : WellFormed db)
    (loads : Loads db triggerids itservices active) {depth : Nat}
    (deep : db.services.length < depth) (updates : List ZbxStatusUpdate)
    (areTriggers : ∀ update ∈ updates, update.sourceid ∈ triggerids)
    (values : Nat → Nat) (alarms : List ZbxStatusUpdate) :
    ∃ added final, updates.foldlM (applyUpdate depth) (withStatuses itservices values, alarms) =
        some (withStatuses itservices final, alarms ++ added) ∧
      AppliesAll db active itservices updates added values final := by
  induction updates generalizing values alarms with
  | nil =>
    refine ⟨[], values, by simp, Replays.nil values, fun _ _ => rfl, id, fun severe _ => severe⟩
  | cons update updates ih =>
    obtain ⟨state, applied, applies⟩ := applyUpdate_spec wellFormed loads deep
      (areTriggers update mem_cons_self) values alarms
    obtain ⟨added, final, folded, rest⟩ := ih
      (fun other isOther => areTriggers other (mem_cons_of_mem update isOther))
      state.values
      (alarms ++ state.changes.map fun change => ⟨change.1, change.2, update.clock⟩)
    refine ⟨(state.changes.map fun change => ⟨change.1, change.2, update.clock⟩) ++ added, final,
      ?_, ?_, fun serviceid notInner => ?_, fun settled => rest.settled (applies.settled settled),
      fun severe areSevere => ?_⟩
    · rw [foldlM_cons, applied, ← append_assoc]
      exact folded
    · rw [map_append, List.map_map]
      have same : changeOf ∘ (fun change : Nat × Nat =>
          (⟨change.1, change.2, update.clock⟩ : ZbxStatusUpdate)) = id := rfl
      rw [same, List.map_id]
      exact applies.replays.append rest.replays
    · rw [rest.outer serviceid notInner, applies.outer serviceid notInner, foldl_cons]
    · exact rest.severe
        (applies.severe severe (areSevere update mem_cons_self))
        fun other isOther => areSevere other (mem_cons_of_mem update isOther)

/-! ## Writing the statuses -/

def applyStatement (service : Service) (update : ZbxStatusUpdate) : Service :=
  if service.serviceid = update.sourceid then { service with status := update.status } else service

theorem foldl_updateServiceStatus (updates : List ZbxStatusUpdate) (services : List Service) :
    updates.foldl updateServiceStatus services =
      services.map fun service => updates.foldl applyStatement service := by
  induction updates generalizing services with
  | nil => exact (List.map_id services).symm
  | cons update updates ih =>
    rw [foldl_cons, ih, updateServiceStatus, List.map_map]
    rfl

theorem applyStatements_none (service : Service) {updates : List ZbxStatusUpdate}
    (isNone : ∀ update ∈ updates, update.sourceid ≠ service.serviceid) :
    updates.foldl applyStatement service = service := by
  induction updates with
  | nil => rfl
  | cons update updates ih =>
    rw [foldl_cons, applyStatement, if_neg (Ne.symm (isNone update mem_cons_self))]
    exact ih fun other isOther => isNone other (mem_cons_of_mem update isOther)

theorem applyStatements_some (service : Service) {updates : List ZbxStatusUpdate}
    (distinct : (updates.map ZbxStatusUpdate.sourceid).Nodup) {update : ZbxStatusUpdate}
    (isUpdate : update ∈ updates) (isSource : update.sourceid = service.serviceid) :
    updates.foldl applyStatement service = { service with status := update.status } := by
  induction updates with
  | nil => cases isUpdate
  | cons first updates ih =>
    obtain ⟨notRest, distinct⟩ := nodup_cons.mp distinct
    rw [foldl_cons]
    rcases mem_cons.mp isUpdate with rfl | isRest
    · rw [applyStatement, if_pos isSource.symm]
      refine applyStatements_none _ fun other isOther same => notRest ?_
      rw [isSource, ← same]
      exact mem_map_of_mem isOther
    · have notFirst : service.serviceid ≠ first.sourceid := by
        intro same
        refine notRest ?_
        rw [← same, ← isSource]
        exact mem_map_of_mem isRest
      rw [applyStatement, if_neg notFirst]
      exact ih distinct isRest

def finalStatus (itservices : ZbxItservices) (values : Nat → Nat) (service : Service) : Nat :=
  if service.serviceid ∈ loadedIds itservices then values service.serviceid else service.status

theorem mem_statusUpdates {update : ZbxStatusUpdate} :
    update ∈ statusUpdates (withStatuses itservices values) ↔
      ∃ itservice ∈ itservices.itservices,
        itservice.oldStatus ≠ values itservice.serviceid ∧
          ⟨itservice.serviceid, values itservice.serviceid, 0⟩ = update := by
  rw [statusUpdates, mem_insertionSort, List.mem_map, withStatuses]
  simp only [mem_filter, List.mem_map, decide_eq_true_eq]
  constructor
  · rintro ⟨_, ⟨⟨itservice, isIn, rfl⟩, isChanged⟩, isUpdate⟩
    exact ⟨itservice, isIn, isChanged, isUpdate⟩
  · rintro ⟨itservice, isIn, isChanged, isUpdate⟩
    exact ⟨_, ⟨⟨itservice, isIn, rfl⟩, isChanged⟩, isUpdate⟩

theorem statusUpdates_distinct (distinct : (loadedIds itservices).Nodup) (values : Nat → Nat) :
    ((statusUpdates (withStatuses itservices values)).map ZbxStatusUpdate.sourceid).Nodup := by
  have isSublist : (((withStatuses itservices values).itservices.filter fun itservice =>
      itservice.oldStatus ≠ itservice.status).map ZbxItservice.serviceid).Nodup := by
    refine List.Nodup.sublist (filter_sublist.map _) ?_
    rw [withStatuses, List.map_map]
    exact distinct
  rw [statusUpdates]
  refine ((perm_insertionSort _ _).map ZbxStatusUpdate.sourceid).nodup_iff.mpr ?_
  rw [List.map_map]
  exact isSublist

theorem written_services (loaded : Loaded db itservices) (values : Nat → Nat)
    (wellFormed : WellFormed db) :
    (statusUpdates (withStatuses itservices values)).foldl updateServiceStatus db.services =
      db.services.map fun service =>
        { service with status := finalStatus itservices values service } := by
  rw [foldl_updateServiceStatus]
  refine map_congr_left fun service isService => ?_
  rw [finalStatus]
  split
  next isLoaded =>
    obtain ⟨itservice, found⟩ := isSome_iff_exists.mp (isSome_search.mpr isLoaded)
    have isId := serviceid_of_search found
    obtain ⟨row, isRow, sameId, isOld, -⟩ := loaded.same _ itservice found
    obtain rfl := wellFormed.service_unique isRow isService sameId
    by_cases isChanged : itservice.oldStatus = values itservice.serviceid
    · have same : values row.serviceid = row.status := by
        rw [← isId, ← isChanged, isOld]
      rw [applyStatements_none, same]
      · intro update isUpdate sameSource
        obtain ⟨other, isIn, changed, rfl⟩ := mem_statusUpdates.mp isUpdate
        have isOther := search_of_mem loaded.distinct isIn
        rw [show other.serviceid = row.serviceid from sameSource, found] at isOther
        obtain rfl := some.inj isOther
        exact changed isChanged
    · have isUpdate := mem_statusUpdates.mpr
        ⟨itservice, mem_of_find?_eq_some found, isChanged, rfl⟩
      rw [applyStatements_some row (statusUpdates_distinct loaded.distinct values) isUpdate isId,
        isId]
  next notLoaded =>
    refine applyStatements_none service fun update isUpdate sameSource => notLoaded ?_
    obtain ⟨other, isIn, -, rfl⟩ := mem_statusUpdates.mp isUpdate
    rw [← sameSource]
    exact mem_map_of_mem isIn

/-! ## The statuses before and after -/

def finalStatuses (db : Database) (itservices : ZbxItservices) (values : Nat → Nat)
    (serviceid : Nat) : Set Nat :=
  {status | ∃ child ∈ db.services, IsParent db child.serviceid serviceid ∧
    finalStatus itservices values child = status}

theorem loadedStatuses_eq (loads : Loads db triggerids itservices active)
    (isActive : active serviceid) (values : Nat → Nat) :
    loadedStatuses itservices values serviceid = finalStatuses db itservices values serviceid := by
  ext status
  constructor
  · rintro ⟨childid, isChild, rfl⟩
    have isParent := ((loads.children serviceid childid).mp isChild).2
    obtain ⟨child, isService, rfl⟩ := mem_serviceids.mp isParent.isChild
    have isLoaded := loads.childLoaded serviceid child.serviceid isActive isParent
    exact ⟨child, isService, isParent, by rw [finalStatus, if_pos isLoaded,
      status_withStatuses isLoaded]⟩
  · rintro ⟨child, isService, isParent, rfl⟩
    have isLoaded := loads.childLoaded serviceid child.serviceid isActive isParent
    refine ⟨child.serviceid, (loads.children _ _).mpr ⟨isActive, isParent⟩, ?_⟩
    rw [finalStatus, if_pos isLoaded, status_withStatuses isLoaded]

def storedStatus (db : Database) (serviceid : Nat) : Nat :=
  ((db.services.find? fun service => service.serviceid = serviceid).map Service.status).getD 0

variable (wellFormed : WellFormed db)

include wellFormed

theorem storedStatus_eq {service : Service}
    (isService : service ∈ db.services) : storedStatus db service.serviceid = service.status := by
  have isSome : (db.services.find? fun other => other.serviceid = service.serviceid).isSome :=
    find?_isSome.mpr ⟨service, isService, decide_eq_true rfl⟩
  obtain ⟨other, found⟩ := isSome_iff_exists.mp isSome
  have same : other = service := wellFormed.service_unique (mem_of_find?_eq_some found)
    isService (by simpa using find?_some found)
  rw [storedStatus, found, same]
  rfl

theorem withStatuses_stored (loaded : Loaded db itservices) :
    withStatuses itservices (storedStatus db) = itservices := by
  rw [withStatuses]
  refine congrArg (fun rows => (⟨rows, itservices.index⟩ : ZbxItservices)) ?_
  refine (map_congr_left fun itservice isIn => ?_).trans (List.map_id _)
  obtain ⟨row, isRow, sameId, -, isStatus, -⟩ :=
    loaded.same _ itservice (search_of_mem loaded.distinct isIn)
  have isStored : storedStatus db itservice.serviceid = itservice.status := by
    rw [← sameId, storedStatus_eq wellFormed isRow, isStatus]
  rw [isStored]
  rfl

theorem finalStatus_stored {service : Service}
    (isService : service ∈ db.services) :
    finalStatus itservices (storedStatus db) service = service.status := by
  rw [finalStatus]
  split
  · exact storedStatus_eq wellFormed isService
  · rfl

theorem settled_iff (loads : Loads db triggerids itservices active)
    {service : Service} (isService : service ∈ db.services)
    (isInner : Inner db active service.serviceid)
    (severe : ∀ other, values other < triggerSeverityCount) :
    Settled (networkOf itservices) values service.serviceid ↔
      (service.algorithm = .max →
          IsGreatest (finalStatuses db itservices values service.serviceid)
            (values service.serviceid)) ∧
        (service.algorithm = .min →
          IsLeast (finalStatuses db itservices values service.serviceid)
            (values service.serviceid)) := by
  obtain ⟨isActive, child, isParent⟩ := isInner
  have someChild : childrenOf itservices service.serviceid ≠ [] :=
    ne_nil_of_mem ((loads.children _ child).mpr ⟨isActive, isParent⟩)
  obtain ⟨itservice, found⟩ := isSome_iff_exists.mp
    (isSome_search.mpr (loads.activeLoaded _ isActive))
  obtain ⟨row, isRow, sameId, -, -, sameAlgorithm⟩ := loads.loaded.same _ itservice found
  obtain rfl := wellFormed.service_unique isRow isService sameId
  rw [← sameAlgorithm, ← loadedStatuses_eq loads isActive]
  have calculated : (networkOf itservices).calculate row.serviceid values =
      calculatedStatus (withStatuses itservices values).status itservice := by
    rw [calculate_networkOf, found, bind_some]
  cases algorithm : itservice.algorithm with
  | none =>
    refine iff_of_true (fun status isStatus => ?_) (by simp)
    rw [calculated, calculatedStatus, algorithm] at isStatus
    cases isStatus
  | unknown code =>
    refine iff_of_true (fun status isStatus => ?_) (by simp)
    rw [calculated, calculatedStatus, algorithm] at isStatus
    cases isStatus
  | max =>
    constructor
    · intro settled
      refine ⟨fun _ => ?_, by simp⟩
      obtain ⟨status, isStatus⟩ : ∃ status,
          (networkOf itservices).calculate row.serviceid values = some status := by
        rw [calculated, calculatedStatus, algorithm]
        exact ⟨_, rfl⟩
      rw [settled status isStatus]
      exact calculated_greatest found algorithm someChild isStatus
    · intro isDefined status isStatus
      exact (isDefined.1 rfl).unique (calculated_greatest found algorithm someChild isStatus)
  | min =>
    constructor
    · intro settled
      refine ⟨by simp, fun _ => ?_⟩
      obtain ⟨status, isStatus⟩ : ∃ status,
          (networkOf itservices).calculate row.serviceid values = some status := by
        rw [calculated, calculatedStatus, algorithm]
        exact ⟨_, rfl⟩
      rw [settled status isStatus]
      exact calculated_least found algorithm severe someChild isStatus
    · intro isDefined status isStatus
      exact (isDefined.2 rfl).unique (calculated_least found algorithm severe someChild isStatus)

omit wellFormed

/-! ## The services without calculated children -/

variable {updates added : List ZbxStatusUpdate} {final triggerStatus : Nat → Nat}

theorem foldl_untouched {service : Service} (updates : List ZbxStatusUpdate) (status : Nat)
    (untouched : ∀ update ∈ updates, service.triggerid ≠ some update.sourceid) :
    updates.foldl (fun status update =>
        if service.triggerid = some update.sourceid ∧ service.algorithm ≠ .none then update.status
        else status) status = status := by
  induction updates with
  | nil => rfl
  | cons update updates ih =>
    rw [foldl_cons, if_neg fun both => untouched update mem_cons_self both.1]
    exact ih fun other isOther => untouched other (mem_cons_of_mem update isOther)

theorem finalStatus_outer (wellFormed : WellFormed db)
    (loads : Loads db (updates.map ZbxStatusUpdate.sourceid) itservices active)
    (applies : AppliesAll db active itservices updates added (storedStatus db) final)
    {service : Service} (isService : service ∈ db.services)
    (notInner : ¬ Inner db active service.serviceid) :
    finalStatus itservices final service =
      updates.foldl (fun status update =>
        if service.triggerid = some update.sourceid ∧ service.algorithm ≠ .none then update.status
        else status) service.status := by
  have isIndexed (update : ZbxStatusUpdate) (isUpdate : update ∈ updates) :
      service.serviceid ∈ itservices.index update.sourceid ↔
        service.triggerid = some update.sourceid := by
    rw [loads.index _ (mem_map_of_mem isUpdate)]
    constructor
    · rintro ⟨row, isRow, sameId, hasTrigger⟩
      exact wellFormed.service_unique isRow isService sameId ▸ hasTrigger
    · exact fun hasTrigger => ⟨service, isService, rfl, hasTrigger⟩
  rw [finalStatus]
  split
  next isLoaded =>
    obtain ⟨itservice, found⟩ := isSome_iff_exists.mp (isSome_search.mpr isLoaded)
    obtain ⟨row, isRow, sameId, -, -, sameAlgorithm⟩ := loads.loaded.same _ itservice found
    obtain rfl := wellFormed.service_unique isRow isService sameId
    have calculated : isCalculated itservices row.serviceid = true ↔ row.algorithm ≠ .none := by
      rw [isCalculated, found, any_some, decide_eq_true_iff, sameAlgorithm]
    rw [applies.outer _ notInner, storedStatus_eq wellFormed isService]
    refine foldl_ext _ _ _ fun status update isUpdate => ?_
    exact if_congr (and_congr (isIndexed update isUpdate) calculated) rfl rfl
  next notLoaded =>
    refine (foldl_untouched updates _ fun update isUpdate hasTrigger => notLoaded ?_).symm
    exact loads.activeLoaded _ (loads.leaf _ (mem_map_of_mem isUpdate) _
      ((isIndexed update isUpdate).mpr hasTrigger))

theorem foldl_trigger {service : Service} (isCalculated : service.algorithm ≠ .none)
    (updates : List ZbxStatusUpdate) (triggerStatus : Nat → Nat) :
    updates.foldl (fun status update =>
        if service.triggerid = some update.sourceid ∧ service.algorithm ≠ .none then update.status
        else status) (service.triggerid.elim 0 triggerStatus) =
      service.triggerid.elim 0 (afterUpdates triggerStatus updates) := by
  induction updates generalizing triggerStatus with
  | nil => rfl
  | cons update updates ih =>
    rw [foldl_cons, afterUpdates, foldl_cons]
    rw [show (if service.triggerid = some update.sourceid ∧ service.algorithm ≠ .none then
        update.status else service.triggerid.elim 0 triggerStatus) =
      service.triggerid.elim 0
        (Function.update triggerStatus update.sourceid update.status) from ?_]
    · exact ih _
    · cases hasTrigger : service.triggerid with
      | none => simp
      | some triggerid =>
        by_cases same : triggerid = update.sourceid
        · simp [same, isCalculated]
        · simp [same]

/-! ## The database after the updates -/

def afterFlush (db : Database) (itservices : ZbxItservices) (final : Nat → Nat)
    (added : List ZbxStatusUpdate) : Database :=
  { db with
    services := db.services.map fun service =>
      { service with status := finalStatus itservices final service }
    serviceAlarms := db.serviceAlarms ++ added }

theorem serviceids_afterFlush :
    serviceids (afterFlush db itservices final added) = serviceids db := by
  rw [serviceids, afterFlush, List.map_map]
  rfl

theorem isParent_afterFlush {child parent : Nat} :
    IsParent (afterFlush db itservices final added) child parent ↔ IsParent db child parent := by
  constructor
  · rintro ⟨link, isParent, isChild⟩
    rw [serviceids_afterFlush] at isParent isChild
    exact ⟨link, isParent, isChild⟩
  · rintro ⟨link, isParent, isChild⟩
    rw [← serviceids_afterFlush] at isParent isChild
    exact ⟨link, isParent, isChild⟩

theorem childStatuses_afterFlush :
    childStatuses (afterFlush db itservices final added) serviceid =
      finalStatuses db itservices final serviceid := by
  ext status
  constructor
  · rintro ⟨_, isChild, isParent, rfl⟩
    obtain ⟨child, isService, rfl⟩ := List.mem_map.mp isChild
    exact ⟨child, isService, isParent_afterFlush.mp isParent, rfl⟩
  · rintro ⟨child, isService, isParent, rfl⟩
    exact ⟨_, mem_map_of_mem isService, isParent_afterFlush.mpr isParent, rfl⟩

theorem storedStatus_severe (consistent : Consistent db triggerStatus) (serviceid : Nat) :
    storedStatus db serviceid < triggerSeverityCount := by
  rw [storedStatus]
  cases found : db.services.find? fun service => service.serviceid = serviceid with
  | none => decide
  | some service => exact (consistent service (mem_of_find?_eq_some found)).severity

theorem settled_of_consistent (wellFormed : WellFormed db)
    (loads : Loads db triggerids itservices active) (consistent : Consistent db triggerStatus)
    (isInner : Inner db active serviceid) :
    Settled (networkOf itservices) (storedStatus db) serviceid := by
  have isLoaded := loads.activeLoaded serviceid isInner.1
  obtain ⟨service, isService, rfl⟩ := mem_serviceids.mp (loads.loaded.mem_serviceids isLoaded)
  have isDefined := consistent service isService
  have sameStatuses : finalStatuses db itservices (storedStatus db) service.serviceid =
      childStatuses db service.serviceid := by
    ext status
    refine exists_congr fun child => and_congr_right fun isChild => and_congr_right fun _ => ?_
    rw [finalStatus_stored wellFormed isChild]
  rw [settled_iff wellFormed loads isService isInner (storedStatus_severe consistent),
    sameStatuses, storedStatus_eq wellFormed isService]
  exact ⟨fun isMax => isDefined.max isMax isInner.2, fun isMin => isDefined.min isMin isInner.2⟩

theorem finalStatus_unreached (wellFormed : WellFormed db)
    (loads : Loads db (updates.map ZbxStatusUpdate.sourceid) itservices active)
    (applies : AppliesAll db active itservices updates added (storedStatus db) final)
    {service : Service} (isService : service ∈ db.services)
    (notActive : ¬ active service.serviceid) :
    finalStatus itservices final service = service.status := by
  rw [finalStatus_outer wellFormed loads applies isService fun isInner => notActive isInner.1]
  refine foldl_untouched updates service.status fun update isUpdate hasTrigger => notActive ?_
  have isTrigger := mem_map_of_mem (f := ZbxStatusUpdate.sourceid) isUpdate
  exact loads.leaf _ isTrigger _ ((loads.index _ isTrigger _).mpr
    ⟨service, isService, rfl, hasTrigger⟩)

/-- All services have the statuses that are defined for them again. -/
theorem consistent_afterFlush (wellFormed : WellFormed db) (consistent : Consistent db triggerStatus)
    (loads : Loads db (updates.map ZbxStatusUpdate.sourceid) itservices active)
    (applies : AppliesAll db active itservices updates added (storedStatus db) final)
    (severe : ∀ update ∈ updates, update.status < triggerSeverityCount) :
    Consistent (afterFlush db itservices final added) (afterUpdates triggerStatus updates) := by
  have finalSevere := applies.severe (storedStatus_severe consistent) severe
  intro service' isAfter
  obtain ⟨service, isService, rfl⟩ := List.mem_map.mp isAfter
  have isDefined := consistent service isService
  have isSevere : finalStatus itservices final service < triggerSeverityCount := by
    rw [finalStatus]
    split
    · exact finalSevere _
    · exact isDefined.severity
  by_cases isInner : Inner db active service.serviceid
  · have settled := applies.settled
      (fun serviceid => settled_of_consistent wellFormed loads consistent) _ isInner
    rw [settled_iff wellFormed loads isService isInner finalSevere] at settled
    have isFinal : finalStatus itservices final service = final service.serviceid :=
      if_pos (loads.activeLoaded _ isInner.1)
    refine ⟨isSevere, fun _ noChild => ?_, fun isMax _ => ?_, fun isMin _ => ?_⟩
    · obtain ⟨child, isParent⟩ := isInner.2
      exact absurd (isParent_afterFlush.mpr isParent) (noChild child)
    · rw [childStatuses_afterFlush]
      dsimp only
      rw [isFinal]
      exact settled.1 isMax
    · rw [childStatuses_afterFlush]
      dsimp only
      rw [isFinal]
      exact settled.2 isMin
  · have outer := finalStatus_outer wellFormed loads applies isService isInner
    have unreached (someChild : ∃ child,
        IsParent (afterFlush db itservices final added) child service.serviceid) :
        (∃ child, IsParent db child service.serviceid) ∧
          finalStatus itservices final service = service.status ∧
          finalStatuses db itservices final service.serviceid =
            childStatuses db service.serviceid := by
      obtain ⟨child, isParent⟩ := someChild
      have isParent := isParent_afterFlush.mp isParent
      have notActive : ¬ active service.serviceid := fun isActive =>
        isInner ⟨isActive, child, isParent⟩
      refine ⟨⟨child, isParent⟩, finalStatus_unreached wellFormed loads applies isService notActive,
        ?_⟩
      ext status
      refine exists_congr fun other => and_congr_right fun isOther => and_congr_right fun isBelow => ?_
      rw [finalStatus_unreached wellFormed loads applies isOther fun isActive =>
        notActive (loads.closed _ isActive _ isBelow)]
    refine ⟨isSevere, fun isCalculated noChild => ?_, fun isMax someChild => ?_,
      fun isMin someChild => ?_⟩
    · have noChild : ∀ child, ¬ IsParent db child service.serviceid := fun child isParent =>
        noChild child (isParent_afterFlush.mpr isParent)
      dsimp only at isCalculated ⊢
      rw [outer, isDefined.leaf isCalculated noChild]
      exact foldl_trigger isCalculated updates triggerStatus
    · obtain ⟨someChild, same, sameStatuses⟩ := unreached someChild
      rw [childStatuses_afterFlush]
      dsimp only
      rw [same, sameStatuses]
      exact isDefined.max isMax someChild
    · obtain ⟨someChild, same, sameStatuses⟩ := unreached someChild
      rw [childStatuses_afterFlush]
      dsimp only
      rw [same, sameStatuses]
      exact isDefined.min isMin someChild

/-! ## The whole queue -/

def alarmStatuses (alarms : List ZbxStatusUpdate) (serviceid : Nat) : List Nat :=
  (alarms.filter fun alarm => alarm.sourceid = serviceid).map ZbxStatusUpdate.status

structure Updated (alarms : List ZbxStatusUpdate) (before after : Service) : Prop where
  serviceid : after.serviceid = before.serviceid
  triggerid : after.triggerid = before.triggerid
  algorithm : after.algorithm = before.algorithm
  alternates : (before.status :: alarmStatuses alarms before.serviceid).IsChain (· ≠ ·)
  last : (before.status :: alarmStatuses alarms before.serviceid).getLast (cons_ne_nil _ _) =
    after.status

theorem alarmStatuses_eq (alarms : List ZbxStatusUpdate) (serviceid : Nat) :
    alarmStatuses alarms serviceid = changesOf serviceid (alarms.map changeOf) := by
  rw [alarmStatuses, changesOf, List.filter_map, List.map_map]
  rfl

theorem finalStatus_eq (wellFormed : WellFormed db)
    (loads : Loads db triggerids itservices active)
    (applies : AppliesAll db active itservices updates added (storedStatus db) final)
    {service : Service} (isService : service ∈ db.services) :
    finalStatus itservices final service = final service.serviceid := by
  rw [finalStatus]
  split
  next => rfl
  next notLoaded =>
    have notInner : ¬ Inner db active service.serviceid := fun isInner =>
      notLoaded (loads.activeLoaded _ isInner.1)
    rw [applies.outer _ notInner, storedStatus_eq wellFormed isService, isCalculated,
      search_eq_none.mpr notLoaded]
    simp

theorem updated_afterFlush (wellFormed : WellFormed db)
    (loads : Loads db triggerids itservices active)
    (applies : AppliesAll db active itservices updates added (storedStatus db) final) :
    List.Forall₂ (Updated added) db.services (afterFlush db itservices final added).services := by
  rw [afterFlush, List.forall₂_map_right_iff, List.forall₂_same]
  intro service isService
  have changes := applies.replays.changesOf service.serviceid
  simp only [storedStatus_eq wellFormed isService, ← alarmStatuses_eq] at changes
  refine ⟨rfl, rfl, rfl, changes.1, changes.2.trans ?_⟩
  exact (finalStatus_eq wellFormed loads applies isService).symm

/-- When no service is loaded, nothing is to be done. -/
theorem AppliesAll.unloaded (isNone : itservices.itservices = []) (values : Nat → Nat) :
    AppliesAll db active itservices updates [] values values where
  replays := Replays.nil values
  outer := by
    intro serviceid _
    have notFound : itservices.search serviceid = none := by
      rw [ZbxItservices.search, isNone]
      rfl
    rw [isCalculated, notFound]
    simp
  settled := id
  severe := fun severe _ => severe

/-- `its_flush_updates` returns with consistent statuses again, and the alarms that it appends
go from the old status of a service to the one that is written. -/
theorem itsFlushUpdates_consistent (db : Database) (wellFormed : WellFormed db)
    (triggerStatus : Nat → Nat) (consistent : Consistent db triggerStatus)
    (updates : List ZbxStatusUpdate)
    (severe : ∀ update ∈ updates, update.status < triggerSeverityCount) (depth : Nat)
    (deep : db.services.length < depth) :
    ∃ after added, itsFlushUpdates depth db updates = some after ∧
      after.servicesLinks = db.servicesLinks ∧ after.serviceAlarms = db.serviceAlarms ++ added ∧
      Consistent after (afterUpdates triggerStatus updates) ∧
      List.Forall₂ (Updated added) db.services after.services := by
  obtain ⟨itservices, active, isLoaded, loads⟩ :=
    loadServices_loads wellFormed (updates.map ZbxStatusUpdate.sourceid) deep
  obtain ⟨added, final, flushed, applies⟩ : ∃ added final,
      itsFlushUpdates depth db updates = some (afterFlush db itservices final added) ∧
        AppliesAll db active itservices updates added (storedStatus db) final := by
    by_cases isNone : itservices.itservices = []
    · refine ⟨[], storedStatus db, ?_, AppliesAll.unloaded isNone (storedStatus db)⟩
      rw [itsFlushUpdates, isLoaded]
      change (if itservices.itservices = [] then some db else _) = _
      rw [if_pos isNone, afterFlush, append_nil]
      refine congrArg some (congrArg (fun services => { db with services }) ?_)
      refine ((map_congr_left fun service isService => ?_).trans (List.map_id _)).symm
      rw [finalStatus_stored wellFormed isService]
      rfl
    · obtain ⟨added, final, folded, applies⟩ := applyUpdates_spec wellFormed loads deep updates
        (fun update isUpdate => mem_map_of_mem isUpdate) (storedStatus db) []
      refine ⟨added, final, ?_, applies⟩
      rw [withStatuses_stored wellFormed loads.loaded] at folded
      rw [itsFlushUpdates, isLoaded]
      change (if itservices.itservices = [] then some db else
        (updates.foldlM (applyUpdate depth) (itservices, [])).bind fun session =>
          some (itsWriteStatusAndAlarms db session)) = _
      rw [if_neg isNone, folded, bind_some, itsWriteStatusAndAlarms,
        written_services loads.loaded final wellFormed]
      rfl
  exact ⟨_, added, flushed, rfl, rfl,
    consistent_afterFlush wellFormed consistent loads applies severe,
    updated_afterFlush wellFormed loads applies⟩

/-- A service that has a problem if one of two triggers has one. -/
def twoTriggers : Database where
  services := [⟨1, none, 0, .max⟩, ⟨2, some 100, 0, .max⟩, ⟨3, some 101, 0, .max⟩]
  servicesLinks := [⟨1, 2⟩, ⟨1, 3⟩]
  serviceAlarms := []

theorem twoTriggers_isParent {child parent : Nat} :
    IsParent twoTriggers child parent ↔ parent = 1 ∧ (child = 2 ∨ child = 3) := by
  constructor
  · rintro ⟨link, -, -⟩
    simpa [twoTriggers, and_or_left] using link
  · rintro ⟨rfl, rfl | rfl⟩ <;> exact ⟨by decide, by decide, by decide⟩

theorem twoTriggers_wellFormed : WellFormed twoTriggers where
  distinct := by decide
  leaves := by
    intro service isService hasTrigger child isParent
    have isRoot := (twoTriggers_isParent.mp isParent).1
    simp only [twoTriggers, mem_cons, not_mem_nil, or_false] at isService
    rcases isService with rfl | rfl | rfl
    · cases hasTrigger
    · cases isRoot
    · cases isRoot
  triggers := by decide
  acyclic := by
    have below {child above : Nat}
        (reached : Relation.TransGen (IsParent twoTriggers) child above) : above < child := by
      induction reached with
      | single isParent =>
        obtain ⟨rfl, rfl | rfl⟩ := twoTriggers_isParent.mp isParent <;> decide
      | tail _ isParent isBelow =>
        obtain ⟨rfl, isChild⟩ := twoTriggers_isParent.mp isParent
        omega
    exact fun serviceid reached => Nat.lt_irrefl serviceid (below reached)

theorem twoTriggers_consistent : Consistent twoTriggers fun _ => 0 := by
  intro service isService
  have allZero : ∀ other ∈ twoTriggers.services, other.status = 0 := by decide
  have isZero := allZero service isService
  refine ⟨isZero ▸ by decide, fun _ _ => ?_, fun _ someChild => ?_, fun isMin => ?_⟩
  · rw [isZero]
    cases service.triggerid <;> rfl
  · obtain ⟨child, isParent⟩ := someChild
    obtain ⟨row, isRow, rfl⟩ := mem_serviceids.mp isParent.isChild
    refine ⟨⟨row, isRow, isParent, (allZero row isRow).trans isZero.symm⟩, ?_⟩
    rintro status ⟨other, isOther, -, rfl⟩
    exact (allZero other isOther).le.trans (Nat.zero_le _)
  · have noneMin : ∀ other ∈ twoTriggers.services, other.algorithm ≠ .min := by decide
    exact absurd isMin (noneMin service isService)

theorem itsFlushUpdates_consistent_twoTriggers :
    ∃ after added, itsFlushUpdates 4 twoTriggers [⟨101, 4, 60⟩] = some after ∧
      after.servicesLinks = twoTriggers.servicesLinks ∧
      after.serviceAlarms = twoTriggers.serviceAlarms ++ added ∧
      Consistent after (afterUpdates (fun _ => 0) [⟨101, 4, 60⟩]) ∧
      List.Forall₂ (Updated added) twoTriggers.services after.services :=
  itsFlushUpdates_consistent twoTriggers twoTriggers_wellFormed (fun _ => 0)
    twoTriggers_consistent [⟨101, 4, 60⟩] (by decide) 4 (by decide)

/-- Both the service of the trigger and the one above it have an alarm. -/
example : itsFlushUpdates 4 twoTriggers [⟨101, 4, 60⟩] =
    some ⟨[⟨1, none, 4, .max⟩, ⟨2, some 100, 0, .max⟩, ⟨3, some 101, 4, .max⟩],
      [⟨1, 2⟩, ⟨1, 3⟩], [⟨3, 4, 60⟩, ⟨1, 4, 60⟩]⟩ := by
  decide

end Zabbix.Services.Consistency
