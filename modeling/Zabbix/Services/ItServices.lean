import Mathlib.Data.List.Sort
import Mathlib.Order.Bounds.Basic
import Zabbix.Library.Propagation

/-!
# The update of service statuses

`its_flush_updates` loads the services that depend on the triggers of an update queue, applies
the updates to them and writes the statuses and the alarms back.  A pointer to a service is
its id.  The two recursions of the source, up to the root services, are bounded by a depth.
-/

namespace Zabbix.Services.ItServices

def triggerSeverityCount : Nat := 6

/-- `SERVICE_ALGORITHM_*`, and the codes that are none of them. -/
inductive ServiceAlgorithm where
  | none
  | max
  | min
  | unknown (code : Nat)
deriving DecidableEq

/-! ## The database -/

/-- A row of `services`. -/
structure Service where
  serviceid : Nat
  triggerid : Option Nat
  status : Nat
  algorithm : ServiceAlgorithm
deriving DecidableEq

/-- A row of `services_links`. -/
structure ServiceLink where
  serviceupid : Nat
  servicedownid : Nat
deriving DecidableEq

/-- `zbx_status_update_t`: a status update of a trigger, or an alarm of a service. -/
structure ZbxStatusUpdate where
  sourceid : Nat
  status : Nat
  clock : Int
deriving DecidableEq

/-- The tables `services`, `services_links` and `service_alarms`. -/
structure Database where
  services : List Service
  servicesLinks : List ServiceLink
  serviceAlarms : List ZbxStatusUpdate
deriving DecidableEq

/-! ## The loaded services -/

/-- `zbx_itservice_t` -/
structure ZbxItservice where
  serviceid : Nat
  triggerid : Nat
  oldStatus : Nat
  status : Nat
  algorithm : ServiceAlgorithm
  parents : List Nat
  children : List Nat
deriving DecidableEq

/-- `zbx_itservices_t`: the loaded services, and those of each trigger. -/
structure ZbxItservices where
  itservices : List ZbxItservice
  index : Nat → List Nat

def itsItservicesInit : ZbxItservices where
  itservices := []
  index := fun _ => []

/-- `zbx_hashset_search` in the loaded services. -/
def ZbxItservices.search (itservices : ZbxItservices) (serviceid : Nat) : Option ZbxItservice :=
  itservices.itservices.find? fun itservice => itservice.serviceid = serviceid

def ZbxItservices.status (itservices : ZbxItservices) (serviceid : Nat) : Nat :=
  ((itservices.search serviceid).map ZbxItservice.status).getD 0

/-- A loaded service is changed. -/
def ZbxItservices.modify (itservices : ZbxItservices) (serviceid : Nat)
    (change : ZbxItservice → ZbxItservice) : ZbxItservices :=
  { itservices with
    itservices := itservices.itservices.map fun itservice =>
      if itservice.serviceid = serviceid then change itservice else itservice }

/-- `its_itservice_create`, of a service that is not loaded. -/
def itsItserviceCreate (itservices : ZbxItservices) (serviceid triggerid status : Nat)
    (algorithm : ServiceAlgorithm) : ZbxItservices where
  itservices := itservices.itservices ++
    [{ serviceid, triggerid, oldStatus := status, status, algorithm, parents := [],
       children := [] }]
  index :=
    if triggerid = 0 then itservices.index
    else Function.update itservices.index triggerid (itservices.index triggerid ++ [serviceid])

/-! ## Loading -/

/-- A service is searched for, and created as one without a trigger if it is not found. -/
def findOrCreate (itservices : ZbxItservices) (service : Service) : ZbxItservices :=
  match itservices.search service.serviceid with
  | some _ => itservices
  | none =>
    itsItserviceCreate itservices service.serviceid 0 service.status service.algorithm

def appendNew (vector : List Nat) (element : Nat) : List Nat :=
  if element ∈ vector then vector else vector ++ [element]

/-- A service is linked as a parent. -/
def addParent (parentid : Nat) (itservice : ZbxItservice) : ZbxItservice :=
  { itservice with parents := appendNew itservice.parents parentid }

/-- A service is linked as a child. -/
def addChild (childid : Nat) (itservice : ZbxItservice) : ZbxItservice :=
  { itservice with children := appendNew itservice.children childid }

/-- A row of the selects for parents and children: a service, and the other end of the link. -/
structure LinkRow where
  service : Service
  otherid : Nat

/-- The select of `its_itservices_load_parents`. -/
def selectParents (db : Database) (serviceids : List Nat) : List LinkRow :=
  db.services.flatMap fun service =>
    (db.servicesLinks.filter fun link =>
      link.serviceupid = service.serviceid ∧ link.servicedownid ∈ serviceids).map
        fun link => ⟨service, link.servicedownid⟩

/-- A row of `its_itservices_load_parents`; the second part are the ids of the parents that
have been created. -/
def loadParent (loading : ZbxItservices × List Nat) (row : LinkRow) : ZbxItservices × List Nat :=
  match loading.1.search row.otherid with
  | none => loading
  | some _ =>
    let parentid := row.service.serviceid
    ((findOrCreate loading.1 row.service).modify row.otherid (addParent parentid),
      if (loading.1.search parentid).isSome then loading.2 else loading.2 ++ [parentid])

def itsItservicesLoadParents (db : Database) :
    Nat → ZbxItservices → List Nat → Option ZbxItservices
  | 0, _, _ => none
  | depth + 1, itservices, serviceids =>
    let (itservices, serviceids) :=
      (selectParents db serviceids).foldl loadParent (itservices, [])
    if serviceids = [] then some itservices
    else itsItservicesLoadParents db depth itservices serviceids

/-- The select of `its_itservices_load_children`. -/
def selectChildren (db : Database) (serviceids : List Nat) : List LinkRow :=
  db.services.flatMap fun service =>
    (db.servicesLinks.filter fun link =>
      link.servicedownid = service.serviceid ∧ link.serviceupid ∈ serviceids).map
        fun link => ⟨service, link.serviceupid⟩

/-- A row of `its_itservices_load_children`. -/
def loadChild (itservices : ZbxItservices) (row : LinkRow) : ZbxItservices :=
  match itservices.search row.otherid with
  | none => itservices
  | some _ =>
    (findOrCreate itservices row.service).modify row.otherid
      (addChild row.service.serviceid)

def itsItservicesLoadChildren (db : Database) (itservices : ZbxItservices) : ZbxItservices :=
  let serviceids :=
    (itservices.itservices.filter fun itservice => itservice.triggerid = 0).map
      ZbxItservice.serviceid
  (selectChildren db serviceids).foldl loadChild itservices

/-- The select of `its_load_services_by_triggerids`. -/
def selectByTriggerids (db : Database) (triggerids : List Nat) : List Service :=
  db.services.filter fun service => service.triggerid.any fun triggerid => triggerid ∈ triggerids

/-- A row of `its_load_services_by_triggerids`. -/
def loadLeaf (itservices : ZbxItservices) (service : Service) : ZbxItservices :=
  itsItserviceCreate itservices service.serviceid (service.triggerid.getD 0) service.status
    service.algorithm

def itsLoadServicesByTriggerids (db : Database) (depth : Nat) (triggerids : List Nat) :
    Option ZbxItservices :=
  let services := selectByTriggerids db triggerids
  let itservices := services.foldl loadLeaf itsItservicesInit
  if services = [] then some itservices
  else
    (itsItservicesLoadParents db depth itservices (services.map Service.serviceid)).map
      (itsItservicesLoadChildren db)

/-! ## Updating the statuses -/

/-- The status that the algorithm of a service calculates from those of its children, if it
calculates one. -/
def calculatedStatus (status : Nat → Nat) (itservice : ZbxItservice) : Option Nat :=
  match itservice.algorithm with
  | .min =>
    some (itservice.children.foldl
      (fun least child => if status child < least then status child else least)
      triggerSeverityCount)
  | .max =>
    some (itservice.children.foldl
      (fun greatest child => if greatest < status child then status child else greatest) 0)
  | .none => none
  | .unknown _ => none

/-- The loaded services with the queue of alarms. -/
abbrev Session : Type :=
  ZbxItservices × List ZbxStatusUpdate

/-- A service gets another status, and an alarm is queued. -/
def changeStatus (session : Session) (serviceid status : Nat) (clock : Int) : Session :=
  (session.1.modify serviceid fun itservice => { itservice with status },
    session.2 ++ [⟨serviceid, status, clock⟩])

def itsItserviceUpdateStatus (clock : Int) : Nat → Nat → Session → Option Session
  | 0, _, _ => none
  | depth + 1, serviceid, session =>
    match session.1.search serviceid with
    | none => some session
    | some itservice =>
      match calculatedStatus session.1.status itservice with
      | none => some session
      | some status =>
        if itservice.status = status then some session
        else
          itservice.parents.foldlM
            (fun session parent => itsItserviceUpdateStatus clock depth parent session)
            (changeStatus session serviceid status clock)

def applyToLeaf (update : ZbxStatusUpdate) (session : Session) (serviceid : Nat) : Session :=
  match session.1.search serviceid with
  | none => session
  | some itservice =>
    if itservice.algorithm = .none ∨ itservice.status = update.status then session
    else changeStatus session serviceid update.status update.clock

def updateParents (depth : Nat) (clock : Int) (session : Session) (serviceid : Nat) :
    Option Session :=
  match session.1.search serviceid with
  | none => some session
  | some itservice =>
    itservice.parents.foldlM
      (fun session parent => itsItserviceUpdateStatus clock depth parent session) session

def applyUpdate (depth : Nat) (session : Session) (update : ZbxStatusUpdate) : Option Session :=
  let leaves := session.1.index update.sourceid
  leaves.foldlM (updateParents depth update.clock) (leaves.foldl (applyToLeaf update) session)

/-! ## Writing -/

/-- `update services set status=... where serviceid=...` -/
def updateServiceStatus (services : List Service) (update : ZbxStatusUpdate) : List Service :=
  services.map fun service =>
    if service.serviceid = update.sourceid then { service with status := update.status }
    else service

/-- The list of status updates of `its_write_status_and_alarms`, in the order of the ids.  No
service is loaded twice, so that `zbx_vector_ptr_uniq` has nothing to remove. -/
def statusUpdates (itservices : ZbxItservices) : List ZbxStatusUpdate :=
  ((itservices.itservices.filter fun itservice => itservice.oldStatus ≠ itservice.status).map
    fun itservice => ⟨itservice.serviceid, itservice.status, 0⟩).insertionSort
      fun first second => first.sourceid ≤ second.sourceid

def itsWriteStatusAndAlarms (db : Database) (session : Session) : Database :=
  { db with
    services := (statusUpdates session.1).foldl updateServiceStatus db.services
    serviceAlarms := db.serviceAlarms ++ session.2 }

def itsFlushUpdates (depth : Nat) (db : Database) (updates : List ZbxStatusUpdate) :
    Option Database := do
  let itservices ←
    itsLoadServicesByTriggerids db depth (updates.map ZbxStatusUpdate.sourceid)
  if itservices.itservices = [] then some db
  else
    let session ← updates.foldlM (applyUpdate depth) (itservices, [])
    some (itsWriteStatusAndAlarms db session)

end Zabbix.Services.ItServices

/-!
# The tree of services and the statuses it defines

A service may have several parents.  The status of a service with children is the greatest
or the least status of its children; a service without children has the status of its trigger.
-/

namespace Zabbix.Services.ServiceTree

open Library.Propagation ItServices List

def serviceids (db : Database) : List Nat :=
  db.services.map Service.serviceid

/-- One service is linked as a parent of another. -/
structure IsParent (db : Database) (child parent : Nat) : Prop where
  link : ⟨parent, child⟩ ∈ db.servicesLinks
  isParent : parent ∈ serviceids db
  isChild : child ∈ serviceids db

/-- The links make a tree, in which only services without children have triggers. -/
structure WellFormed (db : Database) : Prop where
  distinct : (serviceids db).Nodup
  leaves : ∀ service ∈ db.services, service.triggerid.isSome →
    ∀ child, ¬ IsParent db child service.serviceid
  triggers : ∀ service ∈ db.services, service.triggerid ≠ some 0
  acyclic : ∀ serviceid, ¬ Relation.TransGen (IsParent db) serviceid serviceid

def childStatuses (db : Database) (serviceid : Nat) : Set Nat :=
  {status | ∃ child ∈ db.services, IsParent db child.serviceid serviceid ∧ child.status = status}

/-- The status of a service is the one that is defined for it; triggers have the statuses
`triggerStatus`. -/
structure HasDefinedStatus (db : Database) (triggerStatus : Nat → Nat) (service : Service) :
    Prop where
  severity : service.status < triggerSeverityCount
  leaf : service.algorithm ≠ .none → (∀ child, ¬ IsParent db child service.serviceid) →
    service.status = service.triggerid.elim 0 triggerStatus
  max : service.algorithm = .max → (∃ child, IsParent db child service.serviceid) →
    IsGreatest (childStatuses db service.serviceid) service.status
  min : service.algorithm = .min → (∃ child, IsParent db child service.serviceid) →
    IsLeast (childStatuses db service.serviceid) service.status

/-- All services have the statuses that are defined for them. -/
def Consistent (db : Database) (triggerStatus : Nat → Nat) : Prop :=
  ∀ service ∈ db.services, HasDefinedStatus db triggerStatus service

def afterUpdates (triggerStatus : Nat → Nat) (updates : List ZbxStatusUpdate) : Nat → Nat :=
  updates.foldl (fun status update => Function.update status update.sourceid update.status)
    triggerStatus

/-! ## Services by id -/

variable {db : Database} {first second : Service} {child parent serviceid : Nat}

theorem WellFormed.service_unique (wellFormed : WellFormed db) (isFirst : first ∈ db.services)
    (isSecond : second ∈ db.services) (same : first.serviceid = second.serviceid) :
    first = second :=
  inj_on_of_nodup_map wellFormed.distinct isFirst isSecond same

theorem mem_serviceids : serviceid ∈ serviceids db ↔
    ∃ service ∈ db.services, service.serviceid = serviceid :=
  List.mem_map

/-! ## Heights -/

/-- The number of services above a service. -/
noncomputable def height (db : Database) : Nat → Nat :=
  rankOf (IsParent db) (serviceids db).toFinset

theorem height_lt (wellFormed : WellFormed db) (isParent : IsParent db child parent) :
    height db parent < height db child :=
  rankOf_lt wellFormed.acyclic isParent (List.mem_toFinset.mpr isParent.isParent)

theorem height_le (db : Database) (serviceid : Nat) : height db serviceid ≤ db.services.length := by
  calc
    height db serviceid ≤ (serviceids db).toFinset.card := rankOf_le serviceid
    _ ≤ (serviceids db).length := toFinset_card_le _
    _ = db.services.length := length_map _

end Zabbix.Services.ServiceTree
