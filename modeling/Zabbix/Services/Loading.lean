import Zabbix.Services.ItServices

/-!
# What is loaded

The services of the triggers are loaded with all the services above them, each with its
parents, and then the children of those above.  The other services that are loaded are left
without links.
-/

namespace Zabbix.Services.Loading

open ItServices ServiceTree List List
open Option hiding mem_map or_assoc map_map

variable {db : Database} {itservices : ZbxItservices} {service : Service}
variable {serviceid otherid : Nat}

/-! ## Searching -/

def loadedIds (itservices : ZbxItservices) : List Nat :=
  itservices.itservices.map ZbxItservice.serviceid

theorem serviceid_of_search {itservice : ZbxItservice}
    (found : itservices.search serviceid = some itservice) : itservice.serviceid = serviceid := by
  simpa using find?_some found

theorem isSome_search : (itservices.search serviceid).isSome ↔ serviceid ∈ loadedIds itservices := by
  rw [ZbxItservices.search, find?_isSome, loadedIds, mem_map]
  exact exists_congr fun itservice => and_congr_right fun _ => decide_eq_true_iff

theorem search_eq_none : itservices.search serviceid = none ↔ serviceid ∉ loadedIds itservices := by
  rw [← isSome_search, not_isSome_iff_eq_none]

theorem search_modify {change : ZbxItservice → ZbxItservice}
    (keeps : ∀ itservice, (change itservice).serviceid = itservice.serviceid)
    (itservices : ZbxItservices) (serviceid otherid : Nat) :
    (itservices.modify serviceid change).search otherid =
      if otherid = serviceid then (itservices.search otherid).map change
      else itservices.search otherid := by
  rw [ZbxItservices.search, ZbxItservices.modify, ZbxItservices.search]
  induction itservices.itservices with
  | nil => simp
  | cons itservice rest ih =>
    rw [map_cons, find?_cons, find?_cons]
    by_cases isOther : itservice.serviceid = otherid
    · by_cases isChanged : itservice.serviceid = serviceid
      · rw [if_pos isChanged, keeps, if_pos (isOther.symm.trans isChanged),
          decide_eq_true isOther]
        rfl
      · rw [if_neg isChanged, if_neg (fun same => isChanged (isOther.trans same)),
          decide_eq_true isOther]
    · have stays : (if itservice.serviceid = serviceid then change itservice
          else itservice).serviceid = itservice.serviceid := by
        split
        · exact keeps itservice
        · rfl
      rw [stays, decide_eq_false isOther]
      exact ih

theorem loadedIds_modify {change : ZbxItservice → ZbxItservice}
    (keeps : ∀ itservice, (change itservice).serviceid = itservice.serviceid)
    (itservices : ZbxItservices) (serviceid : Nat) :
    loadedIds (itservices.modify serviceid change) = loadedIds itservices := by
  rw [loadedIds, ZbxItservices.modify, map_map, loadedIds]
  refine map_congr_left fun itservice _ => ?_
  rw [Function.comp_apply]
  split
  · exact keeps itservice
  · rfl

theorem search_create (itservices : ZbxItservices) (triggerid status : Nat)
    (algorithm : ServiceAlgorithm) :
    (itsItserviceCreate itservices serviceid triggerid status algorithm).search otherid =
      (itservices.search otherid).or
        (if serviceid = otherid then
          some ⟨serviceid, triggerid, status, status, algorithm, [], []⟩
        else none) := by
  rw [ZbxItservices.search, itsItserviceCreate, find?_append, ZbxItservices.search]
  refine congrArg _ ?_
  rw [find?_singleton]
  by_cases same : serviceid = otherid <;> simp [same]

/-! ## The fields of a loaded service -/

/-- The vector `parents` of a service. -/
def parentsOf (itservices : ZbxItservices) (serviceid : Nat) : List Nat :=
  ((itservices.search serviceid).map ZbxItservice.parents).getD []

/-- The vector `children` of a service. -/
def childrenOf (itservices : ZbxItservices) (serviceid : Nat) : List Nat :=
  ((itservices.search serviceid).map ZbxItservice.children).getD []

/-- The `triggerid` of a service. -/
def triggerOf (itservices : ZbxItservices) (serviceid : Nat) : Nat :=
  ((itservices.search serviceid).map ZbxItservice.triggerid).getD 0

/-- The loaded services are services of the database, each of them loaded once. -/
structure Loaded (db : Database) (itservices : ZbxItservices) : Prop where
  distinct : (loadedIds itservices).Nodup
  same : ∀ serviceid itservice, itservices.search serviceid = some itservice →
    ∃ service ∈ db.services, service.serviceid = serviceid ∧
      itservice.oldStatus = service.status ∧ itservice.status = service.status ∧
      itservice.algorithm = service.algorithm

theorem Loaded.create (loaded : Loaded db itservices) (isService : service ∈ db.services)
    (isNew : itservices.search service.serviceid = none) (triggerid : Nat) :
    Loaded db (itsItserviceCreate itservices service.serviceid triggerid service.status
      service.algorithm) where
  distinct := by
    rw [loadedIds, itsItserviceCreate, map_append, map_singleton]
    refine nodup_append.mpr ⟨loaded.distinct, nodup_singleton _, ?_⟩
    intro old isOld new isNewId
    rw [mem_singleton.mp isNewId]
    intro same
    change old = service.serviceid at same
    exact search_eq_none.mp isNew (same ▸ isOld)
  same := by
    intro serviceid itservice found
    rw [search_create] at found
    rcases or_eq_some_iff.mp found with isOld | ⟨-, isCreated⟩
    · exact loaded.same serviceid itservice isOld
    · split at isCreated
      next isId =>
        obtain rfl := some.inj isCreated
        exact ⟨service, isService, isId, rfl, rfl, rfl⟩
      next => cases isCreated

theorem Loaded.modify (loaded : Loaded db itservices) {change : ZbxItservice → ZbxItservice}
    (keeps : ∀ itservice, (change itservice).serviceid = itservice.serviceid ∧
      (change itservice).oldStatus = itservice.oldStatus ∧
      (change itservice).status = itservice.status ∧
      (change itservice).algorithm = itservice.algorithm) :
    Loaded db (itservices.modify serviceid change) where
  distinct := by
    rw [loadedIds_modify fun itservice => (keeps itservice).1]
    exact loaded.distinct
  same := by
    intro otherid itservice found
    rw [search_modify fun itservice => (keeps itservice).1] at found
    split at found
    · obtain ⟨before, isBefore, rfl⟩ := map_eq_some_iff.mp found
      obtain ⟨-, old, status, algorithm⟩ := keeps before
      rw [old, status, algorithm]
      exact loaded.same otherid before isBefore
    · exact loaded.same otherid itservice found

/-! ## Finding or creating -/

theorem loadedIds_findOrCreate (itservices : ZbxItservices) (service : Service) :
    serviceid ∈ loadedIds (findOrCreate itservices service) ↔
      serviceid ∈ loadedIds itservices ∨ service.serviceid = serviceid := by
  rw [findOrCreate]
  split
  next itservice found =>
    refine ⟨Or.inl, fun isIn => isIn.elim id fun same => same ▸ isSome_search.mp ?_⟩
    rw [found]
    rfl
  next =>
    rw [loadedIds, itsItserviceCreate, map_append, map_singleton, mem_append,
      mem_singleton, eq_comm (a := serviceid)]
    rfl

theorem search_findOrCreate {Field : Type} (field : ZbxItservice → Field) (default : Field)
    (fresh : ∀ serviceid status algorithm,
      field ⟨serviceid, 0, status, status, algorithm, [], []⟩ = default)
    (itservices : ZbxItservices) (service : Service) (serviceid : Nat) :
    (((findOrCreate itservices service).search serviceid).map field).getD default =
      ((itservices.search serviceid).map field).getD default := by
  rw [findOrCreate]
  split
  · rfl
  · rw [search_create]
    cases itservices.search serviceid with
    | some itservice => rfl
    | none =>
      rw [none_or]
      split
      · exact fresh _ _ _
      · rfl

theorem triggerOf_findOrCreate (itservices : ZbxItservices) (service : Service) (serviceid : Nat) :
    triggerOf (findOrCreate itservices service) serviceid = triggerOf itservices serviceid :=
  search_findOrCreate ZbxItservice.triggerid 0 (fun _ _ _ => rfl) itservices service serviceid

@[simp]
theorem index_findOrCreate (itservices : ZbxItservices) (service : Service) :
    (findOrCreate itservices service).index = itservices.index := by
  rw [findOrCreate]
  split <;> rfl

theorem Loaded.findOrCreate (loaded : Loaded db itservices) (isService : service ∈ db.services) :
    Loaded db (ItServices.findOrCreate itservices service) := by
  rw [ItServices.findOrCreate]
  split
  · exact loaded
  next isNew => exact loaded.create isService isNew 0

/-! ## Changing a field -/

theorem search_modify_same {Field : Type} (field : ZbxItservice → Field) (default : Field)
    {change : ZbxItservice → ZbxItservice}
    (keeps : ∀ itservice, (change itservice).serviceid = itservice.serviceid)
    (same : ∀ itservice, field (change itservice) = field itservice)
    (itservices : ZbxItservices) (serviceid otherid : Nat) :
    (((itservices.modify serviceid change).search otherid).map field).getD default =
      ((itservices.search otherid).map field).getD default := by
  rw [search_modify keeps]
  split
  · cases itservices.search otherid with
    | none => rfl
    | some itservice => exact same itservice
  · rfl

theorem mem_appendNew {vector : List Nat} {element other : Nat} :
    other ∈ appendNew vector element ↔ other ∈ vector ∨ element = other := by
  rw [appendNew]
  split
  next isIn => exact ⟨Or.inl, fun isOther => isOther.elim id fun same => same ▸ isIn⟩
  next => rw [mem_append, mem_singleton, eq_comm (a := other)]

theorem mem_search_modify {field : ZbxItservice → List Nat} {change : ZbxItservice → ZbxItservice}
    {element other : Nat}
    (keeps : ∀ itservice, (change itservice).serviceid = itservice.serviceid)
    (appends : ∀ itservice, field (change itservice) = appendNew (field itservice) element)
    (isLoaded : serviceid ∈ loadedIds itservices) (otherid : Nat) :
    other ∈ (((itservices.modify serviceid change).search otherid).map field).getD [] ↔
      other ∈ ((itservices.search otherid).map field).getD [] ∨
        serviceid = otherid ∧ element = other := by
  rw [search_modify keeps]
  split
  next same =>
    obtain ⟨itservice, found⟩ := isSome_iff_exists.mp (isSome_search.mpr isLoaded)
    rw [same, found]
    change other ∈ field (change itservice) ↔ other ∈ field itservice ∨ _
    rw [appends, mem_appendNew]
    exact or_congr_right ⟨fun isOther => ⟨rfl, isOther⟩, And.right⟩
  next notSame =>
    exact ⟨Or.inl, fun isIn => isIn.elim id fun isNew => absurd isNew.1.symm notSame⟩

/-! ## Loading links -/

/-- What rows of links do to the loaded services: one vector of ids grows, the other is kept. -/
structure LoadsLinks (field kept : ZbxItservices → Nat → List Nat) (rows : List LinkRow)
    (before after : ZbxItservices) : Prop where
  ids : ∀ serviceid, serviceid ∈ loadedIds after ↔
    serviceid ∈ loadedIds before ∨ ∃ row ∈ rows, row.service.serviceid = serviceid
  links : ∀ serviceid other, other ∈ field after serviceid ↔ other ∈ field before serviceid ∨
    ∃ row ∈ rows, row.otherid = serviceid ∧ row.service.serviceid = other
  kept : ∀ serviceid, kept after serviceid = kept before serviceid
  triggers : ∀ serviceid, triggerOf after serviceid = triggerOf before serviceid
  index : after.index = before.index

theorem LoadsLinks.cons {field kept : ZbxItservices → Nat → List Nat} {row : LinkRow}
    {rows : List LinkRow} {before middle after : ZbxItservices}
    (first : LoadsLinks field kept [row] before middle)
    (rest : LoadsLinks field kept rows middle after) :
    LoadsLinks field kept (row :: rows) before after where
  ids serviceid := by
    rw [rest.ids, first.ids]
    simp [or_assoc]
  links serviceid other := by
    rw [rest.links, first.links]
    simp [or_assoc]
  kept serviceid := (rest.kept serviceid).trans (first.kept serviceid)
  triggers serviceid := (rest.triggers serviceid).trans (first.triggers serviceid)
  index := rest.index.trans first.index

theorem loadLink_loads {field kept : ZbxItservice → List Nat}
    {change : ZbxItservice → ZbxItservice} {row : LinkRow}
    (isLoaded : row.otherid ∈ loadedIds itservices)
    (areFresh : ∀ serviceid status algorithm,
      field ⟨serviceid, 0, status, status, algorithm, [], []⟩ = [] ∧
        kept ⟨serviceid, 0, status, status, algorithm, [], []⟩ = [])
    (changes : ∀ itservice, (change itservice).serviceid = itservice.serviceid ∧
      field (change itservice) = appendNew (field itservice) row.service.serviceid ∧
      kept (change itservice) = kept itservice ∧
      (change itservice).triggerid = itservice.triggerid) :
    LoadsLinks (fun itservices id => ((itservices.search id).map field).getD [])
      (fun itservices id => ((itservices.search id).map kept).getD []) [row] itservices
      ((findOrCreate itservices row.service).modify row.otherid change) := by
  have keeps itservice := (changes itservice).1
  have isStill : row.otherid ∈ loadedIds (findOrCreate itservices row.service) :=
    (loadedIds_findOrCreate itservices row.service).mpr (Or.inl isLoaded)
  constructor
  · intro serviceid
    rw [loadedIds_modify keeps, loadedIds_findOrCreate]
    simp
  · intro serviceid other
    rw [mem_search_modify keeps (fun itservice => (changes itservice).2.1) isStill,
      search_findOrCreate field [] fun _ _ _ => (areFresh _ _ _).1]
    simp
  · intro serviceid
    exact (search_modify_same _ _ keeps (fun itservice => (changes itservice).2.2.1) _ _ _).trans
      (search_findOrCreate kept [] (fun _ _ _ => (areFresh _ _ _).2) _ _ _)
  · intro serviceid
    exact (search_modify_same _ _ keeps (fun itservice => (changes itservice).2.2.2) _ _ _).trans
      (triggerOf_findOrCreate itservices row.service serviceid)
  · exact index_findOrCreate itservices row.service

/-! ## Loading parents -/

/-- What rows of a select for parents do to the loaded services and the created ids. -/
structure LoadsParents (rows : List LinkRow) (before after : ZbxItservices × List Nat) :
    Prop extends LoadsLinks parentsOf childrenOf rows before.1 after.1 where
  created : ∀ serviceid, serviceid ∈ after.2 ↔
    serviceid ∈ before.2 ∨
      serviceid ∉ loadedIds before.1 ∧ ∃ row ∈ rows, row.service.serviceid = serviceid

theorem loadParent_loads (before : ZbxItservices × List Nat) (row : LinkRow)
    (isLoaded : row.otherid ∈ loadedIds before.1) :
    LoadsParents [row] before (loadParent before row) := by
  obtain ⟨itservice, found⟩ := isSome_iff_exists.mp (isSome_search.mpr isLoaded)
  rw [loadParent, found]
  refine ⟨loadLink_loads isLoaded (fun _ _ _ => ⟨rfl, rfl⟩) fun _ => ⟨rfl, rfl, rfl, rfl⟩, ?_⟩
  intro serviceid
  dsimp only
  split
  next isOld =>
    refine ⟨Or.inl, fun isIn => isIn.elim id fun isNew => ?_⟩
    obtain ⟨notLoaded, other, isRow, same⟩ := isNew
    rw [mem_singleton.mp isRow] at same
    exact absurd (same ▸ isSome_search.mp isOld) notLoaded
  next isNew =>
    have notLoaded : row.service.serviceid ∉ loadedIds before.1 :=
      fun isOld => isNew (isSome_search.mpr isOld)
    rw [mem_append, mem_singleton]
    refine or_congr_right ⟨fun same => ?_, fun isCreated => ?_⟩
    · exact ⟨same ▸ notLoaded, row, mem_singleton_self row, same.symm⟩
    · obtain ⟨-, other, isRow, same⟩ := isCreated
      rw [mem_singleton.mp isRow] at same
      exact same.symm

theorem loadParents_loads (rows : List LinkRow) (before : ZbxItservices × List Nat)
    (areLoaded : ∀ row ∈ rows, row.otherid ∈ loadedIds before.1) :
    LoadsParents rows before (rows.foldl loadParent before) := by
  induction rows generalizing before with
  | nil => constructor <;> [constructor <;> simp; simp]
  | cons row rows ih =>
    have first := loadParent_loads before row (areLoaded row mem_cons_self)
    have rest := ih (loadParent before row) fun other isOther =>
      (first.ids other.otherid).mpr (Or.inl (areLoaded other (mem_cons_of_mem row isOther)))
    refine ⟨first.toLoadsLinks.cons rest.toLoadsLinks, fun serviceid => ?_⟩
    rw [foldl_cons, rest.created, first.created, first.ids]
    by_cases isFirst : row.service.serviceid = serviceid
    · simp [isFirst]
    · simp [isFirst]

theorem loadParents_loaded (rows : List LinkRow) (before : ZbxItservices × List Nat)
    (loaded : Loaded db before.1) (areServices : ∀ row ∈ rows, row.service ∈ db.services) :
    Loaded db (rows.foldl loadParent before).1 := by
  induction rows generalizing before with
  | nil => exact loaded
  | cons row rows ih =>
    refine ih (loadParent before row) ?_ fun other isOther =>
      areServices other (mem_cons_of_mem row isOther)
    rw [loadParent]
    split
    · exact loaded
    · exact (loaded.findOrCreate (areServices row mem_cons_self)).modify
        fun _ => ⟨rfl, rfl, rfl, rfl⟩

theorem mem_selectParents {row : LinkRow} {ids : List Nat} :
    row ∈ selectParents db ids ↔
      row.service ∈ db.services ∧ ⟨row.service.serviceid, row.otherid⟩ ∈ db.servicesLinks ∧
        row.otherid ∈ ids := by
  rw [selectParents, mem_flatMap]
  constructor
  · rintro ⟨service, isService, isRow⟩
    obtain ⟨⟨up, down⟩, isLink, rfl⟩ := mem_map.mp isRow
    obtain ⟨isLink, conditions⟩ := mem_filter.mp isLink
    obtain ⟨rfl, isDown⟩ := of_decide_eq_true conditions
    exact ⟨isService, isLink, isDown⟩
  · rintro ⟨isService, isLink, isDown⟩
    refine ⟨row.service, isService, mem_map.mpr ⟨⟨_, _⟩, mem_filter.mpr ⟨isLink, ?_⟩, rfl⟩⟩
    exact decide_eq_true ⟨rfl, isDown⟩

theorem exists_selectParents {ids : List Nat} (areServices : ∀ other ∈ ids, other ∈ serviceids db)
    {parent : Nat} :
    (∃ row ∈ selectParents db ids, row.otherid = serviceid ∧ row.service.serviceid = parent) ↔
      serviceid ∈ ids ∧ IsParent db serviceid parent := by
  constructor
  · rintro ⟨row, isRow, rfl, rfl⟩
    obtain ⟨isService, isLink, isDown⟩ := mem_selectParents.mp isRow
    exact ⟨isDown, isLink, mem_map_of_mem isService, areServices _ isDown⟩
  · rintro ⟨isDown, isParent⟩
    obtain ⟨service, isService, rfl⟩ := mem_serviceids.mp isParent.isParent
    exact ⟨⟨service, serviceid⟩, mem_selectParents.mpr ⟨isService, isParent.link, isDown⟩, rfl, rfl⟩

/-! ## Up to the root services -/

/-- Some loaded services wait for their parents, the others have them all. -/
structure HasParents (db : Database) (waiting : List Nat) (itservices : ZbxItservices) : Prop where
  loaded : Loaded db itservices
  waits : ∀ serviceid ∈ waiting, serviceid ∈ loadedIds itservices ∧
    parentsOf itservices serviceid = []
  complete : ∀ serviceid ∈ loadedIds itservices, serviceid ∉ waiting → ∀ parent,
    parent ∈ parentsOf itservices serviceid ↔ IsParent db serviceid parent
  closed : ∀ serviceid ∈ loadedIds itservices, serviceid ∉ waiting → ∀ parent,
    IsParent db serviceid parent → parent ∈ loadedIds itservices

/-- More services are loaded, all of them above others; nothing but links is added. -/
structure Grows (db : Database) (before after : ZbxItservices) : Prop where
  ids : ∀ serviceid ∈ loadedIds before, serviceid ∈ loadedIds after
  above : ∀ serviceid ∈ loadedIds after, serviceid ∉ loadedIds before →
    ∃ child, IsParent db child serviceid
  children : ∀ serviceid, childrenOf after serviceid = childrenOf before serviceid
  triggers : ∀ serviceid, triggerOf after serviceid = triggerOf before serviceid
  index : after.index = before.index

theorem Grows.trans {before middle after : ZbxItservices} (first : Grows db before middle)
    (second : Grows db middle after) :
    Grows db before after where
  ids := fun serviceid isLoaded => second.ids serviceid (first.ids serviceid isLoaded)
  above := by
    intro serviceid isLoaded isNew
    by_cases isMiddle : serviceid ∈ loadedIds middle
    · exact first.above serviceid isMiddle isNew
    · exact second.above serviceid isLoaded isMiddle
  children := fun serviceid => (second.children serviceid).trans (first.children serviceid)
  triggers := fun serviceid => (second.triggers serviceid).trans (first.triggers serviceid)
  index := second.index.trans first.index

theorem Loaded.mem_serviceids (loaded : Loaded db itservices)
    (isLoaded : serviceid ∈ loadedIds itservices) : serviceid ∈ serviceids db := by
  obtain ⟨itservice, found⟩ := isSome_iff_exists.mp (isSome_search.mpr isLoaded)
  obtain ⟨service, isService, same, -⟩ := loaded.same serviceid itservice found
  exact ServiceTree.mem_serviceids.mpr ⟨service, isService, same⟩

theorem parentsOf_of_not_loaded (notLoaded : serviceid ∉ loadedIds itservices) :
    parentsOf itservices serviceid = [] := by
  rw [parentsOf, search_eq_none.mpr notLoaded]
  rfl

theorem HasParents.turn {waiting : List Nat} (parents : HasParents db waiting itservices) :
    HasParents db ((selectParents db waiting).foldl loadParent (itservices, [])).2
        ((selectParents db waiting).foldl loadParent (itservices, [])).1 ∧
      Grows db itservices ((selectParents db waiting).foldl loadParent (itservices, [])).1 ∧
      ∀ serviceid ∈ ((selectParents db waiting).foldl loadParent (itservices, [])).2,
        serviceid ∉ loadedIds itservices := by
  have areServices : ∀ other ∈ waiting, other ∈ serviceids db := fun other isWaiting =>
    parents.loaded.mem_serviceids (parents.waits other isWaiting).1
  have loads := loadParents_loads (selectParents db waiting) (itservices, []) fun row isRow =>
    (parents.waits row.otherid (mem_selectParents.mp isRow).2.2).1
  have loaded := loadParents_loaded (selectParents db waiting) (itservices, []) parents.loaded
    fun row isRow => (mem_selectParents.mp isRow).1
  generalize (selectParents db waiting).foldl loadParent (itservices, []) = after at loads loaded ⊢
  have areParents (serviceid parent : Nat) : parent ∈ parentsOf after.1 serviceid ↔
      parent ∈ parentsOf itservices serviceid ∨
        serviceid ∈ waiting ∧ IsParent db serviceid parent := by
    rw [loads.links, exists_selectParents areServices]
  have areCreated (serviceid : Nat) : serviceid ∈ after.2 ↔
      serviceid ∉ loadedIds itservices ∧
        ∃ row ∈ selectParents db waiting, row.service.serviceid = serviceid := by
    rw [loads.created]
    exact or_iff_right not_mem_nil
  have isBefore {serviceid : Nat} (isLoaded : serviceid ∈ loadedIds after.1)
      (notCreated : serviceid ∉ after.2) : serviceid ∈ loadedIds itservices := by
    by_contra isNew
    refine notCreated ((areCreated serviceid).mpr ⟨isNew, ?_⟩)
    exact ((loads.ids serviceid).mp isLoaded).resolve_left isNew
  refine ⟨⟨loaded, ?_, ?_, ?_⟩, ⟨?_, ?_, loads.kept, loads.triggers, loads.index⟩, ?_⟩
  · intro serviceid isCreated
    obtain ⟨isNew, isRow⟩ := (areCreated serviceid).mp isCreated
    refine ⟨(loads.ids serviceid).mpr (Or.inr isRow), eq_nil_iff_forall_not_mem.mpr ?_⟩
    intro parent isParent
    rcases (areParents serviceid parent).mp isParent with isOld | ⟨isWaiting, -⟩
    · rw [parentsOf_of_not_loaded isNew] at isOld
      cases isOld
    · exact isNew (parents.waits serviceid isWaiting).1
  · intro serviceid isLoaded notCreated parent
    have isOld := isBefore isLoaded notCreated
    rw [areParents]
    by_cases isWaiting : serviceid ∈ waiting
    · simp [isWaiting, (parents.waits serviceid isWaiting).2]
    · simp [isWaiting, parents.complete serviceid isOld isWaiting]
  · intro serviceid isLoaded notCreated parent isParent
    have isOld := isBefore isLoaded notCreated
    by_cases isWaiting : serviceid ∈ waiting
    · obtain ⟨row, isRow, -, same⟩ :=
        (exists_selectParents areServices).mpr ⟨isWaiting, isParent⟩
      exact (loads.ids parent).mpr (Or.inr ⟨row, isRow, same⟩)
    · exact (loads.ids parent).mpr
        (Or.inl (parents.closed serviceid isOld isWaiting parent isParent))
  · exact fun serviceid isLoaded => (loads.ids serviceid).mpr (Or.inl isLoaded)
  · intro serviceid isLoaded isNew
    obtain ⟨row, isRow, same⟩ := ((loads.ids serviceid).mp isLoaded).resolve_left isNew
    have isParent := (exists_selectParents areServices).mp ⟨row, isRow, rfl, same⟩
    exact ⟨row.otherid, isParent.2⟩
  · exact fun serviceid isCreated => ((areCreated serviceid).mp isCreated).1

/-- The services that are not loaded. -/
def unloaded (db : Database) (itservices : ZbxItservices) : Finset Nat :=
  (serviceids db).toFinset \ (loadedIds itservices).toFinset

theorem mem_unloaded : serviceid ∈ unloaded db itservices ↔
    serviceid ∈ serviceids db ∧ serviceid ∉ loadedIds itservices := by
  simp [unloaded]

/-- The recursion returns when it may go as deep as there are services to be loaded. -/
theorem loadParents_spec {depth : Nat} {waiting : List Nat}
    (parents : HasParents db waiting itservices) (deep : (unloaded db itservices).card < depth) :
    ∃ after, itsItservicesLoadParents db depth itservices waiting = some after ∧
      HasParents db [] after ∧ Grows db itservices after := by
  induction depth generalizing itservices waiting with
  | zero => cases deep
  | succ depth ih =>
    obtain ⟨next, grows, areNew⟩ := parents.turn
    rw [itsItservicesLoadParents]
    dsimp only
    split
    next isDone =>
      rw [isDone] at next
      exact ⟨_, rfl, next, grows⟩
    next notDone =>
      have fewer : (unloaded db
          ((selectParents db waiting).foldl loadParent (itservices, [])).1).card <
            (unloaded db itservices).card := by
        refine Finset.card_lt_card (Finset.ssubset_iff_subset_ne.mpr ⟨?_, ?_⟩)
        · intro serviceid isUnloaded
          obtain ⟨isService, notLoaded⟩ := mem_unloaded.mp isUnloaded
          exact mem_unloaded.mpr ⟨isService, fun isLoaded =>
            notLoaded (grows.ids serviceid isLoaded)⟩
        · intro same
          obtain ⟨created, isCreated⟩ := exists_mem_of_ne_nil _ notDone
          have isLoaded := (next.waits created isCreated).1
          have isUnloaded := mem_unloaded.mpr
            ⟨next.loaded.mem_serviceids isLoaded, areNew created isCreated⟩
          rw [← same] at isUnloaded
          exact (mem_unloaded.mp isUnloaded).2 isLoaded
      obtain ⟨after, isAfter, hasParents, growsOn⟩ := ih next (by omega)
      exact ⟨after, isAfter, hasParents, grows.trans growsOn⟩

/-! ## Loading children -/

theorem loadChildren_loads (rows : List LinkRow) (before : ZbxItservices)
    (areLoaded : ∀ row ∈ rows, row.otherid ∈ loadedIds before) :
    LoadsLinks childrenOf parentsOf rows before (rows.foldl loadChild before) := by
  induction rows generalizing before with
  | nil => constructor <;> simp
  | cons row rows ih =>
    have isLoaded := areLoaded row mem_cons_self
    obtain ⟨itservice, found⟩ := isSome_iff_exists.mp (isSome_search.mpr isLoaded)
    have first : LoadsLinks childrenOf parentsOf [row] before (loadChild before row) := by
      rw [loadChild, found]
      exact loadLink_loads isLoaded (fun _ _ _ => ⟨rfl, rfl⟩) fun _ => ⟨rfl, rfl, rfl, rfl⟩
    exact first.cons (ih (loadChild before row) fun other isOther =>
      (first.ids other.otherid).mpr (Or.inl (areLoaded other (mem_cons_of_mem row isOther))))

theorem loadChildren_loaded (rows : List LinkRow) (loaded : Loaded db itservices)
    (areServices : ∀ row ∈ rows, row.service ∈ db.services) :
    Loaded db (rows.foldl loadChild itservices) := by
  induction rows generalizing itservices with
  | nil => exact loaded
  | cons row rows ih =>
    refine ih ?_ fun other isOther => areServices other (mem_cons_of_mem row isOther)
    rw [loadChild]
    split
    · exact loaded
    · exact (loaded.findOrCreate (areServices row mem_cons_self)).modify
        fun _ => ⟨rfl, rfl, rfl, rfl⟩

theorem mem_selectChildren {row : LinkRow} {ids : List Nat} :
    row ∈ selectChildren db ids ↔
      row.service ∈ db.services ∧ ⟨row.otherid, row.service.serviceid⟩ ∈ db.servicesLinks ∧
        row.otherid ∈ ids := by
  rw [selectChildren, mem_flatMap]
  constructor
  · rintro ⟨service, isService, isRow⟩
    obtain ⟨⟨up, down⟩, isLink, rfl⟩ := mem_map.mp isRow
    obtain ⟨isLink, conditions⟩ := mem_filter.mp isLink
    obtain ⟨rfl, isUp⟩ := of_decide_eq_true conditions
    exact ⟨isService, isLink, isUp⟩
  · rintro ⟨isService, isLink, isUp⟩
    refine ⟨row.service, isService, mem_map.mpr ⟨⟨_, _⟩, mem_filter.mpr ⟨isLink, ?_⟩, rfl⟩⟩
    exact decide_eq_true ⟨rfl, isUp⟩

theorem exists_selectChildren {ids : List Nat}
    (areServices : ∀ other ∈ ids, other ∈ serviceids db) {child : Nat} :
    (∃ row ∈ selectChildren db ids, row.otherid = serviceid ∧ row.service.serviceid = child) ↔
      serviceid ∈ ids ∧ IsParent db child serviceid := by
  constructor
  · rintro ⟨row, isRow, rfl, rfl⟩
    obtain ⟨isService, isLink, isUp⟩ := mem_selectChildren.mp isRow
    exact ⟨isUp, isLink, areServices _ isUp, mem_map_of_mem isService⟩
  · rintro ⟨isUp, isParent⟩
    obtain ⟨service, isService, rfl⟩ := mem_serviceids.mp isParent.isChild
    exact ⟨⟨service, serviceid⟩, mem_selectChildren.mpr ⟨isService, isParent.link, isUp⟩, rfl, rfl⟩

theorem search_of_mem (distinct : (loadedIds itservices).Nodup) {itservice : ZbxItservice}
    (isIn : itservice ∈ itservices.itservices) :
    itservices.search itservice.serviceid = some itservice := by
  have isLoaded : itservice.serviceid ∈ loadedIds itservices := mem_map_of_mem isIn
  obtain ⟨other, found⟩ := isSome_iff_exists.mp (isSome_search.mpr isLoaded)
  rw [found, inj_on_of_nodup_map distinct (mem_of_find?_eq_some found) isIn
    (serviceid_of_search found)]

theorem mem_withoutTrigger (distinct : (loadedIds itservices).Nodup) :
    serviceid ∈ (itservices.itservices.filter fun itservice => itservice.triggerid = 0).map
        ZbxItservice.serviceid ↔
      serviceid ∈ loadedIds itservices ∧ triggerOf itservices serviceid = 0 := by
  constructor
  · intro isIn
    obtain ⟨itservice, isFiltered, rfl⟩ := mem_map.mp isIn
    obtain ⟨isLoaded, noTrigger⟩ := mem_filter.mp isFiltered
    refine ⟨mem_map_of_mem isLoaded, ?_⟩
    rw [triggerOf, search_of_mem distinct isLoaded]
    exact of_decide_eq_true noTrigger
  · rintro ⟨isLoaded, noTrigger⟩
    obtain ⟨itservice, found⟩ := isSome_iff_exists.mp (isSome_search.mpr isLoaded)
    rw [triggerOf, found] at noTrigger
    refine mem_map.mpr ⟨itservice, mem_filter.mpr ⟨mem_of_find?_eq_some found, ?_⟩,
      serviceid_of_search found⟩
    exact decide_eq_true noTrigger

/-! ## Loading the services of triggers -/

/-- What the services of triggers are loaded as. -/
structure LoadsLeaves (services : List Service) (before after : ZbxItservices) : Prop where
  ids : loadedIds after = loadedIds before ++ services.map Service.serviceid
  index : ∀ triggerid, after.index triggerid = before.index triggerid ++
    (services.filter fun service => service.triggerid = some triggerid).map Service.serviceid
  parents : ∀ serviceid, parentsOf after serviceid = parentsOf before serviceid
  children : ∀ serviceid, childrenOf after serviceid = childrenOf before serviceid

theorem loadLeaf_loads (before : ZbxItservices) {triggerid : Nat}
    (hasTrigger : service.triggerid = some triggerid) (notZero : triggerid ≠ 0) :
    LoadsLeaves [service] before (loadLeaf before service) := by
  have keeps {Field : Type} (field : ZbxItservice → Field) (default : Field) (serviceid : Nat)
      (isDefault : field ⟨service.serviceid, service.triggerid.getD 0, service.status,
        service.status, service.algorithm, [], []⟩ = default) :
      (((loadLeaf before service).search serviceid).map field).getD default =
        ((before.search serviceid).map field).getD default := by
    rw [loadLeaf, search_create]
    cases before.search serviceid with
    | some itservice => rfl
    | none =>
      rw [none_or]
      split
      · exact isDefault
      · rfl
  constructor
  · rw [loadedIds, loadLeaf, itsItserviceCreate, map_append]
    rfl
  · intro otherid
    rw [loadLeaf, itsItserviceCreate, hasTrigger, getD_some, if_neg notZero]
    dsimp only
    by_cases same : triggerid = otherid
    · simp [← same, hasTrigger]
    · simp [Function.update_of_ne (Ne.symm same), hasTrigger, same]
  · exact fun serviceid => keeps ZbxItservice.parents [] serviceid rfl
  · exact fun serviceid => keeps ZbxItservice.children [] serviceid rfl

theorem loadLeaves_loads (services : List Service) (before : ZbxItservices)
    (haveTriggers : ∀ service ∈ services, ∃ triggerid, service.triggerid = some triggerid ∧
      triggerid ≠ 0) :
    LoadsLeaves services before (services.foldl loadLeaf before) := by
  induction services generalizing before with
  | nil => constructor <;> simp
  | cons service services ih =>
    obtain ⟨triggerid, hasTrigger, notZero⟩ := haveTriggers service mem_cons_self
    have first := loadLeaf_loads before hasTrigger notZero
    have rest := ih (loadLeaf before service) fun other isOther =>
      haveTriggers other (mem_cons_of_mem service isOther)
    rw [foldl_cons]
    constructor
    · rw [rest.ids, first.ids, append_assoc]
      rfl
    · intro otherid
      rw [rest.index, first.index, append_assoc, ← map_append, ← filter_append]
      rfl
    · exact fun serviceid => (rest.parents serviceid).trans (first.parents serviceid)
    · exact fun serviceid => (rest.children serviceid).trans (first.children serviceid)

theorem loadLeaves_loaded (services : List Service) (loaded : Loaded db itservices)
    (areServices : ∀ service ∈ services, service ∈ db.services)
    (distinct : (loadedIds itservices ++ services.map Service.serviceid).Nodup) :
    Loaded db (services.foldl loadLeaf itservices) := by
  induction services generalizing itservices with
  | nil => exact loaded
  | cons service services ih =>
    have isNew : itservices.search service.serviceid = none := by
      refine search_eq_none.mpr fun isLoaded => ?_
      exact (nodup_append.mp distinct).2.2 _ isLoaded _ mem_cons_self rfl
    refine ih (loaded.create (areServices service mem_cons_self) isNew _)
      (fun other isOther => areServices other (mem_cons_of_mem service isOther)) ?_
    rw [loadedIds, loadLeaf, itsItserviceCreate, map_append, append_assoc]
    exact distinct

theorem mem_selectByTriggerids {triggerids : List Nat} :
    service ∈ selectByTriggerids db triggerids ↔
      service ∈ db.services ∧ ∃ triggerid ∈ triggerids, service.triggerid = some triggerid := by
  rw [selectByTriggerids, mem_filter]
  refine and_congr_right fun _ => ?_
  cases service.triggerid with
  | none => simp
  | some triggerid => simp

/-! ## Everything that is loaded -/

/-- The loaded services: those that the triggers may change, linked with their parents and their
children, and the other children of these. -/
structure Loads (db : Database) (triggerids : List Nat) (itservices : ZbxItservices)
    (active : Nat → Prop) : Prop where
  loaded : Loaded db itservices
  activeLoaded : ∀ serviceid, active serviceid → serviceid ∈ loadedIds itservices
  index : ∀ triggerid ∈ triggerids, ∀ serviceid, serviceid ∈ itservices.index triggerid ↔
    ∃ service ∈ db.services, service.serviceid = serviceid ∧ service.triggerid = some triggerid
  leaf : ∀ triggerid ∈ triggerids, ∀ serviceid ∈ itservices.index triggerid, active serviceid
  parents : ∀ serviceid, active serviceid → ∀ parent,
    parent ∈ parentsOf itservices serviceid ↔ IsParent db serviceid parent
  closed : ∀ serviceid, active serviceid → ∀ parent, IsParent db serviceid parent → active parent
  children : ∀ serviceid child,
    child ∈ childrenOf itservices serviceid ↔ active serviceid ∧ IsParent db child serviceid
  childLoaded : ∀ serviceid child, active serviceid → IsParent db child serviceid →
    child ∈ loadedIds itservices

theorem Loads.none {triggerids : List Nat} (noService : selectByTriggerids db triggerids = []) :
    Loads db triggerids itsItservicesInit fun _ => False where
  loaded := ⟨nodup_nil, nofun⟩
  activeLoaded := nofun
  index := by
    intro triggerid isTrigger serviceid
    refine iff_of_false not_mem_nil fun isIndexed => ?_
    obtain ⟨service, isService, -, hasTrigger⟩ := isIndexed
    have isSelected := mem_selectByTriggerids.mpr ⟨isService, triggerid, isTrigger, hasTrigger⟩
    rw [noService] at isSelected
    cases isSelected
  leaf := nofun
  parents := nofun
  closed := nofun
  children := fun _ _ => iff_of_false not_mem_nil fun isActive => isActive.1
  childLoaded := nofun

theorem Loads.children_of {triggerids : List Nat} (wellFormed : WellFormed db)
    {leaves middle : ZbxItservices}
    (loads : LoadsLeaves (selectByTriggerids db triggerids) itsItservicesInit leaves)
    (parents : HasParents db [] middle) (grows : Grows db leaves middle) :
    Loads db triggerids (itsItservicesLoadChildren db middle) fun serviceid =>
      serviceid ∈ loadedIds middle := by
  have loadedLeaf {serviceid : Nat} : serviceid ∈ loadedIds leaves ↔
      ∃ service ∈ selectByTriggerids db triggerids, service.serviceid = serviceid := by
    rw [loads.ids]
    exact mem_map
  have noTrigger {serviceid child : Nat} (isParent : IsParent db child serviceid) :
      triggerOf middle serviceid = 0 := by
    rw [grows.triggers, triggerOf, search_eq_none.mpr]
    · rfl
    · intro isLeaf
      obtain ⟨service, isSelected, rfl⟩ := loadedLeaf.mp isLeaf
      obtain ⟨isService, triggerid, -, hasTrigger⟩ := mem_selectByTriggerids.mp isSelected
      exact wellFormed.leaves service isService (hasTrigger ▸ rfl) child isParent
  have areServices : ∀ other ∈ (middle.itservices.filter fun itservice =>
      itservice.triggerid = 0).map ZbxItservice.serviceid, other ∈ serviceids db :=
    fun other isOther => parents.loaded.mem_serviceids
      ((mem_withoutTrigger parents.loaded.distinct).mp isOther).1
  have loadsChildren := loadChildren_loads (selectChildren db ((middle.itservices.filter
      fun itservice => itservice.triggerid = 0).map ZbxItservice.serviceid)) middle
    fun row isRow => ((mem_withoutTrigger parents.loaded.distinct).mp
      (mem_selectChildren.mp isRow).2.2).1
  have areIndexed (triggerid serviceid : Nat) :
      serviceid ∈ (itsItservicesLoadChildren db middle).index triggerid ↔
        ∃ service ∈ selectByTriggerids db triggerids,
          service.triggerid = some triggerid ∧ service.serviceid = serviceid := by
    rw [itsItservicesLoadChildren, loadsChildren.index, grows.index, loads.index,
      itsItservicesInit, nil_append, mem_map]
    refine exists_congr fun service => ?_
    rw [mem_filter, decide_eq_true_iff, and_assoc]
  constructor
  · exact loadChildren_loaded _ parents.loaded fun row isRow => (mem_selectChildren.mp isRow).1
  · exact fun serviceid isActive => (loadsChildren.ids serviceid).mpr (Or.inl isActive)
  · intro triggerid isTrigger serviceid
    rw [areIndexed]
    constructor
    · rintro ⟨service, isSelected, hasTrigger, same⟩
      exact ⟨service, (mem_selectByTriggerids.mp isSelected).1, same, hasTrigger⟩
    · rintro ⟨service, isService, same, hasTrigger⟩
      exact ⟨service, mem_selectByTriggerids.mpr ⟨isService, triggerid, isTrigger, hasTrigger⟩,
        hasTrigger, same⟩
  · intro triggerid _ serviceid isIndexed
    obtain ⟨service, isSelected, -, same⟩ := (areIndexed triggerid serviceid).mp isIndexed
    exact grows.ids serviceid (loadedLeaf.mpr ⟨service, isSelected, same⟩)
  · intro serviceid isActive parent
    rw [itsItservicesLoadChildren, loadsChildren.kept]
    exact parents.complete serviceid isActive not_mem_nil parent
  · exact fun serviceid isActive => parents.closed serviceid isActive not_mem_nil
  · intro serviceid child
    have noChildren : childrenOf middle serviceid = [] := by
      rw [grows.children, loads.children]
      rfl
    rw [itsItservicesLoadChildren, loadsChildren.links, exists_selectChildren areServices,
      noChildren, mem_withoutTrigger parents.loaded.distinct]
    refine (or_iff_right not_mem_nil).trans ⟨fun isChild => ⟨isChild.1.1, isChild.2⟩, ?_⟩
    exact fun isChild => ⟨⟨isChild.1, noTrigger isChild.2⟩, isChild.2⟩
  · intro serviceid child isActive isParent
    have isWithout := (mem_withoutTrigger parents.loaded.distinct).mpr
      ⟨isActive, noTrigger isParent⟩
    obtain ⟨row, isRow, -, same⟩ := (exists_selectChildren areServices).mpr ⟨isWithout, isParent⟩
    exact (loadsChildren.ids child).mpr (Or.inr ⟨row, isRow, same⟩)

/-- Everything that the triggers may change is loaded when the recursion may go as deep as there
are services. -/
theorem loadServices_loads (wellFormed : WellFormed db) (triggerids : List Nat) {depth : Nat}
    (deep : db.services.length < depth) :
    ∃ itservices active, itsLoadServicesByTriggerids db depth triggerids = some itservices ∧
      Loads db triggerids itservices active := by
  have loads := loadLeaves_loads (selectByTriggerids db triggerids) itsItservicesInit
    fun service isSelected => by
      obtain ⟨isService, triggerid, -, hasTrigger⟩ := mem_selectByTriggerids.mp isSelected
      refine ⟨triggerid, hasTrigger, fun isZero => ?_⟩
      exact wellFormed.triggers service isService (hasTrigger.trans (congrArg some isZero))
  have distinct : ((selectByTriggerids db triggerids).map Service.serviceid).Nodup :=
    wellFormed.distinct.sublist (filter_sublist.map _)
  have loaded := loadLeaves_loaded (selectByTriggerids db triggerids)
    (⟨nodup_nil, nofun⟩ : Loaded db itsItservicesInit)
    (fun service isSelected => (mem_selectByTriggerids.mp isSelected).1) distinct
  rw [itsLoadServicesByTriggerids]
  split
  next isNone =>
    rw [isNone, foldl_nil]
    exact ⟨_, _, rfl, Loads.none isNone⟩
  next =>
    have waiting : HasParents db ((selectByTriggerids db triggerids).map Service.serviceid)
        ((selectByTriggerids db triggerids).foldl loadLeaf itsItservicesInit) := by
      have isWaiting (serviceid : Nat) (isLoaded : serviceid ∈ loadedIds
          ((selectByTriggerids db triggerids).foldl loadLeaf itsItservicesInit)) :
          serviceid ∈ (selectByTriggerids db triggerids).map Service.serviceid := by
        rw [loads.ids] at isLoaded
        exact isLoaded
      refine ⟨loaded, fun serviceid isIn => ⟨?_, ?_⟩, ?_, ?_⟩
      · rw [loads.ids]
        exact isIn
      · rw [loads.parents]
        rfl
      · exact fun serviceid isLoaded notWaiting =>
          absurd (isWaiting serviceid isLoaded) notWaiting
      · exact fun serviceid isLoaded notWaiting =>
          absurd (isWaiting serviceid isLoaded) notWaiting
    have few : (unloaded db
        ((selectByTriggerids db triggerids).foldl loadLeaf itsItservicesInit)).card < depth := by
      calc
        _ ≤ (serviceids db).toFinset.card := Finset.card_le_card Finset.sdiff_subset
        _ ≤ (serviceids db).length := toFinset_card_le _
        _ = db.services.length := length_map _
        _ < depth := deep
    obtain ⟨middle, isMiddle, parents, grows⟩ := loadParents_spec waiting few
    exact ⟨_, _, congrArg (Option.map _) isMiddle, Loads.children_of wellFormed loads parents grows⟩

end Zabbix.Services.Loading
