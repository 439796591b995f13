import Zabbix.ConfigCache.Topology

/-!
# Checks of trigger dependencies

What is reported about the triggers that are processed, from the triggers they depend on directly
or indirectly.
-/

namespace Zabbix.ConfigCache.DependencyCheck

open Relation TriggerDependencies ConfigCache.Topology List
open Option hiding or_assoc

variable (config : Config) (triggerids : TriggerIds)

/-- A trigger that is depended on directly or indirectly. -/
def IsMaster (triggerid master : Nat) : Prop :=
  TransGen (DependsOn config) triggerid master

/-- The trigger is enabled and functional. -/
def IsActive (master : Nat) : Prop :=
  ∃ trigger, config.triggers master = some trigger ∧ trigger.status = .enabled ∧
    trigger.functional = true

/-- A trigger that is not processed now, and that has a problem. -/
def Fails (master : Nat) : Prop :=
  master ∉ triggerids.values ∧ ∃ trigger, config.triggers master = some trigger ∧
    trigger.status = .enabled ∧ trigger.functional = true ∧ trigger.value = .problem

/-- A trigger that is processed as well. -/
def Waits (master : Nat) : Prop :=
  master ∈ triggerids.values ∧ IsActive config master

/-- A check of some triggers has failed for one of them, or has collected those to wait for. -/
structure Checks (reaches : Nat → Prop) (masterids : List Nat) (result : Bool × List Nat) :
    Prop where
  fails_iff : result.1 = false ↔ ∃ master, reaches master ∧ Fails config triggerids master
  mem_iff : result.1 = true → ∀ master, master ∈ result.2 ↔
    master ∈ masterids ∨ reaches master ∧ Waits config triggerids master

variable {config triggerids}

theorem Checks.nil (masterids : List Nat) :
    Checks config triggerids (fun _ => False) masterids (true, masterids) :=
  ⟨iff_of_false nofun (by simp), fun _ _ => by simp⟩

theorem Checks.append {reaches others : Nat → Prop} {masterids middle : List Nat}
    {result : Bool × List Nat} (first : Checks config triggerids reaches masterids (true, middle))
    (rest : Checks config triggerids others middle result) :
    Checks config triggerids (fun master => reaches master ∨ others master) masterids result := by
  have noFail : ¬∃ master, reaches master ∧ Fails config triggerids master :=
    first.fails_iff.not.mp nofun
  refine ⟨rest.fails_iff.trans ?_, fun succeeds master => ?_⟩
  · simp only [or_and_right, exists_or, noFail, false_or]
  · rw [rest.mem_iff succeeds, first.mem_iff rfl, or_and_right, or_assoc]

theorem Checks.fail {reaches others : Nat → Prop} {masterids masterids' : List Nat}
    (failed : Checks config triggerids reaches masterids (false, masterids'))
    (isMore : ∀ master, reaches master → others master) :
    Checks config triggerids others masterids (false, masterids') := by
  obtain ⟨master, reached, fails⟩ := failed.fails_iff.mp rfl
  exact ⟨iff_of_true rfl ⟨master, isMore master reached, fails⟩, nofun⟩

theorem Checks.congr {reaches others : Nat → Prop} {masterids : List Nat}
    {result : Bool × List Nat} (checks : Checks config triggerids reaches masterids result)
    (same : ∀ master, reaches master ↔ others master) :
    Checks config triggerids others masterids result := by
  obtain rfl : reaches = others := funext fun master => propext (same master)
  exact checks

theorem bsearch_iff (triggerid : Nat) :
    triggerids.bsearch triggerid = true ↔ triggerid ∈ triggerids.values :=
  contains_iff_mem

theorem checkMaster_checks (next : Nat) (masterids : List Nat) :
    Checks config triggerids (fun master => master = next) masterids
      (checkMaster config triggerids next masterids) := by
  have one (ret : Bool) (masterids' : List Nat)
      (fails_iff : ret = false ↔ Fails config triggerids next)
      (mem_iff : ret = true → ∀ master, master ∈ masterids' ↔
        master ∈ masterids ∨ master = next ∧ Waits config triggerids next) :
      Checks config triggerids (fun master => master = next) masterids (ret, masterids') := by
    refine ⟨?_, fun succeeds master => ?_⟩
    · simpa using fails_iff
    · rw [mem_iff succeeds]
      refine or_congr_right (and_congr_right fun same => ?_)
      rw [same]
  have notMore (isIdle : ¬Waits config triggerids next) (master : Nat) :
      master ∈ masterids ↔ master ∈ masterids ∨ master = next ∧ Waits config triggerids next := by
    simp [isIdle]
  rw [checkMaster]
  cases isTrigger : config.triggers next with
  | none =>
    refine one true masterids (iff_of_false nofun ?_) fun _ => notMore ?_
    · rintro ⟨-, trigger, isOther, -⟩
      rw [isTrigger] at isOther
      cases isOther
    · rintro ⟨-, trigger, isOther, -⟩
      rw [isTrigger] at isOther
      cases isOther
  | some trigger =>
    have isOnly {other : Trigger} (isOther : config.triggers next = some other) :
        other = trigger :=
      some.inj (isOther.symm.trans isTrigger)
    simp only
    split_ifs with isActive isProcessed
    · rw [bsearch_iff] at isProcessed
      refine one true _ (iff_of_false nofun fun fails => fails.1 isProcessed) fun _ master => ?_
      have waits : Waits config triggerids next := ⟨isProcessed, trigger, isTrigger, isActive⟩
      rw [mem_append, mem_singleton, and_iff_left waits]
    · rw [bsearch_iff] at isProcessed
      refine one _ masterids ?_ fun _ => notMore fun waits => isProcessed waits.1
      rw [decide_eq_false_iff_not, not_not]
      constructor
      · intro isProblem
        exact ⟨isProcessed, trigger, isTrigger, isActive.1, isActive.2, isProblem⟩
      · rintro ⟨-, other, isOther, -, -, isProblem⟩
        exact isOnly isOther ▸ isProblem
    · refine one true masterids (iff_of_false nofun ?_) fun _ => notMore ?_
      · rintro ⟨-, other, isOther, isEnabled, isFunctional, -⟩
        obtain rfl := isOnly isOther
        exact isActive ⟨isEnabled, isFunctional⟩
      · rintro ⟨-, other, isOther, isEnabled, isFunctional⟩
        obtain rfl := isOnly isOther
        exact isActive ⟨isEnabled, isFunctional⟩

variable {fuel level triggerid bound : Nat} {masterids : List Nat} {result : Bool × List Nat}

theorem checkLoop_checks {checkRec : Nat → List Nat → Option (Bool × List Nat)}
    (dependencies : List Nat)
    (checks : ∀ next ∈ dependencies, ∀ masterids result, checkRec next masterids = some result →
      Checks config triggerids (IsMaster config next) masterids result)
    (isResult : checkLoop config checkRec triggerids dependencies masterids = some result) :
    Checks config triggerids
      (fun master => ∃ next ∈ dependencies, ReflTransGen (DependsOn config) next master)
      masterids result := by
  induction dependencies generalizing masterids with
  | nil =>
    obtain rfl := some.inj isResult
    exact (Checks.nil masterids).congr (by simp)
  | cons next dependencies ih =>
    obtain ⟨checksNext, checks⟩ := forall_mem_cons.mp checks
    have checksOne := @checkMaster_checks config triggerids next masterids
    have reaches_iff (master : Nat) :
        (∃ other ∈ next :: dependencies, ReflTransGen (DependsOn config) other master) ↔
          master = next ∨ IsMaster config next master ∨
            ∃ other ∈ dependencies, ReflTransGen (DependsOn config) other master := by
      simp only [mem_cons, exists_eq_or_imp, reflTransGen_iff_eq_or_transGen, IsMaster, or_assoc]
    refine Checks.congr ?_ fun master => (reaches_iff master).symm
    rw [checkLoop] at isResult
    split at isResult
    · next masterids' failed =>
        obtain rfl := some.inj isResult
        rw [failed] at checksOne
        exact checksOne.fail fun _ => Or.inl
    · next middle succeeded =>
        rw [succeeded] at checksOne
        refine checksOne.append ?_
        obtain ⟨⟨ret, middle'⟩, isRec, isResult⟩ := bind_eq_some_iff.mp isResult
        have checksMasters := checksNext middle _ isRec
        cases ret with
        | false =>
          obtain rfl := some.inj isResult
          exact checksMasters.fail fun _ => Or.inl
        | true => exact checksMasters.append (ih checks isResult)

theorem checkRec_checks (chains : ChainsFrom config bound triggerid) (isLevel : level + bound ≤ 32)
    (isResult : checkTriggerDependenciesRec config triggerids fuel triggerid level masterids =
      some result) :
    Checks config triggerids (IsMaster config triggerid) masterids result := by
  induction fuel generalizing triggerid level masterids result bound with
  | zero => cases isResult
  | succ fuel ih =>
    rw [checkTriggerDependenciesRec, triggerDependencyLevelsMax, if_neg (by omega)] at isResult
    have checks := checkLoop_checks _ (fun next isNext masterids result isRec => ?_) isResult
    · refine checks.congr fun master => ?_
      rw [IsMaster, TransGen.head'_iff]
      rfl
    · cases bound with
      | zero =>
        rw [show config.dependencies triggerid = [] from chains] at isNext
        cases isNext
      | succ bound => exact ih (chains next isNext) (by omega) isRec

theorem checkLoop_isSome {checkRec : Nat → List Nat → Option (Bool × List Nat)}
    (dependencies : List Nat)
    (returns : ∀ next masterids, (checkRec next masterids).isSome) (masterids : List Nat) :
    (checkLoop config checkRec triggerids dependencies masterids).isSome := by
  induction dependencies generalizing masterids with
  | nil => rfl
  | cons next dependencies ih =>
    rw [checkLoop]
    split
    · rfl
    · next middle _ =>
        obtain ⟨⟨ret, middle'⟩, isRec⟩ := isSome_iff_exists.mp (returns next middle)
        rw [isRec]
        cases ret with
        | false => rfl
        | true => exact ih middle'

theorem checkRec_isSome (isDeep : 34 ≤ fuel + level) (isLevel : level ≤ 33)
    (masterids : List Nat) :
    (checkTriggerDependenciesRec config triggerids fuel triggerid level masterids).isSome := by
  induction fuel generalizing triggerid level masterids with
  | zero => omega
  | succ fuel ih =>
    rw [checkTriggerDependenciesRec, triggerDependencyLevelsMax]
    split_ifs
    · rfl
    · exact checkLoop_isSome _ (fun next masterids => ih (by omega) (by omega) masterids) _

/-! ## Reports -/

def IsReported (deps : List TriggerDep) (triggerid : Nat) (status : DependencyStatus) : Prop :=
  ∃ dep ∈ deps, dep.triggerid = triggerid ∧ dep.status = status

/-- What the masters of a trigger mean for it. -/
def HasStatus (config : Config) (triggerids : TriggerIds) (triggerid : Nat) :
    DependencyStatus → Prop
  | .fail => ∃ master, IsMaster config triggerid master ∧ Fails config triggerids master
  | .unresolved =>
    (¬∃ master, IsMaster config triggerid master ∧ Fails config triggerids master) ∧
      ∃ master, IsMaster config triggerid master ∧ Waits config triggerids master

variable {deps : List TriggerDep} {other : Nat} {status : DependencyStatus}

theorem isReported_append {deps' : List TriggerDep} :
    IsReported (deps ++ deps') other status ↔
      IsReported deps other status ∨ IsReported deps' other status := by
  simp only [IsReported, mem_append, or_and_right, exists_or]

theorem isReported_triggerDep
    (checks : Checks config triggerids (IsMaster config triggerid) [] result) :
    IsReported (triggerDep triggerid result.1 result.2) other status ↔
      other = triggerid ∧ HasStatus config triggerids triggerid status := by
  obtain ⟨ret, masterids⟩ := result
  cases ret with
  | false =>
    have fails := checks.fails_iff.mp rfl
    rw [triggerDep, if_pos (Or.inl rfl), IsReported]
    simp only [mem_singleton, exists_eq_left, Bool.false_eq_true, if_false]
    rw [eq_comm]
    refine and_congr_right fun _ => ?_
    cases status with
    | fail => exact iff_of_true rfl fails
    | unresolved => exact iff_of_false nofun fun unresolved => unresolved.1 fails
  | true =>
    have noFail := checks.fails_iff.not.mp nofun
    have waits_iff : masterids ≠ [] ↔
        ∃ master, IsMaster config triggerid master ∧ Waits config triggerids master := by
      have mem_iff (master : Nat) : master ∈ masterids ↔
          IsMaster config triggerid master ∧ Waits config triggerids master := by
        simpa using checks.mem_iff rfl master
      constructor
      · intro isWaiting
        obtain ⟨master, isIn⟩ := exists_mem_of_ne_nil masterids isWaiting
        exact ⟨master, (mem_iff master).mp isIn⟩
      · rintro ⟨master, waits⟩
        exact ne_nil_of_mem ((mem_iff master).mpr waits)
    by_cases isWaiting : masterids ≠ []
    · rw [triggerDep, if_pos (Or.inr isWaiting), IsReported]
      simp only [mem_singleton, exists_eq_left, if_true]
      rw [eq_comm]
      refine and_congr_right fun _ => ?_
      cases status with
      | fail => exact iff_of_false nofun noFail
      | unresolved => exact iff_of_true rfl ⟨noFail, waits_iff.mp isWaiting⟩
    · rw [triggerDep, if_neg (by simpa using isWaiting)]
      refine iff_of_false (by simp [IsReported]) fun ⟨_, hasStatus⟩ => ?_
      cases status with
      | fail => exact noFail hasStatus
      | unresolved => exact isWaiting (waits_iff.mpr hasStatus.2)

/-- A trigger without a dependency list has no masters. -/
theorem not_hasStatus (isMissing : config.trigdeps triggerid = none) :
    ¬HasStatus config triggerids triggerid status := by
  have noMaster (master : Nat) : ¬IsMaster config triggerid master := by
    intro isMaster
    obtain ⟨next, isNext, -⟩ := TransGen.head'_iff.mp isMaster
    have isList := (isSome_of_dependsOn isNext).1
    rw [isMissing] at isList
    cases isList
  cases status with
  | fail => exact fun ⟨master, isMaster, _⟩ => noMaster master isMaster
  | unresolved => exact fun ⟨_, master, isMaster, _⟩ => noMaster master isMaster

theorem getTriggerDependencies_isSome (enough : 34 ≤ fuel) :
    (getTriggerDependencies config fuel triggerids).isSome := by
  refine isSome_foldlM _ _ (fun triggerid _ deps => ?_) _
  split_ifs
  · rfl
  · rw [isSome_map]
    exact checkRec_isSome enough (Nat.zero_le _) []

theorem getTriggerDependencies_reports (chains : ∀ triggerid, ChainsFrom config 32 triggerid)
    (isResult : getTriggerDependencies config fuel triggerids = some deps) :
    IsReported deps other status ↔
      other ∈ triggerids.values ∧ HasStatus config triggerids other status := by
  have run (values : List Nat) (start : List TriggerDep)
      (isRun : values.foldlM
        (fun deps triggerid =>
          if (config.trigdeps triggerid).isNone then some deps
          else
            (checkTriggerDependenciesRec config triggerids fuel triggerid 0 []).map
              fun result => deps ++ triggerDep triggerid result.1 result.2)
        start = some deps) :
      IsReported deps other status ↔ IsReported start other status ∨
        other ∈ values ∧ HasStatus config triggerids other status := by
    induction values generalizing start with
    | nil =>
      obtain rfl := some.inj isRun
      simp
    | cons triggerid values ih =>
      rw [foldlM_cons] at isRun
      obtain ⟨middle, isMiddle, isRun⟩ := bind_eq_some_iff.mp isRun
      have first : IsReported middle other status ↔ IsReported start other status ∨
          other = triggerid ∧ HasStatus config triggerids other status := by
        split_ifs at isMiddle with isMissing
        · obtain rfl := some.inj isMiddle
          rw [isNone_iff_eq_none] at isMissing
          refine (or_iff_left ?_).symm
          rintro ⟨rfl, hasStatus⟩
          exact not_hasStatus isMissing hasStatus
        · obtain ⟨result, isCheck, rfl⟩ := map_eq_some_iff.mp isMiddle
          have checks := checkRec_checks (chains triggerid) (by omega) isCheck
          rw [isReported_append, isReported_triggerDep checks]
          refine or_congr_right (and_congr_right fun same => ?_)
          rw [same]
      rw [ih middle isRun, first, mem_cons, or_and_right, or_assoc]
  have reports := run triggerids.values [] isResult
  rwa [or_iff_right (by simp [IsReported])] at reports

/-- Both computations end for every configuration.  When no chain of dependencies is too long, the
indexes are in order and the reports are right. -/
theorem triggerDependencies (config : Config) (exist : TriggersExist config) (order : List Nat)
    (isOrder : ∀ triggerid, triggerid ∈ order ↔ (config.trigdeps triggerid).isSome)
    (triggerids : TriggerIds) (fuel : Nat) (enough : 34 ≤ fuel) :
    ∃ topoindexes deps, triggerUpdateTopology config fuel order = some topoindexes ∧
      getTriggerDependencies config fuel triggerids = some deps ∧
      (ChainsAtMost config 32 →
        (∀ triggerid master, DependsOn config triggerid master →
          topoindexes master < topoindexes triggerid) ∧
        ∀ triggerid status, IsReported deps triggerid status ↔
          triggerid ∈ triggerids.values ∧ HasStatus config triggerids triggerid status) := by
  obtain ⟨topoindexes, isTopology⟩ := isSome_iff_exists.mp
    (triggerUpdateTopology_isSome exist enough fun triggerid => (isOrder triggerid).mp)
  have returns : (getTriggerDependencies config fuel triggerids).isSome :=
    getTriggerDependencies_isSome enough
  obtain ⟨deps, isReport⟩ := isSome_iff_exists.mp returns
  refine ⟨topoindexes, deps, isTopology, isReport, fun chains => ⟨?_, ?_⟩⟩
  · exact fun triggerid master => triggerUpdateTopology_above chains exist isOrder isTopology
  · exact fun triggerid status => getTriggerDependencies_reports chains.chainsFrom isReport

/-- The second trigger depends on the first one, which has a problem. -/
def twoTriggers : Config where
  triggers triggerid :=
    if triggerid = 1 then some ⟨.enabled, true, .problem⟩
    else if triggerid = 2 then some ⟨.enabled, true, .ok⟩
    else none
  trigdeps triggerid := if triggerid = 1 then some [] else if triggerid = 2 then some [1] else none
  closed := by
    intro triggerid dependencies isList next isNext
    split_ifs at isList
    · obtain rfl := some.inj isList
      cases isNext
    · obtain rfl := some.inj isList
      obtain rfl := mem_singleton.mp isNext
      rfl

def secondTrigger : TriggerIds where
  values := [2]
  sorted := pairwise_singleton _ _

example : getTriggerDependencies twoTriggers 34 secondTrigger = some [⟨2, .fail, []⟩] := by
  decide

theorem triggerDependencies_twoTriggers :
    ∃ topoindexes deps, triggerUpdateTopology twoTriggers 34 [2, 1] = some topoindexes ∧
      getTriggerDependencies twoTriggers 34 secondTrigger = some deps ∧
      (ChainsAtMost twoTriggers 32 →
        (∀ triggerid master, DependsOn twoTriggers triggerid master →
          topoindexes master < topoindexes triggerid) ∧
        ∀ triggerid status, IsReported deps triggerid status ↔
          triggerid ∈ secondTrigger.values ∧ HasStatus twoTriggers secondTrigger triggerid status) := by
  have isOrder (triggerid : Nat) :
      triggerid ∈ [2, 1] ↔ (twoTriggers.trigdeps triggerid).isSome := by
    simp only [twoTriggers]
    split_ifs with isFirst isSecond
    · simp [isFirst]
    · simp [isSecond]
    · simp [isFirst, isSecond]
  refine triggerDependencies twoTriggers (fun triggerid isList => ?_) [2, 1] isOrder secondTrigger
    34 le_rfl
  obtain rfl | isFirst := mem_cons.mp ((isOrder triggerid).mpr isList)
  · rfl
  · obtain rfl := mem_singleton.mp isFirst
    rfl

end Zabbix.ConfigCache.DependencyCheck
