import Zabbix.ConfigCache.TriggerDependencies
import Mathlib.Data.List.Chain

/-!
# Topology of triggers

The index of a trigger is above the indexes of the triggers it depends on.
-/

namespace Zabbix.ConfigCache.Topology

open Relation TriggerDependencies List Option

variable (config : Config)

def DependsOn (triggerid master : Nat) : Prop :=
  master ∈ config.dependencies triggerid

/-- A chain of triggers, each of which depends on the next one, has no more dependencies. -/
def ChainsAtMost (bound : Nat) : Prop :=
  ∀ chain : List Nat, chain.IsChain (DependsOn config) → chain.length ≤ bound + 1

/-- The triggers of all dependency lists are in the cache. -/
def TriggersExist : Prop :=
  ∀ triggerid, (config.trigdeps triggerid).isSome → (config.triggers triggerid).isSome

/-- The chains from a trigger have no more dependencies. -/
def ChainsFrom : Nat → Nat → Prop
  | 0, triggerid => config.dependencies triggerid = []
  | bound + 1, triggerid => ∀ next, DependsOn config triggerid next → ChainsFrom bound next

variable {config}

theorem chainsFrom_of_chain {bound triggerid : Nat}
    (bounded : ∀ chain : List Nat, (triggerid :: chain).IsChain (DependsOn config) →
      chain.length ≤ bound) : ChainsFrom config bound triggerid := by
  induction bound generalizing triggerid with
  | zero =>
    refine eq_nil_iff_forall_not_mem.mpr fun next isNext => ?_
    have tooLong := bounded [next] (isChain_pair.mpr isNext)
    cases tooLong
  | succ bound ih =>
    intro next isNext
    refine ih fun chain isChain => ?_
    have isLonger := bounded (next :: chain) (isChain_cons_cons.mpr ⟨isNext, isChain⟩)
    exact Nat.le_of_succ_le_succ isLonger

theorem ChainsAtMost.chainsFrom {bound : Nat} (bounded : ChainsAtMost config bound)
    (triggerid : Nat) : ChainsFrom config bound triggerid :=
  chainsFrom_of_chain fun chain isChain =>
    Nat.le_of_succ_le_succ (bounded (triggerid :: chain) isChain)

theorem ChainsFrom.not_cycle {bound triggerid : Nat} (chains : ChainsFrom config bound triggerid) :
    ¬TransGen (DependsOn config) triggerid triggerid := by
  intro cycle
  obtain ⟨next, isNext, path⟩ := TransGen.head'_iff.mp cycle
  induction bound generalizing triggerid next with
  | zero =>
    rw [DependsOn, show config.dependencies triggerid = [] from chains] at isNext
    cases isNext
  | succ bound ih =>
    have cycleNext := TransGen.tail' path isNext
    obtain ⟨other, isOther, pathNext⟩ := TransGen.head'_iff.mp cycleNext
    exact ih (chains next isNext) cycleNext other isOther pathNext

/-! ## Termination -/

variable {fuel level triggerid : Nat} {topoindexes : Topoindexes} {order : List Nat}

theorem isSome_of_dependsOn {next : Nat} (dependsOn : DependsOn config triggerid next) :
    (config.trigdeps triggerid).isSome ∧ (config.trigdeps next).isSome := by
  rw [DependsOn, Config.dependencies] at dependsOn
  cases isList : config.trigdeps triggerid with
  | none =>
    rw [isList] at dependsOn
    cases dependsOn
  | some dependencies =>
    rw [isList] at dependsOn
    exact ⟨rfl, config.closed triggerid dependencies isList next dependsOn⟩

theorem sortLoop_isSome {sortRec : Nat → Topoindexes → Option (Nat × Topoindexes)}
    (dependencies : List Nat)
    (returns : ∀ next ∈ dependencies, ∀ topoindexes, (sortRec next topoindexes).isSome)
    (exist : ∀ next ∈ dependencies, (config.triggers next).isSome) (topoindex : Nat)
    (topoindexes : Topoindexes) :
    (sortLoop config sortRec dependencies topoindex topoindexes).isSome := by
  induction dependencies generalizing topoindex topoindexes with
  | nil => rfl
  | cons next dependencies ih =>
    obtain ⟨returnsNext, returns⟩ := forall_mem_cons.mp returns
    obtain ⟨existsNext, exist⟩ := forall_mem_cons.mp exist
    have ih := ih returns exist
    have isThere : ¬(config.triggers next).isNone := by
      rw [Bool.not_eq_true, isNone_eq_false_iff]
      exact existsNext
    rw [sortLoop, if_neg isThere]
    split_ifs
    · exact ih _ _
    · exact ih _ _
    · obtain ⟨⟨nextTopoindex, topoindexes⟩, isResult⟩ :=
        isSome_iff_exists.mp (returnsNext topoindexes)
      rw [isResult]
      exact ih _ _

theorem sortRec_isSome (exist : TriggersExist config) (isDeep : 34 ≤ fuel + level)
    (isLevel : level ≤ 33) (isList : (config.trigdeps triggerid).isSome)
    (topoindexes : Topoindexes) :
    (sortTriggersTopologicallyRec config fuel triggerid level topoindexes).isSome := by
  induction fuel generalizing triggerid level topoindexes with
  | zero => omega
  | succ fuel ih =>
    rw [sortTriggersTopologicallyRec]
    split_ifs with tooDeep isMissing inProgress
    · rfl
    · rw [isNone_iff_eq_none] at isMissing
      have isTrigger := exist triggerid isList
      rw [isMissing] at isTrigger
      cases isTrigger
    · rfl
    · rw [isSome_map]
      refine sortLoop_isSome _ (fun next isNext topoindexes => ?_) (fun next isNext => ?_) _ _
      · exact ih (by omega) (by omega) (isSome_of_dependsOn isNext).2 topoindexes
      · exact exist next (isSome_of_dependsOn isNext).2

theorem isSome_foldlM {State Item : Type} (step : State → Item → Option State) (items : List Item)
    (returns : ∀ item ∈ items, ∀ state, (step state item).isSome) (state : State) :
    (items.foldlM step state).isSome := by
  induction items generalizing state with
  | nil => rfl
  | cons item items ih =>
    obtain ⟨returnsFirst, returns⟩ := forall_mem_cons.mp returns
    obtain ⟨next, isNext⟩ := isSome_iff_exists.mp (returnsFirst state)
    rw [foldlM_cons, isNext]
    exact ih returns next

theorem triggerUpdateTopology_isSome (exist : TriggersExist config) (enough : 34 ≤ fuel)
    (areLists : ∀ triggerid ∈ order, (config.trigdeps triggerid).isSome) :
    (triggerUpdateTopology config fuel order).isSome := by
  refine isSome_foldlM _ order (fun triggerid isIn topoindexes => ?_) _
  split_ifs
  · rfl
  · rw [isSome_map]
    exact sortRec_isSome exist enough (Nat.zero_le _) (areLists triggerid isIn) topoindexes

/-! ## Order -/

variable {topoindexes' : Topoindexes} {bound topoindex topoindex' : Nat}

/-- A trigger that depends on none, or whose index has been assigned. -/
def Settled (config : Config) (topoindexes : Topoindexes) (triggerid : Nat) : Prop :=
  config.dependencies triggerid = [] ∨ 1 < topoindexes triggerid

/-- The indexes that have been assigned are above those of the triggers that are depended on. -/
structure Ordered (config : Config) (topoindexes : Topoindexes) : Prop where
  leaf : ∀ triggerid, config.dependencies triggerid = [] → topoindexes triggerid = 1
  above : ∀ triggerid, 1 < topoindexes triggerid → ∀ next, DependsOn config triggerid next →
    Settled config topoindexes next ∧ topoindexes next < topoindexes triggerid
  bounded : ∀ triggerid, 1 < topoindexes triggerid → ∀ bound, ChainsFrom config bound triggerid →
    topoindexes triggerid ≤ bound + 1

/-- Triggers in progress stay so, and assigned indexes stay as they are. -/
structure Extends (topoindexes topoindexes' : Topoindexes) : Prop where
  progress : ∀ triggerid, topoindexes' triggerid = 0 ↔ topoindexes triggerid = 0
  done : ∀ triggerid, 1 < topoindexes triggerid → topoindexes' triggerid = topoindexes triggerid

theorem Extends.refl (topoindexes : Topoindexes) : Extends topoindexes topoindexes :=
  ⟨fun _ => Iff.rfl, fun _ _ => rfl⟩

theorem Extends.trans {middle : Topoindexes} (first : Extends topoindexes middle)
    (second : Extends middle topoindexes') : Extends topoindexes topoindexes' :=
  ⟨fun triggerid => (second.progress triggerid).trans (first.progress triggerid),
    fun triggerid isDone => by
      rw [second.done triggerid (first.done triggerid isDone ▸ isDone), first.done triggerid isDone]⟩

theorem Ordered.settled_le (ordered : Ordered config topoindexes)
    (settled : Settled config topoindexes triggerid) (chains : ChainsFrom config bound triggerid) :
    topoindexes triggerid ≤ bound + 1 := by
  obtain isLeaf | isDone := settled
  · rw [ordered.leaf triggerid isLeaf]
    omega
  · exact ordered.bounded triggerid isDone bound chains

theorem Extends.settled (extend : Extends topoindexes topoindexes')
    (ordered : Ordered config topoindexes) (ordered' : Ordered config topoindexes')
    (settled : Settled config topoindexes triggerid) :
    Settled config topoindexes' triggerid ∧ topoindexes' triggerid = topoindexes triggerid := by
  obtain isLeaf | isDone := settled
  · exact ⟨Or.inl isLeaf, (ordered'.leaf _ isLeaf).trans (ordered.leaf _ isLeaf).symm⟩
  · have same := extend.done triggerid isDone
    exact ⟨Or.inr (same ▸ isDone), same⟩

theorem raiseIndex_spec (topoindex : Nat) {nextTopoindex : Nat} (isSmall : nextTopoindex ≤ 33) :
    topoindex ≤ raiseIndex topoindex nextTopoindex ∧
      nextTopoindex < raiseIndex topoindex nextTopoindex ∧
      (raiseIndex topoindex nextTopoindex = topoindex ∨
        raiseIndex topoindex nextTopoindex = nextTopoindex + 1) := by
  rw [raiseIndex, Nat.mod_eq_of_lt (by omega)]
  split_ifs <;> omega

/-- What a loop over dependencies has done: they are settled below the index. -/
structure Raised (config : Config) (dependencies : List Nat) (topoindexes : Topoindexes)
    (topoindex : Nat) (topoindexes' : Topoindexes) (topoindex' : Nat) : Prop where
  ordered : Ordered config topoindexes'
  extend : Extends topoindexes topoindexes'
  le : topoindex ≤ topoindex'
  above : ∀ next ∈ dependencies,
    Settled config topoindexes' next ∧ topoindexes' next < topoindex'
  bounded : ∀ bound, (∀ next ∈ dependencies, ChainsFrom config bound next) →
    topoindex ≤ bound + 2 → topoindex' ≤ bound + 2

theorem Raised.cons {next : Nat} {dependencies : List Nat} {middle : Topoindexes}
    {raised : Nat} (orderedMiddle : Ordered config middle) (extend : Extends topoindexes middle)
    (settled : Settled config middle next) (le : topoindex ≤ raised)
    (isAbove : middle next < raised)
    (raised_le : ∀ bound, ChainsFrom config bound next → topoindex ≤ bound + 2 →
      raised ≤ bound + 2)
    (rest : Raised config dependencies middle raised topoindexes' topoindex') :
    Raised config (next :: dependencies) topoindexes topoindex topoindexes' topoindex' where
  ordered := rest.ordered
  extend := extend.trans rest.extend
  le := le.trans rest.le
  above := by
    refine forall_mem_cons.mpr ⟨?_, rest.above⟩
    obtain ⟨settled', same⟩ := rest.extend.settled orderedMiddle rest.ordered settled
    exact ⟨settled', by rw [same]; exact isAbove.trans_le rest.le⟩
  bounded bound chains isLess := by
    obtain ⟨chainsNext, chains⟩ := forall_mem_cons.mp chains
    exact rest.bounded bound chains (raised_le bound chainsNext isLess)

/-- What a visit of a trigger does. -/
structure Visited (config : Config) (triggerid : Nat) (topoindexes : Topoindexes)
    (topoindex : Nat) (topoindexes' : Topoindexes) : Prop where
  ordered : Ordered config topoindexes'
  extend : Extends topoindexes topoindexes'
  isDone : 1 < topoindexes' triggerid
  returned : topoindex = topoindexes' triggerid

theorem sortLoop_spec {sortRec : Nat → Topoindexes → Option (Nat × Topoindexes)}
    {dependencies : List Nat} (areNext : ∀ next ∈ dependencies, DependsOn config triggerid next)
    (acyclic : ¬TransGen (DependsOn config) triggerid triggerid)
    (chains : ∀ next ∈ dependencies, ChainsFrom config bound next) (isBound : bound ≤ 32)
    (visits : ∀ next ∈ dependencies, ∀ topoindexes topoindex topoindexes',
      sortRec next topoindexes = some (topoindex, topoindexes') → Ordered config topoindexes →
      config.dependencies next ≠ [] → topoindexes next = 1 →
      (∀ other, topoindexes other = 0 → TransGen (DependsOn config) other next) →
      Visited config next topoindexes topoindex topoindexes')
    (ordered : Ordered config topoindexes)
    (inProgress : ∀ other, topoindexes other = 0 →
      other = triggerid ∨ TransGen (DependsOn config) other triggerid)
    (atLeast : 2 ≤ topoindex)
    (isResult : sortLoop config sortRec dependencies topoindex topoindexes =
      some (topoindex', topoindexes')) :
    Raised config dependencies topoindexes topoindex topoindexes' topoindex' := by
  induction dependencies generalizing topoindex topoindexes with
  | nil =>
    obtain ⟨rfl, rfl⟩ := Prod.mk.inj (some.inj isResult)
    exact ⟨ordered, .refl _, le_rfl, nofun, fun _ _ isLess => isLess⟩
  | cons next dependencies ih =>
    obtain ⟨isNext, areNext⟩ := forall_mem_cons.mp areNext
    obtain ⟨chainsNext, chains⟩ := forall_mem_cons.mp chains
    obtain ⟨visitsNext, visits⟩ := forall_mem_cons.mp visits
    rw [sortLoop] at isResult
    split_ifs at isResult with isMissing isDone isLeaf
    · have isSmall := ordered.settled_le (Or.inr isDone) chainsNext
      have raises := raiseIndex_spec topoindex (isSmall.trans (by omega))
      refine Raised.cons ordered (.refl _) (Or.inr isDone) raises.1 raises.2.1
        (fun bound chains isLess => ?_)
        (ih areNext chains visits ordered inProgress (atLeast.trans raises.1) isResult)
      have isLess' := ordered.settled_le (Or.inr isDone) chains
      omega
    · have isOne := ordered.leaf next isLeaf
      exact Raised.cons ordered (.refl _) (Or.inl isLeaf) le_rfl (by omega)
        (fun _ _ isLess => isLess)
        (ih areNext chains visits ordered inProgress atLeast isResult)
    · obtain ⟨⟨nextTopoindex, middle⟩, isVisit, isResult⟩ := bind_eq_some_iff.mp isResult
      -- a trigger in progress would close a cycle
      have notInProgress : topoindexes next ≠ 0 := by
        intro isZero
        obtain rfl | path := inProgress next isZero
        · exact acyclic (.single isNext)
        · exact acyclic (.head isNext path)
      have visited := visitsNext topoindexes nextTopoindex middle isVisit ordered isLeaf
        (by omega) fun other isZero => by
          obtain rfl | path := inProgress other isZero
          · exact .single isNext
          · exact .tail path isNext
      have isSmall := visited.ordered.settled_le (Or.inr visited.isDone) chainsNext
      rw [← visited.returned] at isSmall
      have raises := raiseIndex_spec topoindex (isSmall.trans (by omega))
      refine Raised.cons visited.ordered visited.extend (Or.inr visited.isDone) raises.1
        (visited.returned ▸ raises.2.1) (fun bound chains isLess => ?_)
        (ih areNext chains visits visited.ordered
          (fun other isZero => inProgress other ((visited.extend.progress other).mp isZero))
          (atLeast.trans raises.1) isResult)
      have isLess' := visited.ordered.settled_le (Or.inr visited.isDone) chains
      rw [← visited.returned] at isLess'
      omega

theorem Raised.visited (raised : Raised config (config.dependencies triggerid)
      (Function.update topoindexes triggerid 0) 2 topoindexes' topoindex)
    (isUnvisited : topoindexes triggerid = 1) (isNode : config.dependencies triggerid ≠ [])
    (acyclic : ¬TransGen (DependsOn config) triggerid triggerid) :
    Visited config triggerid topoindexes topoindex
      (Function.update topoindexes' triggerid topoindex) := by
  have atLeast := raised.le
  have isZero : topoindexes' triggerid = 0 := by
    rw [raised.extend.progress, Function.update_self]
  have other_eq {other : Nat} (isOther : other ≠ triggerid) :
      Function.update topoindexes' triggerid topoindex other = topoindexes' other :=
    Function.update_of_ne isOther _ _
  have settled_update {other : Nat} (isOther : other ≠ triggerid)
      (settled : Settled config topoindexes' other) :
      Settled config (Function.update topoindexes' triggerid topoindex) other := by
    rwa [Settled, other_eq isOther]
  refine ⟨⟨fun other isLeaf => ?_, fun other isDone next isNext => ?_,
    fun other isDone bound chains => ?_⟩, ⟨fun other => ?_, fun other isDone => ?_⟩, ?_, ?_⟩
  · have isOther : other ≠ triggerid := by
      rintro rfl
      exact isNode isLeaf
    rw [other_eq isOther]
    exact raised.ordered.leaf other isLeaf
  · by_cases isSelf : other = triggerid
    · subst isSelf
      have isOther : next ≠ other := by
        rintro rfl
        exact acyclic (.single isNext)
      rw [Function.update_self, other_eq isOther]
      obtain ⟨settled, isAbove⟩ := raised.above next isNext
      exact ⟨settled_update isOther settled, isAbove⟩
    · rw [other_eq isSelf] at isDone ⊢
      obtain ⟨settled, isAbove⟩ := raised.ordered.above other isDone next isNext
      -- a trigger that has been assigned an index does not depend on this one
      have isOther : next ≠ triggerid := by
        rintro rfl
        obtain isLeaf | isSettled := settled
        · exact isNode isLeaf
        · omega
      rw [other_eq isOther]
      exact ⟨settled_update isOther settled, isAbove⟩
  · by_cases isSelf : other = triggerid
    · subst isSelf
      rw [Function.update_self]
      cases bound with
      | zero => exact absurd chains isNode
      | succ bound => exact raised.bounded bound chains (by omega)
    · rw [other_eq isSelf] at isDone ⊢
      exact raised.ordered.bounded other isDone bound chains
  · by_cases isSelf : other = triggerid
    · subst isSelf
      rw [Function.update_self, isUnvisited]
      omega
    · rw [other_eq isSelf, raised.extend.progress, Function.update_of_ne isSelf]
  · have isOther : other ≠ triggerid := by
      rintro rfl
      omega
    have same : Function.update topoindexes triggerid 0 other = topoindexes other :=
      Function.update_of_ne isOther _ _
    rw [other_eq isOther, raised.extend.done other (by rwa [same]), same]
  · rw [Function.update_self]
    omega
  · rw [Function.update_self]

theorem Ordered.update (ordered : Ordered config topoindexes)
    (isNode : config.dependencies triggerid ≠ []) (isUnvisited : topoindexes triggerid = 1) :
    Ordered config (Function.update topoindexes triggerid 0) := by
  have other_eq {other : Nat} (isOther : other ≠ triggerid) :
      Function.update topoindexes triggerid 0 other = topoindexes other :=
    Function.update_of_ne isOther _ _
  have isOther {other : Nat} (isDone : 1 < Function.update topoindexes triggerid 0 other) :
      other ≠ triggerid := by
    rintro rfl
    rw [Function.update_self] at isDone
    omega
  refine ⟨fun other isLeaf => ?_, fun other isDone next isNext => ?_,
    fun other isDone bound chains => ?_⟩
  · have isDifferent : other ≠ triggerid := by
      rintro rfl
      exact isNode isLeaf
    rw [other_eq isDifferent]
    exact ordered.leaf other isLeaf
  · have same := other_eq (isOther isDone)
    rw [same] at isDone ⊢
    obtain ⟨settled, isAbove⟩ := ordered.above other isDone next isNext
    have isDifferent : next ≠ triggerid := by
      rintro rfl
      obtain isLeaf | isSettled := settled
      · exact isNode isLeaf
      · omega
    rw [Settled, other_eq isDifferent]
    exact ⟨settled, isAbove⟩
  · have same := other_eq (isOther isDone)
    rw [same] at isDone ⊢
    exact ordered.bounded other isDone bound chains

/-- The recursion assigns an index to a trigger that has none, and to all triggers below. -/
theorem sortRec_spec (chains : ChainsFrom config bound triggerid) (isLevel : level + bound ≤ 32)
    (ordered : Ordered config topoindexes) (isNode : config.dependencies triggerid ≠ [])
    (isUnvisited : topoindexes triggerid = 1)
    (inProgress : ∀ other, topoindexes other = 0 → TransGen (DependsOn config) other triggerid)
    (isResult : sortTriggersTopologicallyRec config fuel triggerid level topoindexes =
      some (topoindex, topoindexes')) :
    Visited config triggerid topoindexes topoindex topoindexes' := by
  induction fuel generalizing triggerid level topoindexes topoindex topoindexes' bound with
  | zero => cases isResult
  | succ fuel ih =>
    have acyclic := chains.not_cycle
    rw [sortTriggersTopologicallyRec, if_neg (by omega)] at isResult
    split_ifs at isResult with isMissing isZero
    · omega
    · obtain ⟨⟨raised, middle⟩, isLoop, isResult⟩ := map_eq_some_iff.mp isResult
      obtain ⟨rfl, rfl⟩ := Prod.mk.inj isResult
      cases bound with
      | zero => exact absurd chains isNode
      | succ bound =>
        refine Raised.visited ?_ isUnvisited isNode acyclic
        refine sortLoop_spec (fun next isNext => isNext) acyclic chains (by omega)
          (fun next isNext topoindexes topoindex topoindexes' isVisit ordered isNode
            isUnvisited inProgress =>
            ih (chains next isNext) (by omega) ordered isNode isUnvisited inProgress
              isVisit)
          (ordered.update isNode isUnvisited) (fun other isZero => ?_) le_rfl isLoop
        by_cases isSelf : other = triggerid
        · exact Or.inl isSelf
        · rw [Function.update_of_ne isSelf] at isZero
          exact Or.inr (inProgress other isZero)

theorem sortTriggersTopologically_spec (chains : ∀ triggerid, ChainsFrom config 32 triggerid)
    (exist : TriggersExist config)
    (areLists : ∀ triggerid ∈ order, (config.trigdeps triggerid).isSome)
    (ordered : Ordered config topoindexes) (idle : ∀ triggerid, topoindexes triggerid ≠ 0)
    (isResult : sortTriggersTopologically config fuel order topoindexes = some topoindexes') :
    Ordered config topoindexes' ∧ Extends topoindexes topoindexes' ∧
      ∀ triggerid ∈ order, Settled config topoindexes' triggerid := by
  induction order generalizing topoindexes with
  | nil =>
    obtain rfl := some.inj isResult
    exact ⟨ordered, .refl _, nofun⟩
  | cons triggerid order ih =>
    obtain ⟨isList, areLists⟩ := forall_mem_cons.mp areLists
    rw [sortTriggersTopologically, foldlM_cons] at isResult
    obtain ⟨middle, isMiddle, isResult⟩ := bind_eq_some_iff.mp isResult
    have first : Ordered config middle ∧ Extends topoindexes middle ∧
        Settled config middle triggerid := by
      split_ifs at isMiddle with isSettled
      · obtain rfl := some.inj isMiddle
        obtain isMissing | isDone | isLeaf := isSettled
        · rw [isNone_iff_eq_none] at isMissing
          have isTrigger := exist triggerid isList
          rw [isMissing] at isTrigger
          cases isTrigger
        · exact ⟨ordered, .refl _, Or.inr isDone⟩
        · exact ⟨ordered, .refl _, Or.inl isLeaf⟩
      · simp only [not_or] at isSettled
        obtain ⟨⟨topoindex, middle⟩, isVisit, rfl⟩ := map_eq_some_iff.mp isMiddle
        have isNonzero := idle triggerid
        have visited := sortRec_spec (chains triggerid) (by omega) ordered isSettled.2.2
          (by omega) (fun other isZero => absurd isZero (idle other)) isVisit
        exact ⟨visited.ordered, visited.extend, Or.inr visited.isDone⟩
    obtain ⟨orderedMiddle, extendMiddle, settled⟩ := first
    obtain ⟨ordered', extend, allSettled⟩ := ih areLists orderedMiddle
      (fun other => (extendMiddle.progress other).not.mpr (idle other)) isResult
    exact ⟨ordered', extendMiddle.trans extend, forall_mem_cons.mpr
      ⟨(extend.settled orderedMiddle ordered' settled).1, allSettled⟩⟩

theorem triggerUpdateTopology_above (chains : ChainsAtMost config 32) (exist : TriggersExist config)
    (areLists : ∀ triggerid, triggerid ∈ order ↔ (config.trigdeps triggerid).isSome)
    (isResult : triggerUpdateTopology config fuel order = some topoindexes) {master : Nat}
    (dependsOn : DependsOn config triggerid master) :
    topoindexes master < topoindexes triggerid := by
  have start : Ordered config fun _ => 1 := ⟨fun _ _ => rfl, nofun, nofun⟩
  obtain ⟨ordered, -, allSettled⟩ := sortTriggersTopologically_spec chains.chainsFrom exist
    (fun triggerid => (areLists triggerid).mp) start nofun isResult
  obtain isLeaf | isDone :=
    allSettled triggerid ((areLists triggerid).mpr (isSome_of_dependsOn dependsOn).1)
  · rw [DependsOn, isLeaf] at dependsOn
    cases dependsOn
  · exact (ordered.above triggerid isDone master dependsOn).2

end Zabbix.ConfigCache.Topology
