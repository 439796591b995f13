import Mathlib.Data.Finset.Card
import Mathlib.Data.List.Chain

/-!
# Propagation of calculated values

Nodes of a network have values, and the value of some nodes is calculated from the values of
others.  When a value changes, the nodes that depend on it are visited depth first, and a
visit goes on to the dependents of a node only if the value of the node changes.

A node is settled when it has the value calculated for it.  A visit settles the node and
unsettles nobody, provided that the network has no cycles.
-/

namespace Zabbix.Library.Propagation

open List

variable {Node Value : Type*} [DecidableEq Node]

/-- How values are calculated, and whom a node is to pass its changes to. -/
structure Network (Node Value : Type*) where
  calculate : Node → (Node → Value) → Option Value
  dependents : Node → List Node

/-- The values, and the changes in the order in which they have been made. -/
structure State (Node Value : Type*) where
  values : Node → Value
  changes : List (Node × Value)

/-- A node gets a value. -/
def State.assign (state : State Node Value) (node : Node) (value : Value) :
    State Node Value where
  values := Function.update state.values node value
  changes := state.changes ++ [(node, value)]

@[simp]
theorem State.assign_values (state : State Node Value) (node : Node) (value : Value) :
    (state.assign node value).values = Function.update state.values node value :=
  rfl

@[simp]
theorem State.assign_changes (state : State Node Value) (node : Node) (value : Value) :
    (state.assign node value).changes = state.changes ++ [(node, value)] :=
  rfl

/-- A node is visited; the depth bounds the recursion. -/
def visit [DecidableEq Value] (network : Network Node Value) : Nat → Node → State Node Value →
    Option (State Node Value)
  | 0, _, _ => none
  | depth + 1, node, state =>
    match network.calculate node state.values with
    | none => some state
    | some value =>
      if state.values node = value then some state
      else
        (network.dependents node).foldlM
          (fun state dependent => visit network depth dependent state)
          (state.assign node value)

/-- The node has the value that is calculated for it. -/
def Settled (network : Network Node Value) (values : Node → Value) (node : Node) : Prop :=
  ∀ value, network.calculate node values = some value → values node = value

/-! ## Changes -/

/-- Every change in turn gives its node another value. -/
inductive Replays : (Node → Value) → List (Node × Value) → (Node → Value) → Prop where
  | nil (values : Node → Value) : Replays values [] values
  | cons {values final : Node → Value} {node : Node} {value : Value}
      {changes : List (Node × Value)} :
      values node ≠ value → Replays (Function.update values node value) changes final →
      Replays values ((node, value) :: changes) final

theorem Replays.append {values middle final : Node → Value}
    {changes more : List (Node × Value)} (replays : Replays values changes middle)
    (next : Replays middle more final) :
    Replays values (changes ++ more) final := by
  induction replays with
  | nil => exact next
  | cons isChange _ ih => exact Replays.cons isChange (ih next)

/-- The values that the changes give to one node. -/
def changesOf (node : Node) (changes : List (Node × Value)) : List Value :=
  (changes.filter fun change => change.1 = node).map Prod.snd

theorem Replays.changesOf {values final : Node → Value} {changes : List (Node × Value)}
    (replays : Replays values changes final) (node : Node) :
    (values node :: changesOf node changes).IsChain (· ≠ ·) ∧
      (values node :: Propagation.changesOf node changes).getLast (cons_ne_nil _ _) =
        final node := by
  induction replays with
  | nil => exact ⟨isChain_singleton _, rfl⟩
  | @cons values final changed value changes isChange _ ih =>
    by_cases isNode : changed = node
    · subst isNode
      rw [Function.update_self] at ih
      have first : Propagation.changesOf changed ((changed, value) :: changes) =
          value :: Propagation.changesOf changed changes := by
        simp [Propagation.changesOf]
      simp only [first]
      exact ⟨isChain_cons_cons.mpr ⟨isChange, ih.1⟩, ih.2⟩
    · rw [Function.update_of_ne (Ne.symm isNode)] at ih
      have same : Propagation.changesOf node ((changed, value) :: changes) =
          Propagation.changesOf node changes := by
        simp [Propagation.changesOf, isNode]
      simp only [same]
      exact ih

/-! ## Visits -/

/-- The visits of some nodes: what has been changed, whom they settle, and how far they go. -/
structure Visits (network : Network Node Value) (nodes : List Node)
    (state final : State Node Value) : Prop where
  changes : ∃ added, final.changes = state.changes ++ added ∧
    Replays state.values added final.values
  settles : ∀ pending : Set Node,
    (∀ node, node ∉ pending → node ∉ nodes → Settled network state.values node) →
    ∀ node, node ∉ pending → Settled network final.values node
  inside : ∀ inner : Node → Prop,
    (∀ node, inner node → ∀ dependent ∈ network.dependents node, inner dependent) →
    (∀ node ∈ nodes, inner node) → ∀ node, final.values node ≠ state.values node → inner node
  valid : ∀ (inner : Node → Prop) (valid : Value → Prop),
    (∀ node, inner node → ∀ dependent ∈ network.dependents node, inner dependent) →
    (∀ node, inner node → ∀ values, (∀ other, valid (values other)) →
      ∀ value, network.calculate node values = some value → valid value) →
    (∀ node ∈ nodes, inner node) → (∀ node, valid (state.values node)) →
    ∀ node, valid (final.values node)

variable {network : Network Node Value} {state middle final : State Node Value}
variable {node : Node} {nodes : List Node} {value : Value}

theorem Visits.nil (network : Network Node Value) (state : State Node Value) :
    Visits network [] state state where
  changes := ⟨[], (append_nil _).symm, Replays.nil _⟩
  settles := fun _ settled node isOutside => settled node isOutside not_mem_nil
  inside := fun _ _ _ _ isChanged => absurd rfl isChanged
  valid := fun _ _ _ _ _ areValid => areValid

theorem Visits.append {others : List Node} (first : Visits network others state middle)
    (rest : Visits network nodes middle final) :
    Visits network (others ++ nodes) state final where
  changes := by
    obtain ⟨added, isAdded, replays⟩ := first.changes
    obtain ⟨more, isMore, next⟩ := rest.changes
    exact ⟨added ++ more, by rw [isMore, isAdded, append_assoc], replays.append next⟩
  settles := by
    intro pending settled
    -- the nodes that are still to be visited wait together with the pending ones
    refine rest.settles pending fun other notPending notRest => ?_
    refine first.settles (pending ∪ {later | later ∈ nodes}) (fun one outside notFirst => ?_)
      other (fun isIn => isIn.elim notPending notRest)
    refine settled one (fun isPending => outside (Or.inl isPending)) fun isNode => ?_
    exact (mem_append.mp isNode).elim notFirst fun isRest => outside (Or.inr isRest)
  inside := by
    intro inner closed areInner other isChanged
    by_cases same : middle.values other = state.values other
    · exact rest.inside inner closed (fun one isOne => areInner one (mem_append_right _ isOne))
        other (same ▸ isChanged)
    · exact first.inside inner closed (fun one isOne => areInner one (mem_append_left _ isOne))
        other same
  valid := by
    intro inner valid closed calculates areInner areValid
    refine rest.valid inner valid closed calculates
      (fun one isOne => areInner one (mem_append_right _ isOne)) ?_
    exact first.valid inner valid closed calculates
      (fun one isOne => areInner one (mem_append_left _ isOne)) areValid

theorem Visits.settled (isSettled : Settled network state.values node) :
    Visits network [node] state state where
  changes := ⟨[], (append_nil _).symm, Replays.nil _⟩
  settles := by
    intro pending settled other isOutside
    by_cases isNode : other = node
    · exact isNode ▸ isSettled
    · exact settled other isOutside fun isIn => isNode (mem_singleton.mp isIn)
  inside := fun _ _ _ _ isChanged => absurd rfl isChanged
  valid := fun _ _ _ _ _ areValid => areValid

/-- Some nodes of a network without cycles: changes are passed on to active nodes of a lower
rank only, and they matter for nobody else. -/
structure Ordered (network : Network Node Value) (active : Node → Prop) (rank : Node → Nat) :
    Prop where
  closed : ∀ node, active node → ∀ dependent ∈ network.dependents node, active dependent
  below : ∀ node, active node → ∀ dependent ∈ network.dependents node, rank dependent < rank node
  unread : ∀ node, active node → ∀ other, other ∉ network.dependents node →
    ∀ values value, network.calculate other (Function.update values node value) =
      network.calculate other values

variable {active : Node → Prop} {rank : Node → Nat}

theorem Visits.assign (ordered : Ordered network active rank) (isActive : active node)
    (isValue : network.calculate node state.values = some value)
    (isChange : state.values node ≠ value)
    (visits : Visits network (network.dependents node) (state.assign node value) final) :
    Visits network [node] state final where
  changes := by
    obtain ⟨added, isAdded, replays⟩ := visits.changes
    refine ⟨(node, value) :: added, ?_, Replays.cons isChange replays⟩
    rw [isAdded, State.assign_changes, append_assoc, singleton_append]
  settles := by
    intro pending settled
    refine visits.settles pending fun other isOutside notDependent other' isOther => ?_
    have unread := ordered.unread node isActive other notDependent state.values value
    rw [State.assign_values, unread] at isOther
    by_cases isNode : other = node
    · subst isNode
      rw [State.assign_values, Function.update_self]
      exact Option.some.inj (isValue.symm.trans isOther)
    · rw [State.assign_values, Function.update_of_ne isNode]
      exact settled other isOutside (fun isIn => isNode (mem_singleton.mp isIn)) other' isOther
  inside := by
    intro inner closed areInner other isChanged
    have isInner := areInner node (mem_singleton_self node)
    by_cases same : final.values other = (state.assign node value).values other
    · have isNode : other = node := by
        by_contra notNode
        rw [same, State.assign_values, Function.update_of_ne notNode] at isChanged
        exact isChanged rfl
      exact isNode ▸ isInner
    · exact visits.inside inner closed (closed node isInner) other same
  valid := by
    intro inner valid closed calculates areInner areValid
    have isInner := areInner node (mem_singleton_self node)
    refine visits.valid inner valid closed calculates (closed node isInner) fun other => ?_
    rw [State.assign_values, Function.update_apply]
    split
    · exact calculates node isInner state.values areValid value isValue
    · exact areValid other

theorem visits_foldlM {Item : Type*} {step : State Node Value → Item → Option (State Node Value)}
    {targets : Item → List Node} (items : List Item) (state : State Node Value)
    (visited : ∀ item ∈ items, ∀ state, ∃ final, step state item = some final ∧
      Visits network (targets item) state final) :
    ∃ final, items.foldlM step state = some final ∧
      Visits network (items.flatMap targets) state final := by
  induction items generalizing state with
  | nil => exact ⟨state, rfl, Visits.nil network state⟩
  | cons item items ih =>
    obtain ⟨middle, stepped, first⟩ := visited item mem_cons_self state
    obtain ⟨final, folded, rest⟩ := ih middle fun other isOther =>
      visited other (mem_cons_of_mem item isOther)
    refine ⟨final, ?_, first.append rest⟩
    rw [foldlM_cons, stepped]
    exact folded

/-- A visit returns when the recursion may go as deep as the rank of the node. -/
theorem visit_visits [DecidableEq Value] (ordered : Ordered network active rank) {depth : Nat}
    (isActive : active node) (deep : rank node < depth) (state : State Node Value) :
    ∃ final, visit network depth node state = some final ∧
      Visits network [node] state final := by
  induction depth generalizing node state with
  | zero => cases deep
  | succ depth ih =>
    rw [visit]
    cases isValue : network.calculate node state.values with
    | none =>
      refine ⟨state, rfl, Visits.settled fun value isSome => ?_⟩
      rw [isValue] at isSome
      cases isSome
    | some value =>
      dsimp only
      split
      next same =>
        refine ⟨state, rfl, Visits.settled fun value isSome => ?_⟩
        rw [isValue] at isSome
        exact same.trans (Option.some.inj isSome)
      next isChange =>
        obtain ⟨final, folded, visits⟩ := visits_foldlM (network.dependents node)
          (state.assign node value) fun dependent isDependent =>
            ih (ordered.closed node isActive dependent isDependent)
              (Nat.lt_of_lt_of_le (ordered.below node isActive dependent isDependent)
                (Nat.le_of_lt_succ deep))
        rw [flatMap_singleton'] at visits
        exact ⟨final, folded, Visits.assign ordered isActive isValue isChange visits⟩

/-! ## Ranks -/

section

variable (next : Node → Node → Prop) (finite : Finset Node)

open Classical in
/-- The number of nodes that can be reached from a node. -/
noncomputable def rankOf (node : Node) : Nat :=
  (finite.filter (Relation.TransGen next node)).card

variable {next finite}

omit [DecidableEq Node] in
/-- Without cycles there are fewer nodes ahead of the next node. -/
theorem rankOf_lt (acyclic : ∀ node, ¬ Relation.TransGen next node node) {first second : Node}
    (isNext : next first second) (isNode : second ∈ finite) :
    rankOf next finite second < rankOf next finite first := by
  classical
  refine Finset.card_lt_card (Finset.ssubset_iff_subset_ne.mpr ⟨fun node isAhead => ?_, ?_⟩)
  · obtain ⟨isIn, ahead⟩ := Finset.mem_filter.mp isAhead
    exact Finset.mem_filter.mpr ⟨isIn, Relation.TransGen.head isNext ahead⟩
  · intro same
    have isAhead : second ∈ finite.filter (Relation.TransGen next first) :=
      Finset.mem_filter.mpr ⟨isNode, Relation.TransGen.single isNext⟩
    rw [← same] at isAhead
    exact acyclic second (Finset.mem_filter.mp isAhead).2

omit [DecidableEq Node] in
theorem rankOf_le (node : Node) : rankOf next finite node ≤ finite.card := by
  classical
  exact Finset.card_filter_le finite _

end

end Zabbix.Library.Propagation
