import Mathlib.Data.List.Nodup

/-!
# Doubly linked lists

A doubly linked list is given by two functions, `next` and `prev`, over nodes
with a distinguished `null`.  The list starts at `next null`; the node before
the first one is `null`, and so is the node after the last one.

`Threaded` says that the list visits exactly the given nodes in the given
order.  The lemmas describe the two edits of such a list, and they ask only
for the values of the new functions at the nodes concerned, so that they apply
to any representation of the link fields.
-/

namespace Zabbix.Library.LinkedList

open List

variable {Node : Type*} {next prev next' prev' : Node → Node} {null : Node}

/-- The nodes after a given one, with their back links. -/
def Path (next prev : Node → Node) (null : Node) : Node → List Node → Prop
  | node, [] => next node = null
  | node, follower :: rest =>
    next node = follower ∧ prev follower = node ∧ Path next prev null follower rest

/-- The doubly linked list visits exactly `nodes`. -/
def Threaded (next prev : Node → Node) (null : Node) (nodes : List Node) : Prop :=
  (null :: nodes).Nodup ∧ Path next prev null null nodes

theorem path_congr {node : Node} {nodes : List Node}
    (path : Path next prev null node nodes)
    (sameNext : ∀ other ∈ node :: nodes, next' other = next other)
    (samePrev : ∀ other ∈ nodes, prev' other = prev other) :
    Path next' prev' null node nodes := by
  induction nodes generalizing node with
  | nil => exact (sameNext node mem_cons_self).trans path
  | cons follower rest ih =>
    obtain ⟨forward, backward, later⟩ := path
    refine ⟨(sameNext node mem_cons_self).trans forward,
      (samePrev follower mem_cons_self).trans backward,
      ih later ?_ ?_⟩
    · intro other member
      exact sameNext other (mem_cons_of_mem _ member)
    · intro other member
      exact samePrev other (mem_cons_of_mem _ member)

theorem Threaded.congr {nodes : List Node}
    (threaded : Threaded next prev null nodes)
    (first : next' null = next null)
    (sameNext : ∀ node ∈ nodes, next' node = next node)
    (samePrev : ∀ node ∈ nodes, prev' node = prev node) :
    Threaded next' prev' null nodes := by
  refine ⟨threaded.1, path_congr threaded.2 ?_ samePrev⟩
  intro node member
  rcases mem_cons.mp member with rfl | member
  · exact first
  · exact sameNext node member

theorem threaded_nil (empty : next null = null) : Threaded next prev null [] :=
  ⟨nodup_singleton null, empty⟩

theorem Threaded.first_eq {nodes : List Node} (threaded : Threaded next prev null nodes) :
    next null = nodes.headD null := by
  cases nodes with
  | nil => exact threaded.2
  | cons node rest => exact threaded.2.1

theorem Threaded.ne_null {nodes : List Node} (threaded : Threaded next prev null nodes)
    {node : Node} (member : node ∈ nodes) :
    node ≠ null := by
  rintro rfl
  exact (nodup_cons.mp threaded.1).1 member

theorem Threaded.push {nodes : List Node} (threaded : Threaded next prev null nodes)
    {node : Node} (notNull : node ≠ null) (fresh : node ∉ nodes)
    (first : next' null = node)
    (forward : next' node = next null)
    (backward : prev' node = null)
    (second : next null ≠ null → prev' (next null) = node)
    (sameNext : ∀ other ∈ nodes, next' other = next other)
    (samePrev : ∀ other ∈ nodes, other ≠ next null → prev' other = prev other) :
    Threaded next' prev' null (node :: nodes) := by
  obtain ⟨nodup, path⟩ := threaded
  obtain ⟨nullFresh, nodesNodup⟩ := nodup_cons.mp nodup
  constructor
  · rw [nodup_cons, nodup_cons, mem_cons, not_or]
    exact ⟨⟨notNull.symm, nullFresh⟩, fresh, nodesNodup⟩
  · refine ⟨first, backward, ?_⟩
    cases nodes with
    | nil => exact forward.trans path
    | cons follower rest =>
      obtain ⟨toFollower, -, later⟩ := path
      have followerNotNull : follower ≠ null := by
        rintro rfl
        exact nullFresh mem_cons_self
      refine ⟨forward.trans toFollower, ?_, path_congr later sameNext ?_⟩
      · rw [← toFollower]
        exact second (toFollower ▸ followerNotNull)
      · intro other member
        refine samePrev other (mem_cons_of_mem _ member) ?_
        rw [toFollower]
        rintro rfl
        exact (nodup_cons.mp nodesNodup).1 member

theorem path_neighbours {start node : Node} {before after : List Node}
    (path : Path next prev null start (before ++ node :: after)) :
    prev node = (start :: before).getLast (cons_ne_nil _ _) ∧
      next node = after.headD null := by
  induction before generalizing start with
  | nil =>
    refine ⟨path.2.1, ?_⟩
    cases after with
    | nil => exact path.2.2
    | cons follower rest => exact path.2.2.1
  | cons first rest ih =>
    rw [List.getLast_cons (cons_ne_nil _ _)]
    exact ih path.2.2

theorem path_unlink {start node : Node} {before after : List Node}
    (nodup : (start :: (before ++ node :: after)).Nodup)
    (nullFresh : null ∉ before ++ node :: after)
    (path : Path next prev null start (before ++ node :: after))
    (bridge : next' (prev node) = next node)
    (bridgeBack : next node ≠ null → prev' (next node) = prev node)
    (sameNext : ∀ other ∈ start :: (before ++ after),
      other ≠ prev node → next' other = next other)
    (samePrev : ∀ other ∈ before ++ after,
      other ≠ next node → prev' other = prev other) :
    Path next' prev' null start (before ++ after) := by
  induction before generalizing start with
  | nil =>
    obtain ⟨forward, backward, later⟩ := path
    simp only [nil_append] at nodup nullFresh sameNext samePrev ⊢
    rw [backward] at bridge bridgeBack
    obtain ⟨startFresh, nodupRest⟩ := nodup_cons.mp nodup
    obtain ⟨nodeFresh, nodupAfter⟩ := nodup_cons.mp nodupRest
    cases after with
    | nil => exact bridge.trans later
    | cons follower rest =>
      obtain ⟨toFollower, -, beyond⟩ := later
      have followerNotNull : follower ≠ null := by
        rintro rfl
        exact nullFresh (mem_cons_of_mem _ mem_cons_self)
      refine ⟨bridge.trans toFollower, ?_, path_congr beyond ?_ ?_⟩
      · rw [← toFollower]
        exact bridgeBack (toFollower ▸ followerNotNull)
      · intro other member
        refine sameNext other (mem_cons_of_mem _ member) ?_
        rw [backward]
        rintro rfl
        exact startFresh (mem_cons_of_mem _ member)
      · intro other member
        refine samePrev other (mem_cons_of_mem _ member) ?_
        rw [toFollower]
        rintro rfl
        exact (nodup_cons.mp nodupAfter).1 member
  | cons first rest ih =>
    obtain ⟨forward, backward, later⟩ := path
    have neighbours := path_neighbours later
    have nodupRest := (nodup_cons.mp nodup).2
    have startFresh := (nodup_cons.mp nodup).1
    have firstFresh := (nodup_cons.mp nodupRest).1
    refine ⟨?_, ?_, ih nodupRest ?_ later ?_ ?_⟩
    · rw [sameNext start mem_cons_self]
      · exact forward
      · rw [neighbours.1]
        intro same
        have inside : start ∈ first :: rest := same ▸ getLast_mem _
        apply startFresh
        rw [cons_append, mem_cons, mem_append]
        rcases mem_cons.mp inside with isFirst | later
        · exact Or.inl isFirst
        · exact Or.inr (Or.inl later)
    · rw [samePrev first mem_cons_self]
      · exact backward
      · rw [neighbours.2]
        intro same
        cases after with
        | nil =>
          rw [headD_nil] at same
          exact nullFresh (same ▸ mem_cons_self)
        | cons follower beyond =>
          rw [headD_cons] at same
          apply firstFresh
          rw [same]
          simp
    · intro inside
      exact nullFresh (mem_cons_of_mem _ inside)
    · intro other member
      exact sameNext other (mem_cons_of_mem _ member)
    · intro other member
      exact samePrev other (mem_cons_of_mem _ member)

theorem Threaded.unlink {before after : List Node} {node : Node}
    (threaded : Threaded next prev null (before ++ node :: after))
    (bridge : next' (prev node) = next node)
    (bridgeBack : next node ≠ null → prev' (next node) = prev node)
    (sameNext : ∀ other ∈ null :: (before ++ after),
      other ≠ prev node → next' other = next other)
    (samePrev : ∀ other ∈ before ++ after,
      other ≠ next node → prev' other = prev other) :
    Threaded next' prev' null (before ++ after) := by
  obtain ⟨nodup, path⟩ := threaded
  refine ⟨?_, path_unlink nodup (nodup_cons.mp nodup).1 path bridge bridgeBack sameNext samePrev⟩
  refine nodup.sublist (List.Sublist.cons_cons null ?_)
  exact List.Sublist.append_left (sublist_cons_self _ _) before

theorem Threaded.neighbours {before after : List Node} {node : Node}
    (threaded : Threaded next prev null (before ++ node :: after)) :
    prev node ∈ null :: before ∧ next node ∈ after ++ [null] := by
  obtain ⟨back, forth⟩ := path_neighbours threaded.2
  constructor
  · rw [back]
    exact getLast_mem _
  · rw [forth]
    cases after with
    | nil => simp
    | cons follower rest => simp

end Zabbix.Library.LinkedList
