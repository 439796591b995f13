import Mathlib.Data.List.AList

/-!
# Sweeps over a table

A loop goes once through the entries of a table, in any order, and each turn changes the entry that
it is at.  What a turn does to one entry is what the loop does to all of them.
-/

namespace Zabbix.Library.Sweep

open List

variable {Key Value State : Type} [DecidableEq Key] {view : State → Key → Option Value}
  {step : State → Key → Value → State} {invariant : State → Prop} {kept : Value → Option Value}

/-- A turn at an entry keeps the invariant and changes no other entry. -/
def IsTurn (view : State → Key → Option Value) (step : State → Key → Value → State)
    (invariant : State → Prop) (kept : Value → Option Value) : Prop :=
  ∀ state key value, invariant state → view state key = some value →
    invariant (step state key value) ∧ view (step state key value) key = kept value ∧
      ∀ other, other ≠ key → view (step state key value) other = view state other

theorem foldl_entries (isTurn : IsTurn view step invariant kept) {state : State}
    (holds : invariant state) {entries : List (Sigma fun _ : Key => Value)}
    (nodup : entries.NodupKeys) (seen : ∀ entry ∈ entries, view state entry.1 = some entry.2) :
    invariant (entries.foldl (fun state entry => step state entry.1 entry.2) state) ∧
      ∀ key, view (entries.foldl (fun state entry => step state entry.1 entry.2) state) key =
        if key ∈ entries.keys then (view state key).bind kept else view state key := by
  induction entries generalizing state with
  | nil => exact ⟨holds, fun _ => rfl⟩
  | cons entry entries ih =>
    obtain ⟨notMem, nodup⟩ := nodupKeys_cons.mp nodup
    have seenFirst := seen entry mem_cons_self
    obtain ⟨next, here, elsewhere⟩ := isTurn state entry.1 entry.2 holds seenFirst
    obtain ⟨after, sees⟩ := ih next nodup fun later member => by
      rw [elsewhere _ (Ne.symm (ne_key.mp notMem later member)),
        seen later (mem_cons_of_mem _ member)]
    refine ⟨after, fun key => (sees key).trans ?_⟩
    by_cases isHere : key = entry.1
    · subst isHere
      simp [notMem, here, seenFirst]
    · simp [isHere, elsewhere key isHere]

theorem foldl_table (isTurn : IsTurn view step invariant kept) {state : State}
    (holds : invariant state) (table : AList fun _ : Key => Value)
    (sees : ∀ key, view state key = table.lookup key)
    {entries : List (Sigma fun _ : Key => Value)} (isPerm : entries.Perm table.entries) :
    invariant (entries.foldl (fun state entry => step state entry.1 entry.2) state) ∧
      ∀ key, view (entries.foldl (fun state entry => step state entry.1 entry.2) state) key =
        (table.lookup key).bind kept := by
  obtain ⟨after, lookup⟩ := foldl_entries isTurn holds
    ((perm_nodupKeys isPerm).mpr table.nodupKeys) fun entry member => by
      rw [sees]
      exact AList.mem_lookup_iff.mpr (isPerm.mem_iff.mp member)
  refine ⟨after, fun key => (lookup key).trans ?_⟩
  rw [sees]
  split_ifs with isKey
  · rfl
  · have notMem : key ∉ table := fun member => isKey ((isPerm.map Sigma.fst).mem_iff.mpr member)
    rw [AList.lookup_eq_none.mpr notMem]
    rfl

end Zabbix.Library.Sweep
