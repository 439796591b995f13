import Zabbix.Algo.HeapFamily
import Zabbix.ConfigCache.TriggerExclusion

/-!
# No timer trigger is passed over

`zbx_dc_get_timer_triggerids` changes the next check of the trigger at the root of the timer queue
and then updates the heap, so the queue is in order in every state.  A call therefore comes to all
triggers that are due, unless it has as many as it may take.
-/

namespace Zabbix.ConfigCache.TimerQueue

open Algo.BinaryHeap Algo.DirectHeap Algo.HeapAgreement Algo.HeapFamily Algo.HeapOrder Library
open Common.History HistoryCache.Queue Library.KeyedTable TriggerLocks TriggerExclusion
open List hiding keys
open Option hiding or_assoc any_eq_false

/-- The next check of a trigger. -/
def nextcheckOf (triggers : Triggers) (triggerid : TriggerId) : Int :=
  ((triggers.lookup triggerid).map ZbxDcTrigger.nextcheck).getD 0

/-- The order of the timer queue. -/
def timerOrder (triggers : Triggers) : Elem Unit → Elem Unit → Int :=
  orderCompare fun elem => nextcheckOf triggers elem.key

variable {triggers : Triggers} {triggerid : TriggerId} {trigger new : ZbxDcTrigger}
variable {timerQueue : Heap Unit} {config : Configuration} {state next : State} {now : Int}

theorem nextcheckOf_of_found (found : triggers.lookup triggerid = some trigger) :
    nextcheckOf triggers triggerid = trigger.nextcheck := by
  rw [nextcheckOf, found]
  rfl

theorem nextcheckOf_insert (other : TriggerId) :
    nextcheckOf (triggers.insert triggerid new) other =
      if other = triggerid then new.nextcheck else nextcheckOf triggers other := by
  rw [nextcheckOf, lookup_insert_eq]
  split_ifs <;> rfl

theorem configTimerCompare_agree {elems : List (Elem Unit)}
    (queued : ∀ elem ∈ elems, elem.key ∈ triggers) :
    AgreeOn (· ∈ elems) (configTimerCompare triggers) (timerOrder triggers) := by
  intro first isFirst second isSecond
  obtain ⟨trigger1, found1⟩ := isSome_iff_exists.mp (AList.lookup_isSome.mpr (queued _ isFirst))
  obtain ⟨trigger2, found2⟩ := isSome_iff_exists.mp (AList.lookup_isSome.mpr (queued _ isSecond))
  rw [configTimerCompare, found1, found2, timerOrder, orderCompare, nextcheckOf_of_found found1,
    nextcheckOf_of_found found2]

/-! ## Locks keep the next checks -/

theorem nextcheckOf_keep (found : triggers.lookup triggerid = some trigger)
    (same : new.nextcheck = trigger.nextcheck) :
    nextcheckOf (triggers.insert triggerid new) = nextcheckOf triggers := by
  funext other
  rw [nextcheckOf_insert]
  split_ifs with isOther
  · rw [isOther, nextcheckOf_of_found found, same]
  · rfl

theorem lockEnabled_nextcheck (triggerids locked : List TriggerId) (triggers : Triggers) :
    nextcheckOf (lockEnabled triggerids triggers locked).1 = nextcheckOf triggers := by
  induction triggerids generalizing triggers locked with
  | nil => rfl
  | cons triggerid rest ih =>
    unfold lockEnabled
    split
    · exact ih _ _
    next trigger found =>
      split_ifs
      · exact ih _ _
      · exact (ih _ _).trans (nextcheckOf_keep found rfl)

theorem lockByHistoryItems_nextcheck (items : Table ItemId ZbxDcItem)
    (historyItems : List HcItem) (triggers : Triggers) (locked : List TriggerId) :
    nextcheckOf (dcConfigLockTriggersByHistoryItems items historyItems triggers locked).triggers =
      nextcheckOf triggers := by
  induction historyItems generalizing triggers locked with
  | nil => rfl
  | cons historyItem rest ih =>
    unfold dcConfigLockTriggersByHistoryItems
    split_ifs
    · exact ih _ _
    · exact (ih _ _).trans (lockEnabled_nextcheck _ _ _)

theorem lockByTriggerids_nextcheck (triggeridsIn locked : List TriggerId) (triggers : Triggers) :
    nextcheckOf (dcConfigLockTriggersByTriggerids triggeridsIn triggers locked).1 =
      nextcheckOf triggers := by
  induction triggeridsIn generalizing triggers locked with
  | nil => rfl
  | cons triggerid rest ih =>
    unfold dcConfigLockTriggersByTriggerids
    split
    · exact ih _ _
    next trigger found =>
      split_ifs
      · exact ih _ _
      · exact (ih _ _).trans (nextcheckOf_keep found rfl)

/-! ## The order of the queue -/

/-- The invariant, with the queue in order. -/
structure Timed (config : Configuration) (state : State) : Prop where
  consistent : Consistent config state
  ordered : HeapOrdered (timerOrder state.triggers) state.timerQueue

theorem Timed.keep (timed : Timed config state) (consistent : Consistent config next)
    (sameQueue : next.timerQueue = state.timerQueue)
    (same : nextcheckOf next.triggers = nextcheckOf state.triggers) : Timed config next where
  consistent := consistent
  ordered := by
    rw [sameQueue, timerOrder, same]
    exact timed.ordered

theorem dueTrigger_some {elem : Elem Unit}
    (due : dueTrigger timerQueue triggers now = some (elem, trigger)) :
    elem.key ∈ keys timerQueue ∧ triggers.lookup elem.key = some trigger ∧
      trigger.nextcheck ≤ now := by
  obtain ⟨member, found⟩ := dueTrigger_spec due
  refine ⟨member, found, ?_⟩
  unfold dueTrigger at due
  obtain ⟨_, -, due⟩ := bind_eq_some_iff.mp due
  obtain ⟨_, -, due⟩ := bind_eq_some_iff.mp due
  split_ifs at due with isLater
  obtain ⟨-, rfl⟩ := Prod.mk.inj (some.inj due)
  exact Int.not_lt.mp isLater

theorem later_of_dueTrigger (timed : Timed config state)
    (none : dueTrigger state.timerQueue state.triggers now = none) :
    ∀ triggerid ∈ keys state.timerQueue, now < nextcheckOf state.triggers triggerid := by
  intro triggerid isKey
  obtain ⟨elem, member, rfl⟩ := List.mem_map.mp isKey
  obtain ⟨minimum, found⟩ : ∃ minimum, zbxBinaryHeapFindMin state.timerQueue = some minimum :=
    ⟨_, getElem?_eq_getElem (length_pos_of_mem member)⟩
  have isQueued := timed.consistent.queued _ (mem_map_of_mem (mem_of_getElem? found))
  obtain ⟨trigger, isTrigger⟩ := isSome_iff_exists.mp (AList.lookup_isSome.mpr isQueued)
  rw [dueTrigger, found, bind_some, isTrigger, bind_some] at none
  split_ifs at none with isLater
  refine Int.lt_of_lt_of_le (nextcheckOf_of_found isTrigger ▸ isLater) ?_
  exact orderCompare_le_iff.mp
    (findMin_least (orderCompare_preorder _) timed.ordered found member)

theorem dcTimerCalculateNextcheck_gt (now : Int) (seed : TriggerId) :
    now < dcTimerCalculateNextcheck now seed := by
  unfold dcTimerCalculateNextcheck zbxTimerDelay
  dsimp only
  split_ifs <;> omega

/-- The change of a due trigger. -/
def served (now : Int) (triggerid : TriggerId) (trigger : ZbxDcTrigger) : ZbxDcTrigger :=
  { trigger with locked := true, nextcheck := dcTimerCalculateNextcheck now triggerid }

/-- One turn: the root gets a later next check, and the update puts the queue in order. -/
theorem updateDirect_served (timed : Timed config state) {elem : Elem Unit}
    (due : dueTrigger state.timerQueue state.triggers now = some (elem, trigger)) :
    ∃ timerQueue,
      zbxBinaryHeapUpdateDirect (configTimerCompare (state.triggers.insert elem.key
        (served now elem.key trigger))) state.timerQueue elem = some timerQueue ∧
      (keys timerQueue).Perm (keys state.timerQueue) ∧
      HeapOrdered (timerOrder (state.triggers.insert elem.key (served now elem.key trigger)))
        timerQueue := by
  obtain ⟨member, found, -⟩ := dueTrigger_some due
  have consistent := timed.consistent
  obtain ⟨timerQueue, updated, -, permuted⟩ := updateDirect_keys
    (configTimerCompare (state.triggers.insert elem.key (served now elem.key trigger)))
    consistent.indexed member
  have queued : ∀ other ∈ elem :: state.timerQueue.elems,
      other.key ∈ state.triggers.insert elem.key (served now elem.key trigger) := by
    intro other isOther
    rw [present_insert found]
    obtain rfl | isOther := mem_cons.mp isOther
    · exact consistent.queued _ member
    · exact consistent.queued _ (mem_map_of_mem isOther)
  have agree := configTimerCompare_agree queued
  refine ⟨timerQueue, updated, permuted, ?_⟩
  rw [updateDirect_agree agree] at updated
  refine updateDirect_settles (orderCompare_preorder _) consistent.indexed ?_ updated
  refine orderedBut_agree (orderCompare_preorder _) timed.ordered consistent.indexed ?_
  exact orderCompare_agree fun other isOther => by
    rw [nextcheckOf_insert, if_neg isOther.2]

theorem step_timed {label : Label} (timed : Timed config state)
    (executed : step config state label = some next) : Timed config next := by
  have consistent := step_consistent timed.consistent executed
  cases label with
  | lockByHistoryItems index historyItems =>
    simp only [step] at executed
    split_ifs at executed
    obtain rfl := some.inj executed
    exact timed.keep consistent rfl (lockByHistoryItems_nextcheck _ _ _ _)
  | lockByTriggerids index triggeridsIn =>
    simp only [step] at executed
    split_ifs at executed
    obtain rfl := some.inj executed
    exact timed.keep consistent rfl (lockByTriggerids_nextcheck _ _ _)
  | timerCheck index now limit =>
    simp only [step] at executed
    split_ifs at executed <;> exact timed.keep consistent (some.inj executed ▸ rfl)
      (some.inj executed ▸ rfl)
  | timerLock index =>
    simp only [step] at executed
    split at executed
    · split_ifs at executed
      exact timed.keep consistent (some.inj executed ▸ rfl) (some.inj executed ▸ rfl)
    · cases executed
  | timerIterate index =>
    simp only [step] at executed
    split at executed
    next now limit _ =>
      unfold timerIterate at executed
      dsimp only at executed
      split at executed
      next elem trigger due _ =>
        obtain ⟨timerQueue, updated, -, ordered⟩ := updateDirect_served timed due
        obtain ⟨_, isQueue, rfl⟩ := map_eq_some_iff.mp executed
        obtain rfl := some.inj (updated.symm.trans isQueue)
        exact ⟨consistent, ordered⟩
      next => exact timed.keep consistent (some.inj executed ▸ rfl) (some.inj executed ▸ rfl)
    · cases executed
  | unlockBegin index triggerids =>
    simp only [step] at executed
    split_ifs at executed
    exact timed.keep consistent (some.inj executed ▸ rfl) (some.inj executed ▸ rfl)
  | unlockNext index =>
    simp only [step] at executed
    split at executed
    next triggerid rest _ _ =>
      obtain rfl := some.inj executed
      refine timed.keep consistent rfl ?_
      split
      · rfl
      next trigger found => exact nextcheckOf_keep found rfl
    · exact timed.keep consistent (some.inj executed ▸ rfl) (some.inj executed ▸ rfl)
    · cases executed

theorem initial_timed
    (ordered : HeapOrdered (configTimerCompare config.triggers) config.timerQueue) :
    Timed config (initial config) where
  consistent := initial_consistent config
  ordered := heapOrdered_agree
    (configTimerCompare_agree fun _ member => config.queued _ (mem_map_of_mem member)) ordered

/-! ## The whole loop -/

/-- A trigger of the timer queue that is due and not locked. -/
def Awaits (state : State) (now : Int) (triggerid : TriggerId) : Prop :=
  triggerid ∈ keys state.timerQueue ∧ nextcheckOf state.triggers triggerid ≤ now ∧
    ¬IsLocked state.triggers triggerid

/-- What a call of `zbx_dc_get_timer_triggerids` does from its write lock on. -/
structure Takes (state final : State) (index : Nat) (now limit : Int) (taken : List TriggerId) :
    Prop where
  returns : (final.processes index).place = .outside
  given : (final.processes index).triggerids = (state.processes index).triggerids ++ taken
  distinct : taken.Nodup
  awaiting : ∀ triggerid ∈ taken, Awaits state now triggerid
  /-- The limit is reached, or all are taken and nothing in the queue is due any longer. -/
  complete : (taken.length : Int) = limit ∨
    (∀ triggerid, Awaits state now triggerid → triggerid ∈ taken) ∧
      ∀ triggerid ∈ keys final.timerQueue, now < nextcheckOf final.triggers triggerid

/-- How many triggers of the queue are due. -/
def dueCount (state : State) (now : Int) : Nat :=
  (keys state.timerQueue).countP fun triggerid => nextcheckOf state.triggers triggerid ≤ now

theorem timerIterate_turn (timed : Timed config state) {index : Nat} {limit : Int}
    (place : (state.processes index).place = .timerLoop now limit) {elem : Elem Unit}
    (due : dueTrigger state.timerQueue state.triggers now = some (elem, trigger))
    (continues : limit ≠ 0) :
    ∃ next, step config state (.timerIterate index) = some next ∧ Timed config next ∧
      (keys next.timerQueue).Perm (keys state.timerQueue) ∧
      next.triggers = state.triggers.insert elem.key (served now elem.key trigger) ∧
      next.processes index = { state.processes index with
        triggerids := (state.processes index).triggerids ++
          if trigger.locked then [] else [elem.key]
        place := .timerLoop now (if trigger.locked then limit else limit - 1) } := by
  obtain ⟨timerQueue, updated, permuted, -⟩ := updateDirect_served timed due
  have stepped : ∃ next, step config state (.timerIterate index) = some next := by
    simp only [step, place]
    exact (timerIterate_spec timed.consistent index now limit).imp fun _ => And.left
  obtain ⟨next, stepped⟩ := stepped
  refine ⟨next, stepped, step_timed timed stepped, ?_⟩
  have isZero : (limit == 0) = false := beq_eq_false_iff_ne.mpr continues
  simp only [step, place, timerIterate, due, isZero] at stepped
  obtain ⟨_, isQueue, rfl⟩ := map_eq_some_iff.mp stepped
  obtain rfl := some.inj (updated.symm.trans isQueue)
  refine ⟨permuted, rfl, ?_⟩
  rw [setProcess_process, if_pos rfl]
  cases trigger.locked <;> simp

theorem awaits_turn {elem : Elem Unit}
    (permuted : (keys next.timerQueue).Perm (keys state.timerQueue))
    (changed : next.triggers = state.triggers.insert elem.key (served now elem.key trigger))
    (triggerid : TriggerId) :
    Awaits next now triggerid ↔ Awaits state now triggerid ∧ triggerid ≠ elem.key := by
  have isLater := dcTimerCalculateNextcheck_gt now elem.key
  unfold Awaits
  rw [permuted.mem_iff, changed, nextcheckOf_insert, isLocked_insert]
  by_cases same : triggerid = elem.key
  · simp [same, served]
  · simp [same]

theorem dueCount_turn (timed : Timed config state) {elem : Elem Unit}
    (permuted : (keys next.timerQueue).Perm (keys state.timerQueue))
    (changed : next.triggers = state.triggers.insert elem.key (served now elem.key trigger))
    (due : dueTrigger state.timerQueue state.triggers now = some (elem, trigger)) :
    dueCount next now < dueCount state now := by
  obtain ⟨member, found, isDue⟩ := dueTrigger_some due
  have isLater := dcTimerCalculateNextcheck_gt now elem.key
  have split := perm_cons_erase member
  have nodup := keys_nodup timed.consistent.indexed
  have others : ((keys state.timerQueue).erase elem.key).countP
        (fun triggerid => nextcheckOf next.triggers triggerid ≤ now) =
      ((keys state.timerQueue).erase elem.key).countP
        fun triggerid => nextcheckOf state.triggers triggerid ≤ now := by
    refine countP_congr fun triggerid isOther => ?_
    rw [changed, nextcheckOf_insert, if_neg (nodup.mem_erase_iff.mp isOther).1]
  rw [dueCount, dueCount, (permuted.trans split).countP_eq, split.countP_eq, countP_cons,
    countP_cons, others, changed, nextcheckOf_insert, if_pos rfl, nextcheckOf_of_found found]
  have notDue : ¬(served now elem.key trigger).nextcheck ≤ now := Int.not_le.mpr isLater
  simp [isDue, notDue]

theorem timerLoop_takes (timed : Timed config state) (index : Nat) (limit : Int)
    (place : (state.processes index).place = .timerLoop now limit) :
    ∃ turns final taken,
      Transition.run (step config) state (replicate turns (.timerIterate index)) = some final ∧
        Takes state final index now limit taken := by
  induction isCount : dueCount state now using Nat.strong_induction_on generalizing state limit with
  | _ count ih =>
    by_cases goesOn : limit ≠ 0 ∧ (dueTrigger state.timerQueue state.triggers now).isSome
    · obtain ⟨continues, isDue⟩ := goesOn
      obtain ⟨⟨elem, trigger⟩, due⟩ := isSome_iff_exists.mp isDue
      obtain ⟨next, stepped, timedNext, permuted, changed, process⟩ :=
        timerIterate_turn timed place due continues
      obtain ⟨member, found, isDue⟩ := dueTrigger_some due
      have awaits := awaits_turn permuted changed
      obtain ⟨turns, final, taken, ran, takes⟩ := ih _
        (isCount ▸ dueCount_turn timed permuted changed due) timedNext _
        (congrArg Process.place process) rfl
      have given := takes.given
      rw [process] at given
      have own (triggerid : TriggerId) :
          triggerid ∈ (if trigger.locked then [] else [elem.key]) ↔
            triggerid = elem.key ∧ trigger.locked = false := by
        cases trigger.locked <;> simp
      have isFree : trigger.locked = false ↔ ¬IsLocked state.triggers elem.key := by
        simp [IsLocked, found]
      refine ⟨turns + 1, final, (if trigger.locked then [] else [elem.key]) ++ taken,
        Transition.run_cons_eq_some.mpr ⟨next, stepped, ran⟩, takes.returns,
        given.trans (append_assoc _ _ _), ?_, ?_, ?_⟩
      · refine Nodup.append (by cases trigger.locked <;> simp) takes.distinct ?_
        intro triggerid isOwn isTaken
        exact ((awaits triggerid).mp (takes.awaiting triggerid isTaken)).2
          ((own triggerid).mp isOwn).1
      · intro triggerid isTaken
        obtain isOwn | isTaken := mem_append.mp isTaken
        · obtain ⟨rfl, unlocked⟩ := (own triggerid).mp isOwn
          exact ⟨member, nextcheckOf_of_found found ▸ isDue, isFree.mp unlocked⟩
        · exact ((awaits triggerid).mp (takes.awaiting triggerid isTaken)).1
      · obtain same | ⟨all, later⟩ := takes.complete
        · left
          cases isLocked : trigger.locked <;> simp_all
        · refine .inr ⟨fun triggerid isAwaiting => mem_append.mpr ?_, later⟩
          by_cases same : triggerid = elem.key
          · exact .inl ((own triggerid).mpr ⟨same, isFree.mpr (same ▸ isAwaiting.2.2)⟩)
          · exact .inr (all triggerid ((awaits triggerid).mpr ⟨isAwaiting, same⟩))
    · have ended : step config state (.timerIterate index) = some
          { state.setProcess index { state.processes index with place := .outside } with
            lock := { state.lock with writer := none } } := by
        simp only [step, place, timerIterate]
        split
        next due continues => simp [due, beq_eq_false_iff_ne.mp continues] at goesOn
        next => rfl
      refine ⟨1, _, [], Transition.run_cons_eq_some.mpr ⟨_, ended, rfl⟩, ?_, ?_, nodup_nil,
        fun _ member => absurd member not_mem_nil, ?_⟩
      · exact congrArg Process.place ((setProcess_process _ _ _).trans (if_pos rfl))
      · exact (congrArg Process.triggerids ((setProcess_process _ _ _).trans (if_pos rfl))).trans
          (append_nil _).symm
      · by_cases isZero : limit = 0
        · exact .inl isZero.symm
        · have none : dueTrigger state.timerQueue state.triggers now = none := by
            simpa [isZero] using goesOn
          have isLater := later_of_dueTrigger timed none
          refine .inr ⟨fun triggerid awaits => ?_, isLater⟩
          exact absurd (isLater _ awaits.1) (Int.not_lt.mpr awaits.2.1)

/-- In every state of every run, a call of `zbx_dc_get_timer_triggerids` with the write lock ends:
it takes triggers of the queue that are due and not locked, each once, and all of them unless it
reaches its limit. -/
theorem timerTriggers_run (config : Configuration)
    (ordered : HeapOrdered (configTimerCompare config.triggers) config.timerQueue)
    (labels : List Label)
    (executed : Transition.run (step config) (initial config) labels = some state)
    (index : Nat) (now limit : Int)
    (place : (state.processes index).place = .timerLoop now limit) :
    ∃ turns final taken,
      Transition.run (step config) state (replicate turns (.timerIterate index)) = some final ∧
        Takes state final index now limit taken :=
  timerLoop_takes (Transition.run_invariant (fun _ _ _ => step_timed) (initial_timed ordered)
    executed) index limit place

theorem timerTriggers_sampleRun :
    ∃ state final taken,
      Transition.run (step sampleConfiguration) (initial sampleConfiguration)
        [.timerCheck 2 30 5, .timerLock 2] = some state ∧ Takes state final 2 30 5 taken := by
  obtain ⟨state, executed, place⟩ : ∃ state, Transition.run (step sampleConfiguration)
      (initial sampleConfiguration) [.timerCheck 2 30 5, .timerLock 2] = some state ∧
        (state.processes 2).place = .timerLoop 30 5 := ⟨_, rfl, rfl⟩
  have ordered :
      HeapOrdered (configTimerCompare sampleConfiguration.triggers) sampleConfiguration.timerQueue :=
    fun _ positive => inOrder_of_outside positive
  obtain ⟨_, final, taken, -, takes⟩ :=
    timerTriggers_run sampleConfiguration ordered _ executed 2 30 5 place
  exact ⟨state, final, taken, executed, takes⟩

end Zabbix.ConfigCache.TimerQueue
