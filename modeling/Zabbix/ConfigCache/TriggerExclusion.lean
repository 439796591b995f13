import Zabbix.ConfigCache.TriggerLocks
import Zabbix.Library.Exclusion

/-!
# Triggers are processed by one process at a time

Every lock operation grants unlocked triggers to one process, and an unlock
gives them back one by one.  So the flags mark exactly the triggers in the
lists of the processes, and no trigger is in two of them.  A history item that
is not marked busy has all its enabled triggers in the list of its syncer.
-/

namespace Zabbix.ConfigCache.TriggerExclusion

open Algo.BinaryHeap Algo.DirectHeap Common.History HistoryCache.Queue Library Library.Exclusion
open Option hiding or_assoc any_eq_false
open List hiding keys
open Library.KeyedTable TriggerLocks

/-- The flag of a trigger is set. -/
def IsLocked (triggers : Triggers) (triggerid : TriggerId) : Prop :=
  ∃ trigger, triggers.lookup triggerid = some trigger ∧ trigger.locked = true

def IsEnabled (triggers : Triggers) (triggerid : TriggerId) : Prop :=
  ∃ trigger, triggers.lookup triggerid = some trigger ∧ trigger.status = .enabled

/-! ## Granting -/

/-- Unlocked triggers have been locked, and nothing else has changed. -/
structure Granted (before : Triggers) (granted : List TriggerId) (after : Triggers) : Prop where
  distinct : granted.Nodup
  free : ∀ triggerid ∈ granted, ¬IsLocked before triggerid
  marked : ∀ triggerid,
    IsLocked after triggerid ↔ IsLocked before triggerid ∨ triggerid ∈ granted
  enabled : ∀ triggerid, IsEnabled after triggerid ↔ IsEnabled before triggerid
  present : ∀ triggerid, triggerid ∈ after ↔ triggerid ∈ before

variable {triggers before middle after : Triggers} {triggerid : TriggerId}
variable {trigger : ZbxDcTrigger}

theorem granted_nil (triggers : Triggers) : Granted triggers [] triggers where
  distinct := nodup_nil
  free _ member := absurd member not_mem_nil
  marked _ := by simp
  enabled _ := Iff.rfl
  present _ := Iff.rfl

theorem granted_append {first second : List TriggerId} (firstGranted : Granted before first middle)
    (secondGranted : Granted middle second after) :
    Granted before (first ++ second) after where
  distinct := by
    refine firstGranted.distinct.append secondGranted.distinct ?_
    intro triggerid isFirst isSecond
    exact secondGranted.free triggerid isSecond
      ((firstGranted.marked triggerid).mpr (Or.inr isFirst))
  free triggerid member isLocked := by
    rcases mem_append.mp member with isFirst | isSecond
    · exact firstGranted.free triggerid isFirst isLocked
    · exact secondGranted.free triggerid isSecond
        ((firstGranted.marked triggerid).mpr (Or.inl isLocked))
  marked triggerid := by
    rw [secondGranted.marked, firstGranted.marked, mem_append, or_assoc]
  enabled triggerid := (secondGranted.enabled triggerid).trans (firstGranted.enabled triggerid)
  present triggerid := (secondGranted.present triggerid).trans (firstGranted.present triggerid)

/-- Writing a trigger back decides about its own flag only. -/
theorem isLocked_insert (other : TriggerId) :
    IsLocked (triggers.insert triggerid trigger) other ↔
      (other = triggerid ∧ trigger.locked = true) ∨
        (other ≠ triggerid ∧ IsLocked triggers other) := by
  unfold IsLocked
  rw [lookup_insert_eq]
  by_cases same : other = triggerid
  · simp [same]
  · simp [same]

variable (found : triggers.lookup triggerid = some trigger)

include found

theorem isEnabled_insert (locked : Bool)
    (nextcheck : Int) (other : TriggerId) :
    IsEnabled (triggers.insert triggerid
        { trigger with locked := locked, nextcheck := nextcheck }) other ↔
      IsEnabled triggers other := by
  unfold IsEnabled
  rw [lookup_insert_eq]
  by_cases same : other = triggerid
  · subst same
    simp [found]
  · simp [same]

theorem present_insert (new : ZbxDcTrigger)
    (other : TriggerId) :
    other ∈ triggers.insert triggerid new ↔ other ∈ triggers := by
  rw [AList.mem_insert]
  refine or_iff_right_of_imp ?_
  rintro rfl
  exact AList.lookup_isSome.mp (isSome_of_eq_some found)

theorem granted_insert (unlocked : trigger.locked = false) (nextcheck : Int) :
    Granted triggers [triggerid]
      (triggers.insert triggerid { trigger with locked := true, nextcheck := nextcheck }) where
  distinct := nodup_singleton _
  free other member := by
    rw [mem_singleton] at member
    rintro ⟨same, isFound, isLocked⟩
    rw [member, found, some.injEq] at isFound
    rw [← isFound, unlocked] at isLocked
    cases isLocked
  marked other := by
    rw [isLocked_insert, mem_singleton]
    by_cases same : other = triggerid
    · simp [same]
    · simp [same]
  enabled := isEnabled_insert found true nextcheck
  present := present_insert found _

theorem granted_keep (isLocked : trigger.locked = true) (nextcheck : Int) :
    Granted triggers []
      (triggers.insert triggerid { trigger with locked := true, nextcheck := nextcheck }) where
  distinct := nodup_nil
  free _ member := absurd member not_mem_nil
  marked other := by
    rw [isLocked_insert]
    by_cases same : other = triggerid
    · subst same
      have already : IsLocked triggers other := ⟨trigger, found, isLocked⟩
      simp [already]
    · simp [same]
  enabled := isEnabled_insert found true nextcheck
  present := present_insert found _

omit found

/-! ## The three ways to lock -/

theorem hasLocked_eq_false {triggerids : List TriggerId} :
    hasLocked triggers triggerids = false ↔
      ∀ triggerid ∈ triggerids, IsEnabled triggers triggerid → ¬IsLocked triggers triggerid := by
  simp only [hasLocked, any_eq_false]
  refine forall₂_congr fun triggerid _ => ?_
  unfold IsEnabled IsLocked
  cases found : triggers.lookup triggerid with
  | none => simp
  | some trigger => simp

theorem lockEnabled_spec {triggerids : List TriggerId} (distinct : triggerids.Nodup)
    (free : ∀ triggerid ∈ triggerids, IsEnabled triggers triggerid →
      ¬IsLocked triggers triggerid)
    (locked : List TriggerId) :
    ∃ granted, (lockEnabled triggerids triggers locked).2 = locked ++ granted ∧
      Granted triggers granted (lockEnabled triggerids triggers locked).1 ∧
      ∀ triggerid ∈ triggerids, IsEnabled triggers triggerid → triggerid ∈ granted := by
  induction triggerids generalizing triggers locked with
  | nil => exact ⟨[], (append_nil _).symm, granted_nil _, by simp⟩
  | cons triggerid rest ih =>
    rw [nodup_cons] at distinct
    rw [forall_mem_cons] at free
    unfold lockEnabled
    cases found : triggers.lookup triggerid with
    | none =>
      dsimp only
      obtain ⟨granted, isResult, isGranted, all⟩ := ih distinct.2 free.2 locked
      refine ⟨granted, isResult, isGranted, ?_⟩
      rw [forall_mem_cons]
      refine ⟨?_, all⟩
      rintro ⟨trigger, isFound, -⟩
      rw [found] at isFound
      cases isFound
    | some trigger =>
      dsimp only
      split_ifs with disabled
      · obtain ⟨granted, isResult, isGranted, all⟩ := ih distinct.2 free.2 locked
        refine ⟨granted, isResult, isGranted, ?_⟩
        rw [forall_mem_cons]
        refine ⟨?_, all⟩
        rintro ⟨same, isFound, isEnabled⟩
        rw [found, some.injEq] at isFound
        exact absurd (isFound ▸ isEnabled) disabled
      · have enabled : IsEnabled triggers triggerid :=
          ⟨trigger, found, not_not.mp disabled⟩
        have unlocked : trigger.locked = false := by
          rw [← Bool.not_eq_true]
          exact fun isLocked => free.1 enabled ⟨trigger, found, isLocked⟩
        have first := granted_insert found unlocked trigger.nextcheck
        have restFree : ∀ other ∈ rest,
            IsEnabled (lockTrigger triggers triggerid trigger) other →
              ¬IsLocked (lockTrigger triggers triggerid trigger) other := by
          intro other member isEnabled isLocked
          rcases (first.marked other).mp isLocked with isLocked | same
          · exact free.2 other member ((first.enabled other).mp isEnabled) isLocked
          · rw [mem_singleton] at same
            exact distinct.1 (same ▸ member)
        obtain ⟨granted, isResult, isGranted, all⟩ :=
          ih distinct.2 restFree (locked ++ [triggerid])
        refine ⟨triggerid :: granted, ?_, granted_append first isGranted, ?_⟩
        · rw [isResult, append_assoc]
          rfl
        · rw [forall_mem_cons]
          constructor
          · exact fun _ => mem_cons_self
          · intro other member isEnabled
            exact mem_cons_of_mem _
              (all other member ((first.enabled other).mpr isEnabled))

theorem lockByTriggerids_spec (triggeridsIn locked : List TriggerId) (triggers : Triggers) :
    ∃ granted,
      (dcConfigLockTriggersByTriggerids triggeridsIn triggers locked).2 = locked ++ granted ∧
      Granted triggers granted
        (dcConfigLockTriggersByTriggerids triggeridsIn triggers locked).1 := by
  induction triggeridsIn generalizing triggers locked with
  | nil => exact ⟨[], (append_nil _).symm, granted_nil _⟩
  | cons triggerid rest ih =>
    unfold dcConfigLockTriggersByTriggerids
    cases found : triggers.lookup triggerid with
    | none => exact ih locked triggers
    | some trigger =>
      dsimp only
      split_ifs with isLocked
      · exact ih locked triggers
      · have first := granted_insert found (Bool.not_eq_true _ ▸ isLocked) trigger.nextcheck
        obtain ⟨granted, isResult, isGranted⟩ := ih (locked ++ [triggerid])
          (lockTrigger triggers triggerid trigger)
        refine ⟨triggerid :: granted, ?_, granted_append first isGranted⟩
        rw [isResult, append_assoc]
        rfl

def Covers (items : Table ItemId ZbxDcItem) (triggers : Triggers) (historyItems : List HcItem)
    (triggerids : List TriggerId) : Prop :=
  ∀ historyItem ∈ historyItems, historyItem.status ≠ .busy →
    ∀ triggerid ∈ itemTriggers items historyItem, IsEnabled triggers triggerid →
      triggerid ∈ triggerids

theorem covers_mono {items : Table ItemId ZbxDcItem} {historyItems : List HcItem}
    {triggerids more : List TriggerId} (covers : Covers items before historyItems triggerids)
    (enabled : ∀ triggerid, IsEnabled after triggerid ↔ IsEnabled before triggerid)
    (subset : triggerids ⊆ more) :
    Covers items after historyItems more := by
  intro historyItem member kept triggerid own isEnabled
  exact subset (covers historyItem member kept triggerid own ((enabled triggerid).mp isEnabled))

theorem covers_append {items : Table ItemId ZbxDcItem} {first second : List HcItem}
    {triggerids : List TriggerId} (firstCovers : Covers items triggers first triggerids)
    (secondCovers : Covers items triggers second triggerids) :
    Covers items triggers (first ++ second) triggerids := by
  intro historyItem member
  rcases mem_append.mp member with isFirst | isSecond
  · exact firstCovers historyItem isFirst
  · exact secondCovers historyItem isSecond

theorem itemTriggers_nodup (config : Configuration) (historyItem : HcItem) :
    (itemTriggers config.items historyItem).Nodup := by
  unfold itemTriggers
  split_ifs
  · exact nodup_nil
  · cases found : config.items.lookup historyItem.itemid with
    | none => exact nodup_nil
    | some dcItem =>
      cases isList : dcItem.triggers with
      | none => simp [isList]
      | some triggerids =>
        simpa [isList] using config.distinct _ _ found triggerids isList

theorem lockByHistoryItems_spec (config : Configuration) (historyItems : List HcItem)
    (triggers : Triggers) (locked : List TriggerId) :
    ∃ granted,
      (dcConfigLockTriggersByHistoryItems config.items historyItems triggers locked).triggerids =
        locked ++ granted ∧
      Granted triggers granted
        (dcConfigLockTriggersByHistoryItems config.items historyItems triggers locked).triggers ∧
      Covers config.items triggers
        (dcConfigLockTriggersByHistoryItems config.items historyItems triggers
          locked).historyItems granted := by
  induction historyItems generalizing triggers locked with
  | nil => exact ⟨[], (append_nil _).symm, granted_nil _, by simp [Covers,
      dcConfigLockTriggersByHistoryItems]⟩
  | cons historyItem rest ih =>
    rw [dcConfigLockTriggersByHistoryItems]
    by_cases busy : hasLocked triggers (itemTriggers config.items historyItem) = true
    · rw [if_pos busy]
      obtain ⟨granted, isResult, isGranted, covers⟩ := ih triggers locked
      refine ⟨granted, isResult, isGranted, ?_⟩
      unfold Covers
      dsimp only
      rw [forall_mem_cons]
      exact ⟨fun kept => absurd rfl kept, covers⟩
    · rw [if_neg busy]
      have free := hasLocked_eq_false.mp (Bool.not_eq_true _ ▸ busy)
      obtain ⟨own, isOwn, ownGranted, ownAll⟩ := lockEnabled_spec
        (itemTriggers_nodup config historyItem) free locked
      obtain ⟨granted, isResult, isGranted, covers⟩ := ih
        (lockEnabled (itemTriggers config.items historyItem) triggers locked).1
        (lockEnabled (itemTriggers config.items historyItem) triggers locked).2
      refine ⟨own ++ granted, ?_, granted_append ownGranted isGranted, ?_⟩
      · rw [← append_assoc, ← isOwn]
        exact isResult
      · unfold Covers
        dsimp only
        rw [forall_mem_cons]
        constructor
        · intro _ triggerid isTrigger isEnabled
          exact mem_append_left _ (ownAll triggerid isTrigger isEnabled)
        · exact covers_mono covers (fun triggerid => (ownGranted.enabled triggerid).symm)
            (subset_append_right own granted)

/-! ## Runs -/

def held (state : State) (index : Nat) : List TriggerId :=
  (state.processes index).triggerids

/-- What holds in every state of a run. -/
structure Consistent (config : Configuration) (state : State) : Prop where
  exclusive : Exclusive (held state) (IsLocked state.triggers)
  covered : ∀ index, Covers config.items state.triggers (state.processes index).historyItems
    (held state index)
  released : ∀ index, (state.processes index).place = .unlocking →
    (state.processes index).historyItems = []
  indexed : Indexed state.timerQueue
  queued : ∀ triggerid ∈ keys state.timerQueue, triggerid ∈ state.triggers

theorem initial_consistent (config : Configuration) : Consistent config (initial config) where
  exclusive :=
    { distinct := fun _ => nodup_nil
      apart := fun _ _ _ member _ => absurd member not_mem_nil
      exact := by
        intro triggerid
        constructor
        · rintro ⟨trigger, found, isLocked⟩
          rw [config.unlocked triggerid trigger found] at isLocked
          cases isLocked
        · rintro ⟨_, member⟩
          exact absurd member not_mem_nil }
  covered _ _ member := absurd member not_mem_nil
  released _ _ := rfl
  indexed := config.indexed
  queued := config.queued

variable {config : Configuration} {state next : State}

theorem held_setProcess (index : Nat) (process : Process) :
    held (state.setProcess index process) =
      Function.update (held state) index process.triggerids := by
  ext other : 1
  exact Function.apply_update (fun _ => Process.triggerids) state.processes index process other

theorem setProcess_process (index other : Nat) (process : Process) :
    (state.setProcess index process).processes other =
      if other = index then process else state.processes other :=
  Function.update_apply _ _ _ _

theorem consistent_grant (consistent : Consistent config state) (index : Nat)
    {granted : List TriggerId} (isGranted : Granted state.triggers granted after)
    {historyItems : List HcItem} (place : Place)
    (covers : Covers config.items state.triggers historyItems (held state index ++ granted))
    (released : place = .unlocking → historyItems = []) :
    Consistent config ({ state with triggers := after }.setProcess index
      ⟨held state index ++ granted, historyItems, place⟩) where
  exclusive := by
    rw [held_setProcess]
    exact exclusive_grant consistent.exclusive index isGranted.distinct isGranted.free
      isGranted.marked
  covered other := by
    rw [held_setProcess, setProcess_process]
    by_cases own : other = index
    · subst own
      rw [if_pos rfl, Function.update_self]
      exact covers_mono covers isGranted.enabled (List.Subset.refl _)
    · rw [if_neg own, Function.update_of_ne own]
      exact covers_mono (consistent.covered other) isGranted.enabled (List.Subset.refl _)
  released other := by
    rw [setProcess_process]
    split_ifs
    · exact released
    · exact consistent.released other
  indexed := consistent.indexed
  queued triggerid member := (isGranted.present triggerid).mpr (consistent.queued triggerid member)

theorem consistent_place (consistent : Consistent config state) (index : Nat) (place : Place)
    (lock : ConfigLock) (inside : place ≠ .unlocking) :
    Consistent config { state.setProcess index { state.processes index with place := place } with
      lock := lock } := by
  have moved := consistent_grant consistent index (granted_nil state.triggers) place
    (by rw [append_nil]; exact consistent.covered index) (fun same => absurd same inside)
  rw [append_nil] at moved
  exact ⟨moved.exclusive, moved.covered, moved.released, moved.indexed, moved.queued⟩

theorem dueTrigger_spec {timerQueue : Heap Unit} {now : Int} {elem : Elem Unit}
    (due : dueTrigger timerQueue triggers now = some (elem, trigger)) :
    elem.key ∈ keys timerQueue ∧ triggers.lookup elem.key = some trigger := by
  unfold dueTrigger at due
  obtain ⟨minimum, isMinimum, rest⟩ := bind_eq_some_iff.mp due
  obtain ⟨same, isFound, isDue⟩ := bind_eq_some_iff.mp rest
  split_ifs at isDue
  rw [some.injEq, Prod.mk.injEq] at isDue
  obtain ⟨rfl, rfl⟩ := isDue
  exact ⟨mem_map_of_mem (mem_of_getElem? isMinimum), isFound⟩

variable (consistent : Consistent config state)

include consistent

/-- The loop over the timer queue never leaves the heap, and keeps the flags right. -/
theorem timerIterate_spec (index : Nat)
    (now limit : Int) :
    ∃ next, timerIterate state index now limit = some next ∧ Consistent config next := by
  unfold timerIterate
  dsimp only
  split
  next elem trigger due continues =>
    obtain ⟨member, found⟩ := dueTrigger_spec due
    obtain ⟨timerQueue, updated, indexed, permuted⟩ := updateDirect_keys
      (configTimerCompare (state.triggers.insert elem.key
        { trigger with
          locked := true, nextcheck := dcTimerCalculateNextcheck now elem.key }))
      consistent.indexed member
    rw [updated, map_some]
    refine ⟨_, rfl, ?_⟩
    have covered := consistent.covered index
    cases locked : trigger.locked with
    | true =>
      have kept := granted_keep found locked (dcTimerCalculateNextcheck now elem.key)
      have moved := consistent_grant consistent index kept (.timerLoop now limit)
        (by rw [append_nil]; exact covered) (fun same => by cases same)
      rw [append_nil] at moved
      refine ⟨moved.exclusive, moved.covered, moved.released, indexed, ?_⟩
      intro triggerid isKey
      exact moved.queued triggerid (permuted.mem_iff.mp isKey)
    | false =>
      have taken := granted_insert found locked (dcTimerCalculateNextcheck now elem.key)
      have moved := consistent_grant consistent index taken (.timerLoop now (limit - 1))
        (covers_mono covered (fun _ => Iff.rfl) (subset_append_left _ _))
        (fun same => by cases same)
      refine ⟨moved.exclusive, moved.covered, moved.released, indexed, ?_⟩
      intro triggerid isKey
      exact moved.queued triggerid (permuted.mem_iff.mp isKey)
  next =>
    exact ⟨_, rfl, consistent_place consistent index .outside _ (by decide)⟩

/-- The ids may be unlocked in any order. -/
theorem unlockBegin_consistent (index : Nat)
    {triggerids : List TriggerId} (permuted : triggerids.Perm (held state index))
    (lock : ConfigLock) :
    Consistent config { state.setProcess index ⟨triggerids, [], .unlocking⟩ with lock := lock } where
  exclusive := by
    have changed := exclusive_perm consistent.exclusive permuted
    rw [← held_setProcess index ⟨triggerids, [], .unlocking⟩] at changed
    exact changed
  covered other := by
    have processes := @setProcess_process state index other ⟨triggerids, [], .unlocking⟩
    by_cases own : other = index
    · rw [if_pos own] at processes
      change Covers _ _ ((state.setProcess index ⟨triggerids, [], .unlocking⟩).processes
        other).historyItems _
      rw [processes]
      exact fun _ member => absurd member not_mem_nil
    · rw [if_neg own] at processes
      change Covers _ _ ((state.setProcess index ⟨triggerids, [], .unlocking⟩).processes
        other).historyItems ((state.setProcess index ⟨triggerids, [], .unlocking⟩).processes
          other).triggerids
      rw [processes]
      exact consistent.covered other
  released other := by
    have processes := @setProcess_process state index other ⟨triggerids, [], .unlocking⟩
    change ((state.setProcess index ⟨triggerids, [], .unlocking⟩).processes other).place =
      .unlocking → ((state.setProcess index ⟨triggerids, [], .unlocking⟩).processes
        other).historyItems = []
    rw [processes]
    split_ifs
    · exact fun _ => rfl
    · exact consistent.released other
  indexed := consistent.indexed
  queued := consistent.queued

theorem unlockNext_consistent (index : Nat)
    (unlocking : (state.processes index).place = .unlocking) {rest : List TriggerId}
    (isHeld : held state index = triggerid :: rest)
    (found : state.triggers.lookup triggerid = some trigger) :
    Consistent config ({ state with
        triggers := state.triggers.insert triggerid { trigger with locked := false } }.setProcess
      index { state.processes index with triggerids := rest }) where
  exclusive := by
    rw [held_setProcess]
    apply exclusive_release consistent.exclusive isHeld
    intro other
    refine (isLocked_insert other).trans ?_
    constructor
    · rintro (⟨-, isLocked⟩ | ⟨different, isLocked⟩)
      · cases isLocked
      · exact ⟨isLocked, different⟩
    · rintro ⟨isLocked, different⟩
      exact Or.inr ⟨different, isLocked⟩
  covered other := by
    rw [held_setProcess, setProcess_process]
    by_cases own : other = index
    · subst own
      rw [if_pos rfl]
      dsimp only
      rw [consistent.released other unlocking]
      exact fun _ member => absurd member not_mem_nil
    · rw [if_neg own, Function.update_of_ne own]
      exact covers_mono (consistent.covered other)
        (isEnabled_insert found false trigger.nextcheck) (List.Subset.refl _)
  released other := by
    rw [setProcess_process]
    split_ifs
    · exact fun _ => consistent.released index unlocking
    · exact consistent.released other
  indexed := consistent.indexed
  queued other member := (present_insert found _ other).mpr (consistent.queued other member)

theorem step_consistent {label : Label} (executed : step config state label = some next) :
    Consistent config next := by
  have covered (index : Nat) := consistent.covered index
  cases label with
  | lockByHistoryItems index historyItems =>
    simp only [step] at executed
    split_ifs at executed with mayLock
    obtain rfl := some.inj executed
    obtain ⟨granted, isResult, isGranted, covers⟩ := lockByHistoryItems_spec config
      historyItems state.triggers (held state index)
    have all := covers_append
      (covers_mono (covered index) (fun _ => Iff.rfl) (subset_append_left _ granted))
      (covers_mono covers (fun _ => Iff.rfl)
        (subset_append_right (held state index) granted))
    have moved := consistent_grant consistent index isGranted (state.processes index).place all
      (fun unlocking => by rw [mayLock.1] at unlocking; cases unlocking)
    rw [← isResult] at moved
    exact moved
  | lockByTriggerids index triggeridsIn =>
    simp only [step] at executed
    split_ifs at executed with mayLock
    obtain rfl := some.inj executed
    obtain ⟨granted, isResult, isGranted⟩ := lockByTriggerids_spec triggeridsIn
      (held state index) state.triggers
    have moved := consistent_grant consistent index isGranted (state.processes index).place
      (covers_mono (covered index) (fun _ => Iff.rfl) (subset_append_left _ _))
      (consistent.released index)
    rw [← isResult] at moved
    exact moved
  | timerCheck index now limit =>
    simp only [step] at executed
    split_ifs at executed with mayRead isDue
    · obtain rfl := some.inj executed
      exact consistent_place consistent index _ state.lock (by simp)
    · obtain rfl := some.inj executed
      exact consistent
  | timerLock index =>
    simp only [step] at executed
    split at executed
    · split_ifs at executed
      obtain rfl := some.inj executed
      exact consistent_place consistent index _ _ (by simp)
    · cases executed
  | timerIterate index =>
    simp only [step] at executed
    split at executed
    next now limit _ =>
      obtain ⟨result, iterated, isConsistent⟩ := timerIterate_spec consistent index now limit
      rw [iterated, some.injEq] at executed
      exact executed ▸ isConsistent
    · cases executed
  | unlockBegin index triggerids =>
    simp only [step] at executed
    split_ifs at executed with mayUnlock
    obtain rfl := some.inj executed
    exact unlockBegin_consistent consistent index mayUnlock.2.1 _
  | unlockNext index =>
    simp only [step] at executed
    split at executed
    next triggerid rest unlocking isHeld =>
      obtain ⟨trigger, found, -⟩ := (consistent.exclusive.exact triggerid).mpr
        ⟨index, by rw [held, isHeld]; exact mem_cons_self⟩
      simp only [found, some.injEq] at executed
      obtain rfl := executed
      exact unlockNext_consistent consistent index unlocking isHeld found
    · obtain rfl := some.inj executed
      exact consistent_place consistent index .outside _ (by decide)
    · cases executed

omit consistent

/--
In every state of every run no trigger is in the lists of two processes, a
trigger is marked locked exactly when it is in the list of one process, and the
list of a syncer has all enabled triggers of every history item that it keeps
and whose oldest value is a value.
-/
theorem triggerLocks_run (config : Configuration) (labels : List Label) (state : State)
    (executed : Transition.run (step config) (initial config) labels = some state) :
    (∀ first second triggerid, triggerid ∈ (state.processes first).triggerids →
        triggerid ∈ (state.processes second).triggerids → first = second) ∧
      (∀ triggerid, IsLocked state.triggers triggerid ↔
        ∃! index, triggerid ∈ (state.processes index).triggerids) ∧
      ∀ index, ∀ historyItem ∈ (state.processes index).historyItems,
        historyItem.status ≠ .busy →
          hasFlag zbxDcFlagNovalue historyItem.tail.flags = false →
            ∀ dcItem triggerids, config.items.lookup historyItem.itemid = some dcItem →
              dcItem.triggers = some triggerids →
                ∀ triggerid ∈ triggerids, IsEnabled state.triggers triggerid →
                  triggerid ∈ (state.processes index).triggerids := by
  have consistent : Consistent config state :=
    Transition.run_invariant (fun _ _ _ isConsistent => step_consistent isConsistent)
      (initial_consistent config) executed
  refine ⟨consistent.exclusive.apart, flagged_iff_unique consistent.exclusive, ?_⟩
  intro index historyItem member kept hasValue dcItem triggerids found isList triggerid isTrigger
  apply consistent.covered index historyItem member kept
  rw [itemTriggers, hasValue, found, bind_some, isList]
  exact isTrigger

/-- Two items share an enabled trigger, which is in the timer queue too. -/
def sampleConfiguration : Configuration where
  items := (AList.insert 1 ⟨some [10, 11]⟩ ∅ : Table ItemId ZbxDcItem).insert 2 ⟨some [10]⟩
  triggers := (AList.insert 10 ⟨.enabled, false, 30⟩ ∅ : Triggers).insert 11 ⟨.disabled, false, 0⟩
  timerQueue := ⟨[⟨10, ()⟩], true, fun key => if key = 10 then some 0 else none⟩
  distinct itemid dcItem found triggerids isList := by
    rw [lookup_insert_eq, lookup_insert_eq] at found
    split_ifs at found
    · obtain rfl := some.inj found
      obtain rfl := some.inj isList
      decide
    · obtain rfl := some.inj found
      obtain rfl := some.inj isList
      decide
    · cases found
  unlocked triggerid trigger found := by
    rw [lookup_insert_eq, lookup_insert_eq] at found
    split_ifs at found
    · obtain rfl := some.inj found
      rfl
    · obtain rfl := some.inj found
      rfl
    · cases found
  indexed := by
    constructor
    · rfl
    · intro key position
      cases position with
      | zero => simp [keys, eq_comm]
      | succ position => simp [keys]
  queued := by decide

/-- A history item with one value. -/
def sampleItem (itemid : ItemId) : HcItem where
  itemid := itemid
  tail := { ts := ⟨0, 0⟩, flags := 0, state := .normal }

/-- A second syncer and a timer meet the trigger of the first syncer. -/
def sampleRun : List Label :=
  [.lockByHistoryItems 0 [sampleItem 1], .timerCheck 2 30 5, .lockByHistoryItems 1 [sampleItem 2],
    .timerLock 2, .timerIterate 2, .timerIterate 2, .unlockBegin 0 [10], .unlockNext 0,
    .unlockNext 0, .lockByTriggerids 3 [10, 12]]

theorem triggerLocks_sampleRun :
    ∃ state,
      Transition.run (step sampleConfiguration) (initial sampleConfiguration) sampleRun =
          some state ∧
        (∀ first second triggerid, triggerid ∈ (state.processes first).triggerids →
            triggerid ∈ (state.processes second).triggerids → first = second) ∧
        (∀ triggerid, IsLocked state.triggers triggerid ↔
          ∃! index, triggerid ∈ (state.processes index).triggerids) ∧
        ∀ index, ∀ historyItem ∈ (state.processes index).historyItems,
          historyItem.status ≠ .busy →
            hasFlag zbxDcFlagNovalue historyItem.tail.flags = false →
              ∀ dcItem triggerids,
                sampleConfiguration.items.lookup historyItem.itemid = some dcItem →
                  dcItem.triggers = some triggerids →
                    ∀ triggerid ∈ triggerids, IsEnabled state.triggers triggerid →
                      triggerid ∈ (state.processes index).triggerids := by
  have executes : (Transition.run (step sampleConfiguration) (initial sampleConfiguration)
      sampleRun).isSome = true := by rfl
  obtain ⟨state, executed⟩ := isSome_iff_exists.mp executes
  exact ⟨state, executed, triggerLocks_run sampleConfiguration sampleRun state executed⟩

end Zabbix.ConfigCache.TriggerExclusion
