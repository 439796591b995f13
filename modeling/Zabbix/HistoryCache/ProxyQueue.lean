import Mathlib.Algebra.Order.Ring.Rat
import Mathlib.Data.List.Nodup
import Zabbix.Library.Transition

/-!
# Throttling of proxies

While the history cache is full, proxies that send data are refused and wait in a queue for their
turn.  The queue is a list of numbers with an index of them.
-/

namespace Zabbix.HistoryCache.ProxyQueue

open Library.Transition List

/-- `ZBX_HC_PROXYQUEUE_STATE_NORMAL` and `ZBX_HC_PROXYQUEUE_STATE_WAIT` -/
inductive State where
  | normal
  | wait
deriving DecidableEq

/-- `zbx_hc_proxyqueue_t` -/
structure ProxyQueue where
  list : List Nat
  index : List Nat
  state : State
deriving DecidableEq

def emptyQueue : ProxyQueue where
  list := []
  index := []
  state := .normal

def zbxHcProxyqueuePeek (queue : ProxyQueue) : Nat :=
  queue.list.head?.getD 0

def zbxHcProxyqueueEnqueue (queue : ProxyQueue) (proxyid : Nat) : ProxyQueue :=
  if proxyid ∈ queue.index then queue
  else { queue with list := queue.list ++ [proxyid], index := proxyid :: queue.index }

inductive Result where
  | succeed
  | fail
deriving DecidableEq

def zbxHcProxyqueueDequeue (queue : ProxyQueue) (proxyid : Nat) : ProxyQueue × Result :=
  if proxyid ≠ zbxHcProxyqueuePeek queue then (queue, .fail)
  else
    match queue.list with
    | [] => (queue, .fail)
    | first :: list => ({ queue with list, index := queue.index.erase first }, .succeed)

def zbxHcProxyqueueClear (queue : ProxyQueue) : ProxyQueue :=
  { queue with list := [], index := [] }

/-- A call for a proxy, with the percentage of the history cache that is used. -/
structure Call where
  proxyid : Nat
  hcPused : Rat
  isNumber : proxyid ≠ 0

/-- The end of `zbx_hc_check_proxy`, where it is the turn of the first proxy. -/
def takeTurn (queue : ProxyQueue) (proxyid : Nat) : ProxyQueue × Result :=
  if zbxHcProxyqueuePeek queue = 0 then (queue, .succeed)
  else zbxHcProxyqueueDequeue queue proxyid

def zbxHcCheckProxy (queue : ProxyQueue) (call : Call) : ProxyQueue × Result :=
  if 20 ≥ call.hcPused then (zbxHcProxyqueueClear { queue with state := .normal }, .succeed)
  else
    match queue.state with
    | .wait =>
      let queue := zbxHcProxyqueueEnqueue queue call.proxyid
      if 60 < call.hcPused then (queue, .fail)
      else takeTurn { queue with state := .normal } call.proxyid
    | .normal =>
      if 80 ≤ call.hcPused then
        (zbxHcProxyqueueEnqueue { queue with state := .wait } call.proxyid, .fail)
      else takeTurn queue call.proxyid

/-! ## The list and its index -/

/-- The list and the index have the same numbers, each once. -/
structure InStep (queue : ProxyQueue) : Prop where
  list : queue.list.Nodup
  index : queue.index.Nodup
  same : ∀ proxyid, proxyid ∈ queue.index ↔ proxyid ∈ queue.list
  areNumbers : 0 ∉ queue.list

variable {queue : ProxyQueue} {proxyid : Nat} {call : Call}

theorem inStep_emptyQueue : InStep emptyQueue where
  list := nodup_nil
  index := nodup_nil
  same _ := Iff.rfl
  areNumbers := not_mem_nil

variable (inStep : InStep queue)

include inStep

theorem InStep.withState (state : State) :
    InStep { queue with state } :=
  ⟨inStep.list, inStep.index, inStep.same, inStep.areNumbers⟩

theorem InStep.enqueue (isNumber : proxyid ≠ 0) :
    InStep (zbxHcProxyqueueEnqueue queue proxyid) := by
  rw [zbxHcProxyqueueEnqueue]
  split_ifs with isThere
  · exact inStep
  · have notListed : proxyid ∉ queue.list := fun member => isThere ((inStep.same _).mpr member)
    refine ⟨?_, nodup_cons.mpr ⟨isThere, inStep.index⟩, fun other => ?_, ?_⟩
    · exact (perm_append_singleton proxyid queue.list).nodup_iff.mpr
        (nodup_cons.mpr ⟨notListed, inStep.list⟩)
    · rw [mem_cons, mem_append, mem_singleton, inStep.same, or_comm]
    · rw [mem_append, mem_singleton, not_or]
      exact ⟨inStep.areNumbers, isNumber.symm⟩

theorem mem_enqueue (proxyid : Nat) :
    proxyid ∈ (zbxHcProxyqueueEnqueue queue proxyid).list := by
  rw [zbxHcProxyqueueEnqueue]
  split_ifs with isThere
  · exact (inStep.same proxyid).mp isThere
  · exact mem_append_right _ (mem_singleton.mpr rfl)

theorem takeTurn_cases (isNumber : proxyid ≠ 0) :
    (queue.list = [] ∧ takeTurn queue proxyid = (queue, .succeed)) ∨
    (∃ first list, queue.list = first :: list ∧ proxyid ≠ first ∧
      takeTurn queue proxyid = (queue, .fail)) ∨
    (∃ list, queue.list = proxyid :: list ∧
      takeTurn queue proxyid =
        ({ queue with list, index := queue.index.erase proxyid }, .succeed)) := by
  rw [takeTurn, zbxHcProxyqueueDequeue, zbxHcProxyqueuePeek]
  cases isList : queue.list with
  | nil => exact Or.inl ⟨rfl, rfl⟩
  | cons first list =>
    have firstNumber : first ≠ 0 := by
      rintro rfl
      exact inStep.areNumbers (isList ▸ mem_cons_self)
    simp only [head?_cons, Option.getD_some]
    by_cases isOther : proxyid = first
    · subst isOther
      exact Or.inr (Or.inr ⟨list, rfl, (if_neg firstNumber).trans (if_neg (not_not.mpr rfl))⟩)
    · exact Or.inr (Or.inl ⟨first, list, rfl, isOther,
        (if_neg firstNumber).trans (if_pos isOther)⟩)

theorem InStep.takeTurn (isNumber : proxyid ≠ 0) :
    InStep (takeTurn queue proxyid).1 := by
  obtain ⟨-, isTurn⟩ | ⟨first, list, -, -, isTurn⟩ | ⟨list, isList, isTurn⟩ :=
    takeTurn_cases inStep isNumber
  · rw [isTurn]
    exact inStep
  · rw [isTurn]
    exact inStep
  · rw [isTurn]
    obtain ⟨listed, index, same, areNumbers⟩ := inStep
    rw [isList] at listed areNumbers
    obtain ⟨notLater, laterUnique⟩ := nodup_cons.mp listed
    refine ⟨laterUnique, index.erase proxyid, fun other => ?_, fun member =>
      areNumbers (mem_cons_of_mem _ member)⟩
    rw [index.mem_erase_iff, same, isList, mem_cons]
    constructor
    · rintro ⟨isOther, rfl | member⟩
      · exact absurd rfl isOther
      · exact member
    · intro member
      refine ⟨?_, Or.inr member⟩
      rintro rfl
      exact notLater member

omit inStep

theorem zbxHcCheckProxy_cases (queue : ProxyQueue) (call : Call) :
    (call.hcPused ≤ 20 ∧ zbxHcCheckProxy queue call =
      (zbxHcProxyqueueClear { queue with state := .normal }, .succeed)) ∨
    (20 < call.hcPused ∧ queue.state = .wait ∧ zbxHcCheckProxy queue call =
      (zbxHcProxyqueueEnqueue queue call.proxyid, .fail)) ∨
    (20 < call.hcPused ∧ queue.state = .wait ∧ zbxHcCheckProxy queue call =
      takeTurn { zbxHcProxyqueueEnqueue queue call.proxyid with state := .normal }
        call.proxyid) ∨
    (20 < call.hcPused ∧ queue.state = .normal ∧ 80 ≤ call.hcPused ∧
      zbxHcCheckProxy queue call =
        (zbxHcProxyqueueEnqueue { queue with state := .wait } call.proxyid, .fail)) ∨
    (20 < call.hcPused ∧ queue.state = .normal ∧ call.hcPused < 80 ∧
      zbxHcCheckProxy queue call = takeTurn queue call.proxyid) := by
  rw [zbxHcCheckProxy]
  by_cases isLow : 20 ≥ call.hcPused
  · exact Or.inl ⟨isLow, if_pos isLow⟩
  · have isAbove := not_le.mp isLow
    rw [if_neg isLow]
    cases isState : queue.state with
    | wait =>
      by_cases isHigh : 60 < call.hcPused
      · exact Or.inr (Or.inl ⟨isAbove, rfl, if_pos isHigh⟩)
      · exact Or.inr (Or.inr (Or.inl ⟨isAbove, rfl, if_neg isHigh⟩))
    | normal =>
      by_cases isFull : 80 ≤ call.hcPused
      · exact Or.inr (Or.inr (Or.inr (Or.inl ⟨isAbove, rfl, isFull, if_pos isFull⟩)))
      · exact Or.inr (Or.inr (Or.inr (Or.inr
          ⟨isAbove, rfl, not_le.mp isFull, if_neg isFull⟩)))

theorem InStep.zbxHcCheckProxy (inStep : InStep queue) (call : Call) :
    InStep (zbxHcCheckProxy queue call).1 := by
  obtain ⟨-, isDone⟩ | ⟨-, -, isDone⟩ | ⟨-, -, isDone⟩ | ⟨-, -, -, isDone⟩ | ⟨-, -, -, isDone⟩ :=
    zbxHcCheckProxy_cases queue call
  all_goals rw [isDone]
  · exact ⟨nodup_nil, nodup_nil, fun _ => Iff.rfl, not_mem_nil⟩
  · exact inStep.enqueue call.isNumber
  · exact ((inStep.enqueue call.isNumber).withState .normal).takeTurn call.isNumber
  · exact (inStep.withState .wait).enqueue call.isNumber
  · exact inStep.takeTurn call.isNumber

/-! ## Refused proxies -/

/-- The call is not made for a proxy outside of the queue while others wait and the cache is
neither full nor waited for. -/
def KeepsPlace (queue : ProxyQueue) (call : Call) : Prop :=
  queue.state = .normal → 20 < call.hcPused → call.hcPused < 80 → queue.list ≠ [] →
    call.proxyid ∈ queue.list

theorem refused_iff (inStep : InStep queue) (call : Call) :
    ((zbxHcCheckProxy queue call).2 = .fail →
        call.proxyid ∈ (zbxHcCheckProxy queue call).1.list) ↔ KeepsPlace queue call := by
  obtain ⟨isLow, isDone⟩ | ⟨-, isState, isDone⟩ | ⟨-, isState, isDone⟩ |
      ⟨-, isState, isFull, isDone⟩ | ⟨isAbove, isState, notFull, isDone⟩ :=
    zbxHcCheckProxy_cases queue call
  all_goals rw [isDone]
  · exact iff_of_true nofun fun _ isAbove => absurd isAbove (not_lt.mpr isLow)
  · refine iff_of_true (fun _ => mem_enqueue inStep _) fun isNormal => ?_
    exact absurd (isState.symm.trans isNormal) nofun
  · refine iff_of_true (fun isRefused => ?_) fun isNormal => ?_
    · have enqueued := (inStep.enqueue call.isNumber).withState .normal
      obtain ⟨-, isTurn⟩ | ⟨_, _, -, -, isTurn⟩ | ⟨_, -, isTurn⟩ :=
        takeTurn_cases enqueued call.isNumber
      · rw [isTurn] at isRefused
        cases isRefused
      · rw [isTurn]
        exact mem_enqueue inStep _
      · rw [isTurn] at isRefused
        cases isRefused
    · exact absurd (isState.symm.trans isNormal) nofun
  · refine iff_of_true (fun _ => mem_enqueue (inStep.withState .wait) _)
      fun _ _ notFull => absurd isFull (not_le.mpr notFull)
  · obtain ⟨isEmpty, isTurn⟩ | ⟨first, list, isList, isOther, isTurn⟩ | ⟨list, isList, isTurn⟩ :=
      takeTurn_cases inStep call.isNumber
    · rw [isTurn]
      exact iff_of_true nofun fun _ _ _ notEmpty => absurd isEmpty notEmpty
    · rw [isTurn]
      constructor
      · exact fun isThere _ _ _ _ => isThere rfl
      · exact fun keeps _ => keeps isState isAbove notFull (isList ▸ cons_ne_nil _ _)
    · rw [isTurn]
      exact iff_of_true nofun fun _ _ _ _ => isList ▸ mem_cons_self

/-! ## Turns in order -/

/-- The proxies before another one in the queue. -/
def ahead (proxyid : Nat) (list : List Nat) : List Nat :=
  list.takeWhile (· ≠ proxyid)

theorem ahead_of_split {front back : List Nat} (notBefore : proxyid ∉ front) :
    ahead proxyid (front ++ proxyid :: back) = front := by
  rw [ahead, takeWhile_append_of_pos]
  · simp
  · intro other member
    rw [decide_eq_true_eq]
    rintro rfl
    exact notBefore member

variable {front back : List Nat}

theorem list_enqueue (isList : queue.list = front ++ proxyid :: back) (other : Nat) :
    ∃ back', (zbxHcProxyqueueEnqueue queue other).list = front ++ proxyid :: back' := by
  rw [zbxHcProxyqueueEnqueue]
  split_ifs
  · exact ⟨back, isList⟩
  · exact ⟨back ++ [other], by rw [isList, append_assoc]; rfl⟩

theorem takeTurn_waiting (inStep : InStep queue) {other : Nat} (isNumber : other ≠ 0)
    (isList : queue.list = front ++ proxyid :: back) :
    ((takeTurn queue other).2 = .fail ∧ (takeTurn queue other).1.list = front ++ proxyid :: back) ∨
    ((takeTurn queue other).2 = .succeed ∧ ((front = [] ∧ other = proxyid) ∨
      ∃ front', front = other :: front' ∧
        (takeTurn queue other).1.list = front' ++ proxyid :: back)) := by
  obtain ⟨isEmpty, -⟩ | ⟨_, _, -, -, isTurn⟩ | ⟨list, isFirst, isTurn⟩ :=
    takeTurn_cases inStep isNumber
  · rw [isList] at isEmpty
    exact absurd isEmpty (by simp)
  · rw [isTurn]
    exact Or.inl ⟨rfl, isList⟩
  · rw [isTurn]
    refine Or.inr ⟨rfl, ?_⟩
    rw [isList] at isFirst
    cases front with
    | nil => exact Or.inl ⟨rfl, (cons.inj isFirst).1.symm⟩
    | cons first front' =>
      obtain ⟨rfl, isLater⟩ := cons.inj isFirst
      exact Or.inr ⟨front', rfl, isLater.symm⟩

theorem zbxHcCheckProxy_waiting (inStep : InStep queue) (isAbove : 20 < call.hcPused)
    (isList : queue.list = front ++ proxyid :: back) :
    ((zbxHcCheckProxy queue call).2 = .fail ∧
      ∃ back', (zbxHcCheckProxy queue call).1.list = front ++ proxyid :: back') ∨
    ((zbxHcCheckProxy queue call).2 = .succeed ∧ ((front = [] ∧ call.proxyid = proxyid) ∨
      ∃ front' back', front = call.proxyid :: front' ∧
        (zbxHcCheckProxy queue call).1.list = front' ++ proxyid :: back')) := by
  have ofTurn {queue' : ProxyQueue} {back' : List Nat} (inStep' : InStep queue')
      (isList' : queue'.list = front ++ proxyid :: back')
      (isDone : zbxHcCheckProxy queue call = takeTurn queue' call.proxyid) :
      ((zbxHcCheckProxy queue call).2 = .fail ∧
        ∃ back', (zbxHcCheckProxy queue call).1.list = front ++ proxyid :: back') ∨
      ((zbxHcCheckProxy queue call).2 = .succeed ∧ ((front = [] ∧ call.proxyid = proxyid) ∨
        ∃ front' back', front = call.proxyid :: front' ∧
          (zbxHcCheckProxy queue call).1.list = front' ++ proxyid :: back')) := by
    rw [isDone]
    obtain ⟨isRefused, sameList⟩ | ⟨isAdmitted, isFirst | ⟨front', isFront, isLater⟩⟩ :=
      takeTurn_waiting inStep' call.isNumber isList'
    · exact Or.inl ⟨isRefused, back', sameList⟩
    · exact Or.inr ⟨isAdmitted, Or.inl isFirst⟩
    · exact Or.inr ⟨isAdmitted, Or.inr ⟨front', back', isFront, isLater⟩⟩
  obtain ⟨back', isLonger⟩ := list_enqueue isList call.proxyid
  obtain ⟨isLow, -⟩ | ⟨-, -, isDone⟩ | ⟨-, -, isDone⟩ | ⟨-, -, -, isDone⟩ | ⟨-, -, -, isDone⟩ :=
    zbxHcCheckProxy_cases queue call
  · exact absurd isAbove (not_lt.mpr isLow)
  · exact Or.inl (by rw [isDone]; exact ⟨rfl, back', isLonger⟩)
  · exact ofTurn ((inStep.enqueue call.isNumber).withState .normal) isLonger isDone
  · refine Or.inl ?_
    rw [isDone]
    exact ⟨rfl, @list_enqueue { queue with state := .wait } _ _ _ isList call.proxyid⟩
  · exact ofTurn inStep isList isDone

/-! ## Runs -/

/-- A call, what it returned and the queue that it left. -/
structure Event where
  call : Call
  result : Result
  after : ProxyQueue

def serve : ProxyQueue → List Call → List Event
  | _, [] => []
  | queue, call :: calls =>
    let (after, result) := zbxHcCheckProxy queue call
    { call, result, after } :: serve after calls

/-- The next state, for runs with a condition on their steps. -/
def step (queue : ProxyQueue) (call : Call) : Option ProxyQueue :=
  some (zbxHcCheckProxy queue call).1

/-- The list and its index are in step, refused proxies are in the queue, and while the cache is
used nobody is admitted before a refused proxy but those ahead of it. -/
structure IsFair (events : List Event) : Prop where
  inStep : ∀ event ∈ events, InStep event.after
  enqueued : ∀ event ∈ events, event.result = .fail →
    event.call.proxyid ∈ event.after.list
  ordered : ∀ before refused between admitted later,
    events = before ++ refused :: (between ++ admitted :: later) → refused.result = .fail →
    (∀ event ∈ between ++ [admitted], 20 < event.call.hcPused) →
    (∀ event ∈ between, event.call.proxyid = refused.call.proxyid → event.result = .fail) →
    admitted.result = .succeed →
      admitted.call.proxyid = refused.call.proxyid ∨
        admitted.call.proxyid ∈ ahead refused.call.proxyid refused.after.list

theorem inStep_serve (inStep : InStep queue) (calls : List Call) :
    ∀ event ∈ serve queue calls, InStep event.after := by
  induction calls generalizing queue with
  | nil => exact nofun
  | cons call calls ih =>
    have after := inStep.zbxHcCheckProxy call
    intro event member
    obtain rfl | isLater := mem_cons.mp member
    · exact after
    · exact ih after event isLater

theorem enqueued_serve_iff (inStep : InStep queue) (calls : List Call) :
    (∀ event ∈ serve queue calls, event.result = .fail →
      event.call.proxyid ∈ event.after.list) ↔ Guarded step KeepsPlace queue calls := by
  induction calls generalizing queue with
  | nil => exact iff_of_true nofun trivial
  | cons call calls ih =>
    rw [serve, forall_mem_cons, refused_iff inStep, ih (inStep.zbxHcCheckProxy call)]
    refine and_congr_right fun _ => ⟨fun guarded next isNext => ?_, fun guarded => guarded _ rfl⟩
    obtain rfl := Option.some.inj isNext
    exact guarded

/-- Nobody overtakes a proxy in the queue while the cache is used. -/
theorem ahead_of_admitted {calls : List Call} {between later : List Event} {admitted : Event}
    (inStep : InStep queue) (isList : queue.list = front ++ proxyid :: back)
    (isRun : serve queue calls = between ++ admitted :: later)
    (areAbove : ∀ event ∈ between ++ [admitted], 20 < event.call.hcPused)
    (isWaiting : ∀ event ∈ between, event.call.proxyid = proxyid → event.result = .fail)
    (isAdmitted : admitted.result = .succeed) :
    admitted.call.proxyid = proxyid ∨ admitted.call.proxyid ∈ front := by
  induction between generalizing queue calls front back with
  | nil =>
    cases calls with
    | nil => cases isRun
    | cons call calls =>
      obtain ⟨rfl, -⟩ := cons.inj isRun
      obtain ⟨isRefused, -⟩ | ⟨-, ⟨-, isSame⟩ | ⟨front', -, isFront, -⟩⟩ :=
        zbxHcCheckProxy_waiting inStep (areAbove _ (mem_singleton.mpr rfl)) isList
      · exact absurd (isRefused.symm.trans isAdmitted) nofun
      · exact Or.inl isSame
      · exact Or.inr (isFront ▸ mem_cons_self)
  | cons event between ih =>
    cases calls with
    | nil => cases isRun
    | cons call calls =>
      obtain ⟨rfl, isLater⟩ := cons.inj isRun
      obtain ⟨isAbove, laterAbove⟩ := forall_mem_cons.mp areAbove
      obtain ⟨isFirst, laterWaiting⟩ := forall_mem_cons.mp isWaiting
      have after := inStep.zbxHcCheckProxy call
      obtain ⟨-, back', sameFront⟩ | ⟨isServed, ⟨-, isSame⟩ | ⟨front', back', isFront, isShorter⟩⟩ :=
        zbxHcCheckProxy_waiting inStep isAbove isList
      · exact ih after sameFront isLater laterAbove laterWaiting
      · exact absurd (isServed.symm.trans (isFirst isSame)) nofun
      · have isAhead := ih after isShorter isLater laterAbove laterWaiting
        rw [isFront]
        exact isAhead.imp_right (mem_cons_of_mem _)

theorem serve_split {calls : List Call} {before rest : List Event} {event : Event}
    (isRun : serve queue calls = before ++ event :: rest) :
    ∃ calls', serve event.after calls' = rest := by
  induction before generalizing queue calls with
  | nil =>
    cases calls with
    | nil => cases isRun
    | cons call calls =>
      obtain ⟨rfl, isLater⟩ := cons.inj isRun
      exact ⟨calls, isLater⟩
  | cons first before ih =>
    cases calls with
    | nil => cases isRun
    | cons call calls => exact ih (cons.inj isRun).2

/-- A run is fair if and only if all proxies keep their places. -/
theorem isFair_serve_iff (calls : List Call) :
    IsFair (serve emptyQueue calls) ↔ Guarded step KeepsPlace emptyQueue calls := by
  rw [← enqueued_serve_iff inStep_emptyQueue]
  refine ⟨IsFair.enqueued, fun enqueued => ?_⟩
  have areInStep := inStep_serve inStep_emptyQueue calls
  refine ⟨areInStep, enqueued, ?_⟩
  intro before refused between admitted later isRun isRefused areAbove isWaiting isAdmitted
  have member : refused ∈ serve emptyQueue calls :=
    isRun ▸ mem_append_right _ mem_cons_self
  obtain ⟨front, back, isList, notBefore⟩ :=
    eq_append_cons_of_mem (enqueued refused member isRefused)
  obtain ⟨calls', isLater⟩ := serve_split isRun
  rw [isList, ahead_of_split notBefore]
  exact ahead_of_admitted (areInStep refused member) isList isLater areAbove isWaiting isAdmitted

/-- The fourth proxy is refused and is not put into the queue. -/
theorem not_isFair_fourth :
    ¬ IsFair (serve emptyQueue
      [⟨2, 85, by decide⟩, ⟨3, 50, by decide⟩, ⟨4, 50, by decide⟩]) := by
  intro isFair
  have guarded := (enqueued_serve_iff inStep_emptyQueue _).mp isFair.enqueued
  have isLast := ((guarded.2 _ rfl).2 _ rfl).1
  have isThere := isLast (by decide) (by decide) (by decide) (by decide)
  exact absurd isThere (by decide)

end Zabbix.HistoryCache.ProxyQueue
