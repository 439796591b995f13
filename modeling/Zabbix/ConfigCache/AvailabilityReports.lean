import Zabbix.ConfigCache.HostAvailability
import Zabbix.Library.Transition

/-!
# Reporting host availability

Pollers and the data sender of a proxy, in any order.  A poller reads the clock in one
step and changes hosts in another; the data sender reads it with the cache locked.
A change is reported if no later step can move the window of the data sender past it.
-/

namespace Zabbix.ConfigCache.AvailabilityReports

open Common.Text Library Library.KeyedTable HostAvailability List Option

/-- The configuration cache, the clock, what the pollers have read from it, and the call of
`DCget_hosts_availability` whose hosts the data sender is uploading. -/
structure State where
  settings : Settings
  hosts : Hosts
  availabilityDiffTs : Int
  clock : Int
  stamps : Nat → Option Int
  sending : Option (Int × List ZbxHostAvailability)

inductive Event where
  | tick (seconds : Nat)
  | readClock (poller : Nat)
  | activate (poller hostid : Nat) (agentType : AgentType) (agentIn : ZbxAgentAvailability)
  | deactivate (poller hostid : Nat) (agentType : AgentType) (agentIn : ZbxAgentAvailability)
      (errorMsg : Text)
  | setHosts (poller : Nat) (availabilities : List ZbxHostAvailability)
  | touch (poller : Nat) (hostids : List Nat)
  | getHosts
  | uploaded
  | failed

/-- The hosts after a change with the time that the poller has read. -/
def changeHosts (state : State) (ts : Int) : Event → Option Hosts
  | .activate _ hostid agentType agentIn =>
    some (dchostActivate state.settings state.hosts hostid agentType ts agentIn).hosts
  | .deactivate _ hostid agentType agentIn errorMsg =>
    some (dchostDeactivate state.settings state.hosts hostid agentType ts agentIn errorMsg).hosts
  | .setHosts _ availabilities => some (dcSetHostsAvailability ts state.hosts availabilities).2.2
  | .touch _ hostids => some (dcTouchHostsAvailability ts state.hosts hostids)
  | _ => none

/-- The poller whose time a change uses. -/
def stamp (state : State) : Event → Option Int
  | .activate poller .. => state.stamps poller
  | .deactivate poller .. => state.stamps poller
  | .setHosts poller _ => state.stamps poller
  | .touch poller _ => state.stamps poller
  | _ => none

def step (state : State) : Event → Option State
  | .tick seconds => some { state with clock := state.clock + seconds }
  | .readClock poller =>
    some { state with stamps := Function.update state.stamps poller (some state.clock) }
  | .getHosts =>
    some { state with
      sending := some (state.clock,
        dcGetHostsAvailability state.availabilityDiffTs state.clock state.hosts) }
  | .uploaded =>
    state.sending.map fun (ts, _) => { state with availabilityDiffTs := ts, sending := none }
  | .failed => some { state with sending := none }
  | change =>
    (stamp state change).bind fun ts =>
      (changeHosts state ts change).map fun hosts => { state with hosts }

/-- A call of `DCget_hosts_availability` now returns the host with its fields. -/
def Reports (state : State) (hostid : Nat) : Prop :=
  ∃ dcHost, state.hosts.lookup hostid = some dcHost ∧
    ⟨hostid, fun agentType => ⟨Flags.status, dcHost.agents agentType⟩⟩ ∈
      dcGetHostsAvailability state.availabilityDiffTs state.clock state.hosts

/-- An `available` or `error` field of the host is changed. -/
def Changes (state next : State) (hostid : Nat) : Prop :=
  ∃ dcHost dcHost', state.hosts.lookup hostid = some dcHost ∧
    next.hosts.lookup hostid = some dcHost' ∧ ¬SameStatus dcHost dcHost'

/-- The time of the host is changed. -/
def Restamps (state next : State) (hostid : Nat) : Prop :=
  ∃ dcHost dcHost', state.hosts.lookup hostid = some dcHost ∧
    next.hosts.lookup hostid = some dcHost' ∧ dcHost'.availabilityTs ≠ dcHost.availabilityTs

/-- A step that changes a host uses no time before the window of the data sender, or before
the call whose hosts it is uploading. -/
def Timely (state : State) (event : Event) : Prop :=
  ∀ ts next hostid, stamp state event = some ts → step state event = some next →
    Changes state next hostid ∨ Restamps state next hostid →
      state.availabilityDiffTs ≤ ts ∧ ∀ call, state.sending = some call → call.1 ≤ ts

/-- The window, and the call whose hosts are being uploaded, are not past the host. -/
def Pending (state : State) (hostid : Nat) : Prop :=
  ∃ dcHost, state.hosts.lookup hostid = some dcHost ∧
    state.availabilityDiffTs ≤ dcHost.availabilityTs ∧
      ∀ call, state.sending = some call → call.1 ≤ dcHost.availabilityTs

variable {state next final : State} {event : Event} {events : List Event} {hostid : Nat}

/-! ## Steps -/

/-- A step changes hosts with the time of its poller, or it leaves them as they are. -/
theorem step_cases (executed : step state event = some next) :
    (∃ ts hosts, stamp state event = some ts ∧ Moved ts state.hosts hosts ∧
      next = { state with hosts }) ∨
    (event ≠ .getHosts ∧ event ≠ .uploaded ∧ next.hosts = state.hosts ∧
      next.availabilityDiffTs = state.availabilityDiffTs ∧
        (next.sending = state.sending ∨ next.sending = none)) ∨
    (event = .getHosts ∧ next = { state with
        sending := some (state.clock,
          dcGetHostsAvailability state.availabilityDiffTs state.clock state.hosts) }) ∨
    (∃ call, event = .uploaded ∧ state.sending = some call ∧
      next = { state with availabilityDiffTs := call.1, sending := none }) := by
  have changes : ∀ {ts : Int} {hosts : Hosts}, changeHosts state ts event = some hosts →
      Moved ts state.hosts hosts := by
    intro ts hosts changed
    cases event with
    | activate poller hostid agentType agentIn =>
      obtain rfl := some.inj changed
      exact moved_dchostActivate _ _ _ _ _ _
    | deactivate poller hostid agentType agentIn errorMsg =>
      obtain rfl := some.inj changed
      exact moved_dchostDeactivate _ _ _ _ _ _ _
    | setHosts poller availabilities =>
      obtain rfl := some.inj changed
      exact moved_dcSetHostsAvailability _ _ _
    | touch poller hostids =>
      obtain rfl := some.inj changed
      exact moved_dcTouchHostsAvailability _ _ _
    | _ => cases changed
  have change : ((stamp state event).bind fun ts =>
      (changeHosts state ts event).map fun hosts => { state with hosts }) = some next →
        ∃ ts hosts, stamp state event = some ts ∧ Moved ts state.hosts hosts ∧
          next = { state with hosts } := by
    intro changed
    obtain ⟨ts, isStamp, mapped⟩ := bind_eq_some_iff.mp changed
    obtain ⟨hosts, isChanged, rfl⟩ := map_eq_some_iff.mp mapped
    exact ⟨ts, hosts, isStamp, changes isChanged, rfl⟩
  cases event with
  | tick seconds =>
    obtain rfl := some.inj executed
    exact Or.inr (Or.inl ⟨nofun, nofun, rfl, rfl, Or.inl rfl⟩)
  | readClock poller =>
    obtain rfl := some.inj executed
    exact Or.inr (Or.inl ⟨nofun, nofun, rfl, rfl, Or.inl rfl⟩)
  | getHosts =>
    obtain rfl := some.inj executed
    exact Or.inr (Or.inr (Or.inl ⟨rfl, rfl⟩))
  | uploaded =>
    obtain ⟨call, isCall, rfl⟩ := map_eq_some_iff.mp executed
    exact Or.inr (Or.inr (Or.inr ⟨call, rfl, isCall, rfl⟩))
  | failed =>
    obtain rfl := some.inj executed
    exact Or.inr (Or.inl ⟨nofun, nofun, rfl, rfl, Or.inr rfl⟩)
  | _ => exact Or.inl (change executed)

/-- A pending host is returned by the call of a step, or it stays pending. -/
theorem pending_step (pending : Pending state hostid) (timely : Timely state event)
    (executed : step state event = some next) :
    (event = .getHosts ∧ Reports state hostid) ∨ Pending next hostid := by
  obtain ⟨dcHost, isHost, window, isSending⟩ := pending
  rcases step_cases executed with ⟨ts, hosts, isStamp, moved, rfl⟩ |
    ⟨-, -, sameHosts, sameWindow, sameSending⟩ | ⟨rfl, rfl⟩ | ⟨call, rfl, isCall, rfl⟩
  · have isMoved := moved hostid
    rw [isHost] at isMoved
    obtain ⟨dcHost', isHost', moves⟩ := isMoved
    refine Or.inr ⟨dcHost', isHost', ?_⟩
    by_cases sameTs : dcHost'.availabilityTs = dcHost.availabilityTs
    · rw [sameTs]
      exact ⟨window, isSending⟩
    · have isNow : dcHost'.availabilityTs = ts := moves.resolve_right fun same => sameTs same.1
      rw [isNow]
      exact timely ts _ hostid isStamp executed (Or.inr ⟨dcHost, dcHost', isHost, isHost', sameTs⟩)
  · refine Or.inr ⟨dcHost, by rw [sameHosts]; exact isHost, by rw [sameWindow]; exact window, ?_⟩
    rcases sameSending with same | ended
    · rw [same]
      exact isSending
    · rw [ended]
      exact nofun
  · by_cases changed : isChanged state.availabilityDiffTs state.clock dcHost = true
    · exact Or.inl ⟨rfl, dcHost, isHost, (mem_dcGetHostsAvailability isHost).mpr changed⟩
    · refine Or.inr ⟨dcHost, isHost, window, ?_⟩
      intro call isCall
      obtain rfl := some.inj isCall
      rw [isChanged, Bool.and_eq_true, decide_eq_true_iff, decide_eq_true_iff, not_and, not_lt] at changed
      exact changed window
  · exact Or.inr ⟨dcHost, isHost, isSending call isCall, nofun⟩

theorem pending_of_changes (changes : Changes state next hostid) (timely : Timely state event)
    (executed : step state event = some next) : Pending next hostid := by
  obtain ⟨dcHost, dcHost', isHost, isHost', differ⟩ := changes
  have sameHosts : next.hosts ≠ state.hosts := by
    intro same
    rw [same, isHost] at isHost'
    obtain rfl := some.inj isHost'
    exact differ fun _ => ⟨rfl, rfl⟩
  rcases step_cases executed with ⟨ts, hosts, isStamp, moved, rfl⟩ |
    ⟨-, -, same, -⟩ | ⟨rfl, rfl⟩ | ⟨call, rfl, isCall, rfl⟩
  · have isMoved := moved hostid
    rw [isHost] at isMoved
    obtain ⟨other, isOther, moves⟩ := isMoved
    obtain rfl := some.inj (isOther.symm.trans isHost')
    have isNow : other.availabilityTs = ts := moves.resolve_right fun same => differ same.2
    refine ⟨other, isHost', ?_⟩
    rw [isNow]
    exact timely ts _ hostid isStamp executed (Or.inl ⟨dcHost, other, isHost, isHost', differ⟩)
  · exact absurd same sameHosts
  · exact absurd rfl sameHosts
  · exact absurd rfl sameHosts

/-! ## Runs -/

/-- A pending host is returned by a call of the run, or it is still pending. -/
theorem pending_run (pending : Pending state hostid)
    (timely : Transition.Guarded step Timely state events)
    (executed : Transition.run step state events = some final) :
    (∃ before after middle, events = before ++ .getHosts :: after ∧
      Transition.run step state before = some middle ∧ Reports middle hostid) ∨
        Pending final hostid := by
  induction events generalizing state with
  | nil =>
    obtain rfl := some.inj executed
    exact Or.inr pending
  | cons event later ih =>
    obtain ⟨next, isNext, isLater⟩ := Transition.run_cons_eq_some.mp executed
    rcases pending_step pending timely.1 isNext with ⟨rfl, reports⟩ | isPending
    · exact Or.inl ⟨[], later, state, rfl, rfl, reports⟩
    · rcases ih isPending (timely.2 next isNext) isLater with
        ⟨before, after, middle, rfl, isMiddle, reports⟩ | isFinal
      · refine Or.inl ⟨event :: before, after, middle, rfl, ?_, reports⟩
        exact Transition.run_cons_eq_some.mpr ⟨next, isNext, isMiddle⟩
      · exact Or.inr isFinal

/--
A change of a host is contained in the result of a later call, or, once the clock has passed
the time of the host, in the result of the current one.  No step of the run that changes
a host uses a time behind the window or behind a call that is being uploaded.
-/
theorem change_reported (executed : step state event = some next)
    (changes : Changes state next hostid)
    (timely : Transition.Guarded step Timely state (event :: events))
    (later : Transition.run step next events = some final) {dcHost : ZbxDcHost}
    (isHost : final.hosts.lookup hostid = some dcHost)
    (passed : dcHost.availabilityTs < final.clock) :
    (∃ before after middle, events = before ++ .getHosts :: after ∧
      Transition.run step next before = some middle ∧ Reports middle hostid) ∨
        Reports final hostid := by
  have pending := pending_of_changes changes timely.1 executed
  refine (pending_run pending (timely.2 next executed) later).imp_right ?_
  rintro ⟨other, isOther, window, -⟩
  obtain rfl := some.inj (isOther.symm.trans isHost)
  refine ⟨other, isHost, (mem_dcGetHostsAvailability isHost).mpr ?_⟩
  rw [isChanged, Bool.and_eq_true, decide_eq_true_iff, decide_eq_true_iff]
  exact ⟨window, passed⟩

/-! ## One host -/

/-- A proxy with one host whose availability is not known. -/
def start : State where
  settings := ⟨false, 15, 45, 60⟩
  hosts := AList.singleton 1 ⟨0, true, fun _ => ⟨0, [], 0, 0⟩, 0⟩
  availabilityDiffTs := 0
  clock := 100
  stamps := fun _ => none
  sending := none

/-- The agent of the host is found to be available. -/
def activateHost : Event :=
  .activate 1 1 .zabbix ⟨Flags.status, ⟨0, [], 0, 0⟩⟩

/-- The host after it, with the time of the poller. -/
def activeHost : ZbxDcHost :=
  ⟨0, true, Function.update (fun _ => ⟨0, [], 0, 0⟩) .zabbix ⟨hostAvailableTrue, [], 0, 0⟩, 100⟩

/-- The clock is read, and the host is activated. -/
def prompt : State :=
  { start with stamps := Function.update start.stamps 1 (some 100) }

/-- After the clock is read the data sender gets and uploads the hosts two seconds later. -/
def overtaken : State :=
  { prompt with clock := 102, availabilityDiffTs := 102 }

theorem step_activateHost {state : State} (isHosts : state.hosts = start.hosts)
    (isSettings : state.settings = start.settings) (isStamp : state.stamps 1 = some 100) :
    step state activateHost = some { state with hosts := AList.singleton 1 activeHost } := by
  have isStep : step state activateHost = (state.stamps 1).bind fun ts =>
      (changeHosts state ts activateHost).map fun hosts => { state with hosts } := rfl
  have isChange : changeHosts state 100 activateHost =
      some (dchostActivate state.settings state.hosts 1 .zabbix 100
        ⟨Flags.status, ⟨0, [], 0, 0⟩⟩).hosts := rfl
  have active : (dchostActivate start.settings start.hosts 1 .zabbix 100
      ⟨Flags.status, ⟨0, [], 0, 0⟩⟩).hosts = AList.singleton 1 activeHost := rfl
  rw [isStep, isStamp, bind_some, isChange, isSettings, isHosts, active, map_some]

theorem changes_activateHost {state : State} (isHosts : state.hosts = start.hosts) :
    Changes state { state with hosts := AList.singleton 1 activeHost } 1 := by
  refine ⟨_, activeHost, by rw [isHosts]; rfl, rfl, fun same => ?_⟩
  exact absurd (same .zabbix).1 (by decide)

/-- The host is in the result of a call in the next second. -/
theorem change_reported_prompt :
    (∃ before after middle, [Event.tick 1] = before ++ .getHosts :: after ∧
      Transition.run step { prompt with hosts := AList.singleton 1 activeHost } before =
        some middle ∧ Reports middle 1) ∨
      Reports { prompt with hosts := AList.singleton 1 activeHost, clock := 101 } 1 := by
  have executed : step prompt activateHost = _ := step_activateHost rfl rfl rfl
  have timely : Transition.Guarded step Timely prompt (activateHost :: [.tick 1]) := by
    refine Transition.guarded_cons ?_ executed (Transition.guarded_cons nofun rfl trivial)
    intro ts next hostid isStamp _ _
    obtain rfl : 100 = ts := some.inj isStamp
    exact ⟨by decide, nofun⟩
  exact change_reported executed (changes_activateHost rfl) timely rfl rfl (by decide)

/-- A poller changes the host with a time that the window has passed: no call returns the host. -/
theorem change_lost :
    ¬∀ (state next final : State) (before events : List Event) (event : Event) (hostid : Nat)
      (dcHost : ZbxDcHost), Transition.run step start before = some state →
        step state event = some next → Changes state next hostid →
          Transition.run step next events = some final →
            final.hosts.lookup hostid = some dcHost → dcHost.availabilityTs < final.clock →
              (∃ first later middle, events = first ++ .getHosts :: later ∧
                Transition.run step next first = some middle ∧ Reports middle hostid) ∨
                  Reports final hostid := by
  intro holds
  have isBefore : Transition.run step start [.readClock 1, .tick 2, .getHosts, .uploaded] =
      some overtaken := rfl
  have executed : step overtaken activateHost = _ := step_activateHost rfl rfl rfl
  have reported := holds _ _ _ _ [.tick 1] _ 1 _ isBefore executed (changes_activateHost rfl) rfl
    rfl (by decide)
  rcases reported with ⟨first, later, middle, same, -⟩ | ⟨dcHost, isHost, isMember⟩
  · have member : Event.getHosts ∈ [Event.tick 1] := by
      rw [same]
      exact mem_append_right _ (mem_cons_self ..)
    cases mem_singleton.mp member
  · have changed := (mem_dcGetHostsAvailability isHost).mp isMember
    obtain rfl : activeHost = dcHost := some.inj isHost
    exact absurd changed (by decide)

end Zabbix.ConfigCache.AvailabilityReports
