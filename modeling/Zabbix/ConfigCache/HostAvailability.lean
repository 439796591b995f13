import Zabbix.Common.Text
import Zabbix.Library.KeyedTable
import Mathlib.Data.List.Sort

/-!
# Host availability

The availability of hosts in the configuration cache: how pollers and the trapper
change it, and how the data sender takes the hosts that have changed.  A section
between `WRLOCK_CACHE` and `UNLOCK_CACHE` is one function.  The agent type of the
callers is always one of the four.
-/

namespace Zabbix.ConfigCache.HostAvailability

open Common.Text Library.KeyedTable

/-- `ZBX_AGENT_*` -/
inductive AgentType where
  | zabbix
  | snmp
  | ipmi
  | jmx
deriving DecidableEq

def agentTypes : List AgentType :=
  [.zabbix, .snmp, .ipmi, .jmx]

structure AgentFields where
  available : Nat
  error : Text
  errorsFrom : Int
  disableUntil : Int
deriving DecidableEq

/-- `ZBX_FLAGS_AGENT_STATUS_*` -/
structure Flags where
  available : Bool
  error : Bool
  errorsFrom : Bool
  disableUntil : Bool
deriving DecidableEq

/-- `ZBX_FLAGS_AGENT_STATUS` -/
def Flags.status : Flags :=
  ⟨true, true, true, true⟩

/-- `ZBX_FLAGS_AGENT_STATUS_NONE` -/
def Flags.none : Flags :=
  ⟨false, false, false, false⟩

/-- `zbx_agent_availability_t` -/
structure ZbxAgentAvailability where
  flags : Flags
  fields : AgentFields
deriving DecidableEq

/-- `zbx_host_availability_t` -/
structure ZbxHostAvailability where
  hostid : Nat
  agents : AgentType → ZbxAgentAvailability

/-- `ZBX_DC_HOST`, as far as availability needs it. -/
structure ZbxDcHost where
  proxyHostid : Nat
  isMonitored : Bool
  agents : AgentType → AgentFields
  availabilityTs : Int

abbrev Hosts := Table Nat ZbxDcHost

/-- The parameters of the configuration. -/
structure Settings where
  isServer : Bool
  unreachableDelay : Int
  unreachablePeriod : Int
  unavailableDelay : Int

def hostAvailableTrue : Nat := 1

def hostAvailableFalse : Nat := 2

/-! ## Changing fields -/

/-- `AGENT_AVAILABILITY_ASSIGN`: the flag and the field after it. -/
def agentAvailabilityAssign {Value : Type} [DecidableEq Value] (flag : Bool) (dst src : Value) :
    Bool × Value :=
  if flag then if dst ≠ src then (true, src) else (false, dst) else (false, dst)

def dcAgentSetAvailability (av : ZbxAgentAvailability) (dst : AgentFields) :
    ZbxAgentAvailability × AgentFields :=
  let available := agentAvailabilityAssign av.flags.available dst.available av.fields.available
  let error := agentAvailabilityAssign av.flags.error dst.error av.fields.error
  let errorsFrom := agentAvailabilityAssign av.flags.errorsFrom dst.errorsFrom av.fields.errorsFrom
  let disableUntil :=
    agentAvailabilityAssign av.flags.disableUntil dst.disableUntil av.fields.disableUntil
  ({ av with flags := ⟨available.1, error.1, errorsFrom.1, disableUntil.1⟩ },
    ⟨available.2, error.2, errorsFrom.2, disableUntil.2⟩)

/-- The result, the agent and the host after `DChost_set_agent_availability`. -/
def dchostSetAgentAvailability (dcHost : ZbxDcHost) (now : Int) (agentType : AgentType)
    (agent : ZbxAgentAvailability) : Bool × ZbxAgentAvailability × ZbxDcHost :=
  let (agent, fields) := dcAgentSetAvailability agent (dcHost.agents agentType)
  let dcHost := { dcHost with agents := Function.update dcHost.agents agentType fields }
  if agent.flags = Flags.none then (false, agent, dcHost)
  else if agent.flags.available || agent.flags.error then
    (true, agent, { dcHost with availabilityTs := now })
  else (true, agent, dcHost)

/-- The result, the agents and the host after `DChost_set_availability`. -/
def dchostSetAvailability (dcHost : ZbxDcHost) (now : Int)
    (agents : AgentType → ZbxAgentAvailability) :
    Bool × (AgentType → ZbxAgentAvailability) × ZbxDcHost :=
  let changed := fun agentType =>
    (dcAgentSetAvailability (agents agentType) (dcHost.agents agentType)).1
  let dcHost :=
    { dcHost with
      agents := fun agentType =>
        (dcAgentSetAvailability (agents agentType) (dcHost.agents agentType)).2 }
  if agentTypes.all fun agentType => (changed agentType).flags == Flags.none then
    (false, changed, dcHost)
  else if agentTypes.any fun agentType =>
      (changed agentType).flags.available || (changed agentType).flags.error then
    (true, changed, { dcHost with availabilityTs := now })
  else (true, changed, dcHost)

/-! ## Pollers -/

/-- The result of a poller's call: the agent before and after, and the hosts. -/
structure Outcome where
  ret : Bool
  agentIn : ZbxAgentAvailability
  agentOut : Option ZbxAgentAvailability
  hosts : Hosts

/-- The host is monitored, and not by a proxy of this server. -/
def isOwn (settings : Settings) (dcHost : ZbxDcHost) : Bool :=
  !(settings.isServer && dcHost.proxyHostid != 0) && dcHost.isMonitored

/-- Set the fields of an agent of a host, behind the checks of the callers. -/
def setAgent (hosts : Hosts) (hostid : Nat) (dcHost : ZbxDcHost) (ts : Int) (agentType : AgentType)
    (agentIn out : ZbxAgentAvailability) : Outcome :=
  let (_, out, dcHost) := dchostSetAgentAvailability dcHost ts agentType out
  ⟨out.flags ≠ Flags.none, agentIn, some out, hosts.insert hostid dcHost⟩

def dchostActivate (settings : Settings) (hosts : Hosts) (hostid : Nat) (agentType : AgentType)
    (ts : Int) (agentIn : ZbxAgentAvailability) : Outcome :=
  if agentIn.fields.errorsFrom = 0 ∧ agentIn.fields.available = hostAvailableTrue then
    ⟨false, agentIn, none, hosts⟩
  else
    match hosts.lookup hostid with
    | none => ⟨false, agentIn, none, hosts⟩
    | some dcHost =>
      if isOwn settings dcHost then
        setAgent hosts hostid dcHost ts agentType ⟨Flags.status, dcHost.agents agentType⟩
          ⟨Flags.status, ⟨hostAvailableTrue, [], 0, 0⟩⟩
      else ⟨false, agentIn, none, hosts⟩

/-- The fields that `DChost_deactivate` sets, from those that are cached. -/
def deactivated (settings : Settings) (ts : Int) (cached : AgentFields) (errorMsg : Text) :
    AgentFields :=
  if cached.errorsFrom = 0 then
    { cached with errorsFrom := ts, disableUntil := ts + settings.unreachableDelay }
  else if settings.unreachableDelay ≤ ts - cached.errorsFrom then
    if settings.unreachablePeriod > ts - cached.errorsFrom then
      { cached with disableUntil := ts + settings.unreachableDelay }
    else
      { cached with
        available := hostAvailableFalse
        error := errorMsg
        disableUntil := ts + settings.unavailableDelay }
  else cached

def dchostDeactivate (settings : Settings) (hosts : Hosts) (hostid : Nat) (agentType : AgentType)
    (ts : Int) (agentIn : ZbxAgentAvailability) (errorMsg : Text) : Outcome :=
  if settings.unreachableDelay > ts - agentIn.fields.errorsFrom then
    ⟨false, agentIn, none, hosts⟩
  else
    match hosts.lookup hostid with
    | none => ⟨false, agentIn, none, hosts⟩
    | some dcHost =>
      if isOwn settings dcHost then
        setAgent hosts hostid dcHost ts agentType ⟨Flags.status, dcHost.agents agentType⟩
          ⟨Flags.status, deactivated settings ts (dcHost.agents agentType) errorMsg⟩
      else ⟨false, agentIn, none, hosts⟩

/-! ## Many hosts -/

/-- One iteration of the loop of `DCset_hosts_availability`. -/
def setHostAvailability (now : Int) (hosts : Hosts) (ha : ZbxHostAvailability) :
    Bool × ZbxHostAvailability × Hosts :=
  match hosts.lookup ha.hostid with
  | none =>
    (false, { ha with agents := fun agentType =>
      { ha.agents agentType with flags := Flags.none } }, hosts)
  | some dcHost =>
    let (ret, agents, dcHost) := dchostSetAvailability dcHost now ha.agents
    (ret, { ha with agents }, hosts.insert ha.hostid dcHost)

/-- The result, the availabilities and the hosts after the loop of `DCset_hosts_availability`. -/
def dcSetHostsAvailability (now : Int) (hosts : Hosts) :
    List ZbxHostAvailability → Bool × List ZbxHostAvailability × Hosts
  | [] => (false, [], hosts)
  | ha :: later =>
    let (isSet, ha, hosts) := setHostAvailability now hosts ha
    let (ret, later, hosts) := dcSetHostsAvailability now hosts later
    (isSet || ret, ha :: later, hosts)

def dcTouchHostsAvailability (now : Int) (hosts : Hosts) (hostids : List Nat) : Hosts :=
  hostids.foldl (fun hosts hostid =>
    match hosts.lookup hostid with
    | none => hosts
    | some dcHost => hosts.insert hostid { dcHost with availabilityTs := now }) hosts

/-! ## The data sender -/

/-- The host is in the window of a call at the time `ts`. -/
def isChanged (availabilityDiffTs ts : Int) (dcHost : ZbxDcHost) : Bool :=
  availabilityDiffTs ≤ dcHost.availabilityTs && dcHost.availabilityTs < ts

/-- The hosts that have changed, in the order of their ids. -/
def dcGetHostsAvailability (availabilityDiffTs ts : Int) (hosts : Hosts) :
    List ZbxHostAvailability :=
  let changed := hosts.entries.filterMap fun ⟨hostid, dcHost⟩ =>
    if isChanged availabilityDiffTs ts dcHost then
      some ⟨hostid, fun agentType => ⟨Flags.status, dcHost.agents agentType⟩⟩
    else none
  changed.mergeSort fun a b => a.hostid ≤ b.hostid

/-! ## What a change does to a host -/

/-- The `available` and `error` fields are the same. -/
def SameStatus (dcHost dcHost' : ZbxDcHost) : Prop :=
  ∀ agentType, (dcHost'.agents agentType).available = (dcHost.agents agentType).available ∧
    (dcHost'.agents agentType).error = (dcHost.agents agentType).error

/-- The host has the time of the change, or its status and its time are the same. -/
def Moves (now : Int) (dcHost dcHost' : ZbxDcHost) : Prop :=
  dcHost'.availabilityTs = now ∨
    (dcHost'.availabilityTs = dcHost.availabilityTs ∧ SameStatus dcHost dcHost')

variable {now ts availabilityDiffTs : Int} {dcHost dcHost' dcHost'' : ZbxDcHost}
  {hosts hosts' hosts'' : Hosts} {hostid : Nat}

theorem moves_refl (now : Int) (dcHost : ZbxDcHost) : Moves now dcHost dcHost :=
  Or.inr ⟨rfl, fun _ => ⟨rfl, rfl⟩⟩

theorem moves_trans (first : Moves now dcHost dcHost') (second : Moves now dcHost' dcHost'') :
    Moves now dcHost dcHost'' := by
  rcases second with isNow | ⟨sameTs, sameStatus⟩
  · exact Or.inl isNow
  · rcases first with isNow | ⟨sameTs', sameStatus'⟩
    · exact Or.inl (sameTs.trans isNow)
    · refine Or.inr ⟨sameTs.trans sameTs', fun agentType => ?_⟩
      exact ⟨(sameStatus agentType).1.trans (sameStatus' agentType).1,
        (sameStatus agentType).2.trans (sameStatus' agentType).2⟩

theorem assign_of_not {Value : Type} [DecidableEq Value] {flag : Bool} {dst src : Value}
    (isClear : (agentAvailabilityAssign flag dst src).1 = false) :
    (agentAvailabilityAssign flag dst src).2 = dst := by
  unfold agentAvailabilityAssign at isClear ⊢
  split_ifs at isClear ⊢
  · rfl
  · rfl

theorem status_of_not (av : ZbxAgentAvailability) (dst : AgentFields)
    (noAvailable : (dcAgentSetAvailability av dst).1.flags.available = false)
    (noError : (dcAgentSetAvailability av dst).1.flags.error = false) :
    (dcAgentSetAvailability av dst).2.available = dst.available ∧
      (dcAgentSetAvailability av dst).2.error = dst.error :=
  ⟨assign_of_not noAvailable, assign_of_not noError⟩

theorem moves_setAgentAvailability (dcHost : ZbxDcHost) (now : Int) (agentType : AgentType)
    (agent : ZbxAgentAvailability) :
    Moves now dcHost (dchostSetAgentAvailability dcHost now agentType agent).2.2 := by
  have sameStatus (noAvailable : (dcAgentSetAvailability agent
        (dcHost.agents agentType)).1.flags.available = false)
      (noError : (dcAgentSetAvailability agent (dcHost.agents agentType)).1.flags.error = false) :
      SameStatus dcHost { dcHost with
        agents := Function.update dcHost.agents agentType
          (dcAgentSetAvailability agent (dcHost.agents agentType)).2 } := by
    intro other
    by_cases same : other = agentType
    · subst same
      dsimp only
      rw [Function.update_self]
      exact status_of_not agent _ noAvailable noError
    · dsimp only
      rw [Function.update_of_ne same]
      exact ⟨rfl, rfl⟩
  rw [dchostSetAgentAvailability]
  dsimp only
  split_ifs with isNone isStatus
  · exact Or.inr ⟨rfl, sameStatus (by rw [isNone]; rfl) (by rw [isNone]; rfl)⟩
  · exact Or.inl rfl
  · rw [Bool.or_eq_true, not_or, Bool.not_eq_true, Bool.not_eq_true] at isStatus
    exact Or.inr ⟨rfl, sameStatus isStatus.1 isStatus.2⟩

theorem mem_agentTypes (agentType : AgentType) : agentType ∈ agentTypes := by
  cases agentType
  all_goals decide

theorem moves_setAvailability (dcHost : ZbxDcHost) (now : Int)
    (agents : AgentType → ZbxAgentAvailability) :
    Moves now dcHost (dchostSetAvailability dcHost now agents).2.2 := by
  rw [dchostSetAvailability]
  dsimp only
  split_ifs with allNone isStatus
  · refine Or.inr ⟨rfl, fun agentType => ?_⟩
    have isNone := beq_iff_eq.mp (List.all_eq_true.mp allNone agentType (mem_agentTypes agentType))
    exact status_of_not _ _ (by rw [isNone]; rfl) (by rw [isNone]; rfl)
  · exact Or.inl rfl
  · refine Or.inr ⟨rfl, fun agentType => ?_⟩
    rw [Bool.not_eq_true, List.any_eq_false] at isStatus
    have noStatus := isStatus agentType (mem_agentTypes agentType)
    rw [Bool.or_eq_true, not_or, Bool.not_eq_true, Bool.not_eq_true] at noStatus
    exact status_of_not _ _ noStatus.1 noStatus.2

/-! ## What a change does to the hosts -/

/-- The hosts are the same ones, and each has moved. -/
def Moved (now : Int) (hosts hosts' : Hosts) : Prop :=
  ∀ hostid, match hosts.lookup hostid with
    | none => hosts'.lookup hostid = none
    | some dcHost => ∃ dcHost', hosts'.lookup hostid = some dcHost' ∧ Moves now dcHost dcHost'

theorem moved_refl (now : Int) (hosts : Hosts) : Moved now hosts hosts := by
  intro hostid
  cases isHost : hosts.lookup hostid with
  | none => rfl
  | some dcHost => exact ⟨dcHost, rfl, moves_refl now dcHost⟩

theorem moved_trans (first : Moved now hosts hosts') (second : Moved now hosts' hosts'') :
    Moved now hosts hosts'' := by
  intro hostid
  have isFirst := first hostid
  have isSecond := second hostid
  cases isHost : hosts.lookup hostid with
  | none =>
    rw [isHost] at isFirst
    rw [isFirst] at isSecond
    exact isSecond
  | some dcHost =>
    rw [isHost] at isFirst
    obtain ⟨dcHost', isHost', moves⟩ := isFirst
    rw [isHost'] at isSecond
    obtain ⟨dcHost'', isHost'', moves'⟩ := isSecond
    exact ⟨dcHost'', isHost'', moves_trans moves moves'⟩

theorem moved_insert (isHost : hosts.lookup hostid = some dcHost) (moves : Moves now dcHost dcHost') :
    Moved now hosts (hosts.insert hostid dcHost') := by
  intro other
  by_cases same : other = hostid
  · subst same
    rw [isHost]
    exact ⟨dcHost', AList.lookup_insert hosts, moves⟩
  · rw [AList.lookup_insert_ne same]
    exact moved_refl now hosts other

theorem moved_dchostActivate (settings : Settings) (hosts : Hosts) (hostid : Nat)
    (agentType : AgentType) (ts : Int) (agentIn : ZbxAgentAvailability) :
    Moved ts hosts (dchostActivate settings hosts hostid agentType ts agentIn).hosts := by
  rw [dchostActivate]
  split_ifs
  · exact moved_refl ts hosts
  · split
    · exact moved_refl ts hosts
    · split_ifs
      · exact moved_insert ‹_› (moves_setAgentAvailability _ ts agentType _)
      · exact moved_refl ts hosts

theorem moved_dchostDeactivate (settings : Settings) (hosts : Hosts) (hostid : Nat)
    (agentType : AgentType) (ts : Int) (agentIn : ZbxAgentAvailability) (errorMsg : Text) :
    Moved ts hosts (dchostDeactivate settings hosts hostid agentType ts agentIn errorMsg).hosts := by
  rw [dchostDeactivate]
  split_ifs
  · exact moved_refl ts hosts
  · split
    · exact moved_refl ts hosts
    · split_ifs
      · exact moved_insert ‹_› (moves_setAgentAvailability _ ts agentType _)
      · exact moved_refl ts hosts

theorem moved_dcSetHostsAvailability (now : Int) (hosts : Hosts)
    (availabilities : List ZbxHostAvailability) :
    Moved now hosts (dcSetHostsAvailability now hosts availabilities).2.2 := by
  induction availabilities generalizing hosts with
  | nil => exact moved_refl now hosts
  | cons ha later ih =>
    refine moved_trans ?_ (ih _)
    split
    · exact moved_refl now hosts
    · exact moved_insert ‹_› (moves_setAvailability _ now ha.agents)

theorem moved_dcTouchHostsAvailability (now : Int) (hosts : Hosts) (hostids : List Nat) :
    Moved now hosts (dcTouchHostsAvailability now hosts hostids) := by
  rw [dcTouchHostsAvailability]
  induction hostids generalizing hosts with
  | nil => exact moved_refl now hosts
  | cons hostid later ih =>
    refine moved_trans ?_ (ih _)
    dsimp only
    split
    · exact moved_refl now hosts
    · exact moved_insert ‹_› (Or.inl rfl)

theorem mem_dcGetHostsAvailability (isHost : hosts.lookup hostid = some dcHost) :
    ⟨hostid, fun agentType => ⟨Flags.status, dcHost.agents agentType⟩⟩ ∈
      dcGetHostsAvailability availabilityDiffTs ts hosts ↔
        isChanged availabilityDiffTs ts dcHost = true := by
  rw [dcGetHostsAvailability]
  dsimp only
  rw [List.mem_mergeSort, List.mem_filterMap]
  constructor
  · rintro ⟨⟨otherid, other⟩, member, returned⟩
    dsimp only at returned
    split_ifs at returned with changed
    have same := Option.some.inj returned
    obtain rfl : otherid = hostid := congrArg ZbxHostAvailability.hostid same
    obtain rfl : other = dcHost :=
      Option.some.inj ((AList.mem_lookup_iff.mpr member).symm.trans isHost)
    exact changed
  · exact fun changed => ⟨⟨hostid, dcHost⟩, AList.mem_lookup_iff.mp isHost, if_pos changed⟩

end Zabbix.ConfigCache.HostAvailability
