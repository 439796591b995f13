import Mathlib.Data.List.Nodup
import Zabbix.Library.Transition
import Zabbix.Ipc.Service

/-!
# Lossless and ordered transport

In every run of a service with its connections, what arrives in a direction is a
prefix of what was sent, and it is everything once all bytes have been delivered.
The service hands the messages of a connection to its caller in their order, and
reports the end of the connection once, after the last of them.
-/

namespace Zabbix.Ipc.Transport

open Library.Transition Library.Framing Socket Assembly Client Sending Service List Option

/-! ## The invariant -/

/--
What the service has returned of a connection.  `waiting` says that the client is
in `clients_recv`; a client that is not there has nothing to return.
-/
structure Serves (connection : Connection) (waiting : Prop) : Prop where
  queued : connection.client.queued = true ↔ waiting
  given :
    ∃ given, connection.toService.received = given ++ connection.client.rxQueue ∧
      ((connection.returned = given.map some ∧
          (connection.client.rxQueue ≠ [] ∨ connection.client.events = false ↔ waiting)) ∨
        (connection.returned = given.map some ++ [none] ∧ connection.client.rxQueue = [] ∧
          connection.client.events = false ∧ ¬waiting))

structure Consistent (connection : Connection) (waiting : Prop) : Prop where
  toService : Carries connection.peer.tx connection.client connection.toService
  toPeer : Carries connection.client.tx connection.peer connection.toPeer
  blocking : connection.isAsync = false → connection.peer.tx.txBytes = 0
  serves : Serves connection waiting

variable {connection after : Connection} {waiting : Prop} {id : Nat} {clients clients' : List Nat}

theorem serves_same (serves : Serves connection waiting)
    (sameReceived : after.toService.received = connection.toService.received)
    (sameQueue : after.client.rxQueue = connection.client.rxQueue)
    (sameEvents : after.client.events = connection.client.events)
    (sameQueued : after.client.queued = connection.client.queued)
    (sameReturned : after.returned = connection.returned) : Serves after waiting := by
  constructor
  · rw [sameQueued]
    exact serves.queued
  · rw [sameReceived, sameQueue, sameEvents, sameReturned]
    exact serves.given

theorem consistent_initial (isAsync : Bool) : Consistent { isAsync := isAsync } False where
  toService := carries_initial
  toPeer := carries_initial
  blocking _ := rfl
  serves := by
    constructor
    · exact ⟨nofun, False.elim⟩
    · exact ⟨[], rfl, Or.inl ⟨rfl, fun some => some.elim (absurd rfl) nofun, False.elim⟩⟩

/-! ## Steps of the other end -/

theorem closePeer_consistent (consistent : Consistent connection waiting) :
    Consistent (closePeer connection) waiting where
  toService := carries_closeWriter consistent.toService
  toPeer := carries_closeReader (carries_reader consistent.toPeer rfl nofun)
  blocking := consistent.blocking
  serves := serves_same consistent.serves rfl rfl rfl rfl rfl

theorem fits_message {code : UInt32} (data : Library.ByteReader.Bytes)
    (allowed : data.length + headerSize < uint32Bound) : Fits (message code data) :=
  ⟨rfl, allowed⟩

theorem write_carries {tx : Outgoing} {reader : ZbxIpcClient} {direction : Direction}
    {sent : ZbxIpcMessage} {script : List WriteResult} {ret : Bool} {stream' : Stream}
    (carries : Carries tx reader direction) (idle : tx.txBytes = 0) (fits : Fits sent)
    (written : zbxIpcSocketWrite sent direction.stream script = (ret, stream'))
    (whole : ¬(ret = false ∧ stream'.broken = false)) :
    Carries tx reader
      { direction with stream := stream', sent := direction.sent ++ [sent] } := by
  have writes := zbxIpcSocketWrite_spec fits direction.stream script
  rw [written] at writes
  obtain ⟨⟨tail, moved, all⟩, -, -, gone⟩ := writes
  have nothing := unsent_idle carries.sendable idle
  apply carries_written carries [sent] _ _ gone carries.sendable
  · intro other member
    rw [mem_singleton.mp member]
    exact fits
  · refine ⟨tail, ?_, fun isWhole => ?_⟩
    · rw [nothing, framed_cons, framed_nil, append_nil, nil_append]
      exact moved
    · rw [nothing]
      apply all
      exact Bool.eq_true_of_not_eq_false fun failed => whole ⟨failed, isWhole⟩

theorem peerStep_consistent {action : PeerAction} {state : State}
    (consistent : Consistent connection waiting) (allowed : Allowed state (.peer id action))
    (stepped : peerStep connection action = some after) : Consistent after waiting := by
  obtain ⟨toService, toPeer, blocking, serves⟩ := consistent
  cases action with
  | write code data script =>
    rw [peerStep] at stepped
    dsimp only at stepped
    split_ifs at stepped with refused
    push Not at refused
    obtain rfl := some.inj stepped
    have idle := blocking (Bool.eq_false_iff.mpr refused.1)
    exact
      { toService := write_carries toService idle (fits_message data allowed) rfl
          fun failed => absurd failed.2 (refused.2 failed.1)
        toPeer := toPeer
        blocking := blocking
        serves := serves_same serves rfl rfl rfl rfl rfl }
  | send code data script =>
    rw [peerStep] at stepped
    have sends := sendTo_spec toService (@fits_message code data allowed) script
    generalize sendTo _ _ _ _ = result at sends stepped
    obtain ⟨peer, direction'⟩ := result
    obtain ⟨carries, isPeer, -, sameReceived⟩ := sends
    dsimp only at stepped
    split_ifs at stepped with isAsync
    obtain rfl := some.inj stepped
    exact
      { toService := carries
        toPeer := carries_reader toPeer (by rw [isPeer]) (by rw [isPeer]; exact fun same => same)
        blocking := fun isBlocking => absurd (isAsync.symm.trans isBlocking) nofun
        serves := serves_same serves sameReceived rfl rfl rfl rfl }
  | readEvent script =>
    rw [peerStep] at stepped
    split_ifs at stepped with isOpen
    obtain ⟨ret, rx, messages, direction', isRead, -, -, carries⟩ :=
      readFrom_spec toPeer isOpen.2 script
    rw [isRead, map_some] at stepped
    obtain rfl := some.inj stepped
    have notBlocking : ∀ {claim : Prop}, connection.isAsync = false → claim := by
      intro claim isBlocking
      rw [isOpen.1] at isBlocking
      cases isBlocking
    cases ret with
    | true =>
      exact ⟨toService, carries _ rfl fun _ => rfl, notBlocking,
        serves_same serves rfl rfl rfl rfl rfl⟩
    | false =>
      exact ⟨toService, carries _ rfl nofun, notBlocking, serves_same serves rfl rfl rfl rfl rfl⟩
  | writeEvent script =>
    rw [peerStep] at stepped
    split_ifs at stepped with isOpen
    obtain ⟨ret, tx', direction', isWrite, carries, -, sameReceived, -⟩ :=
      writeTo_spec toService script
    rw [isWrite, map_some] at stepped
    obtain rfl := some.inj stepped
    have notBlocking : ∀ {claim : Prop}, connection.isAsync = false → claim := by
      intro claim isBlocking
      rw [isOpen.1] at isBlocking
      cases isBlocking
    have written : Consistent
        { connection with
          peer := { connection.peer with tx := tx' }
          toService := direction' } waiting :=
      ⟨carries, carries_reader toPeer rfl fun same => same, notBlocking,
        serves_same serves sameReceived rfl rfl rfl rfl⟩
    cases ret with
    | true =>
      dsimp only
      rw [if_pos rfl, afterWrite]
      split_ifs
      · exact ⟨carries, carries_reader toPeer rfl fun same => same, notBlocking,
          serves_same serves sameReceived rfl rfl rfl rfl⟩
      · exact written
    | false =>
      exact closePeer_consistent written
  | recv =>
    obtain rfl := some.inj stepped
    exact ⟨toService, carries_reader toPeer rfl fun same => same, blocking,
      serves_same serves rfl rfl rfl rfl rfl⟩
  | close =>
    obtain rfl := some.inj stepped
    exact closePeer_consistent ⟨toService, toPeer, blocking, serves⟩

/-! ## Steps of the service -/

/-- The queue of clients after a step: only one client may have entered or left it. -/
structure Requeued (clients : List Nat) (id : Nat) (clients' : List Nat) : Prop where
  nodup : clients'.Nodup
  others : ∀ other, other ≠ id → (other ∈ clients' ↔ other ∈ clients)

theorem requeued_same (nodup : clients.Nodup) : Requeued clients id clients :=
  ⟨nodup, fun _ _ => Iff.rfl⟩

/-- Pushing a client whose messages have not been reported as the last ones. -/
theorem ipcServicePushClient_spec {client : ZbxIpcClient} (nodup : clients.Nodup)
    (queued : client.queued = true ↔ id ∈ clients)
    (filled : client.queued = true → client.rxQueue ≠ [] ∨ client.events = false) :
    let (clients', client') := ipcServicePushClient clients id client
    Requeued clients id clients' ∧ client' = { client with queued := client'.queued } ∧
      (client'.queued = true ↔ id ∈ clients') ∧
      (client.rxQueue ≠ [] ∨ client.events = false ↔ id ∈ clients') := by
  unfold ipcServicePushClient
  split_ifs with isQueued nothing
  · exact ⟨requeued_same nodup, rfl, queued, fun _ => queued.mp isQueued, fun _ => filled isQueued⟩
  · refine ⟨requeued_same nodup, rfl, queued, fun something => ?_,
      fun member => absurd (queued.mpr member) isQueued⟩
    rcases something with isFilled | isClosed
    · exact absurd nothing.1 isFilled
    · rw [isClosed] at nothing
      cases nothing.2
  · have absent : id ∉ clients := fun member => isQueued (queued.mpr member)
    have something : client.rxQueue ≠ [] ∨ client.events = false := by
      by_cases empty : client.rxQueue = []
      · exact Or.inr (Bool.eq_false_iff.mpr fun isOpen => nothing ⟨empty, isOpen⟩)
      · exact Or.inl empty
    refine ⟨⟨?_, fun other different => ?_⟩, rfl, ?_, fun _ => by simp, fun _ => something⟩
    · rw [← concat_eq_append]
      exact List.Nodup.concat absent nodup
    · simp [different]
    · simp

theorem serviceStep_consistent {action : ServiceAction} {state : State}
    (isConnection : state.connections id = connection)
    (consistent : Consistent connection (id ∈ clients)) (nodup : clients.Nodup)
    (allowed : Allowed state (.service id action))
    (stepped : serviceStep clients id connection action = some (clients', after)) :
    Consistent after (id ∈ clients') ∧ Requeued clients id clients' := by
  obtain ⟨toService, toPeer, blocking, serves⟩ := consistent
  cases action with
  | send code data script =>
    rw [serviceStep] at stepped
    have sends := sendTo_spec toPeer (@fits_message code data allowed) script
    generalize sendTo _ _ _ _ = result at sends stepped
    obtain ⟨client, direction'⟩ := result
    obtain ⟨carries, isClient, -, sameReceived⟩ := sends
    obtain ⟨rfl, rfl⟩ := Prod.mk.inj (some.inj stepped)
    refine ⟨⟨?_, carries, blocking, ?_⟩, requeued_same nodup⟩
    · exact carries_reader toService (by rw [isClient]) (by rw [isClient]; exact fun same => same)
    · exact serves_same serves rfl (by rw [isClient]) (by rw [isClient]) (by rw [isClient]) rfl
  | readEvent script =>
    rw [serviceStep] at stepped
    split_ifs at stepped with isOpen
    obtain ⟨ret, rx, messages, direction', isRead, -, isReceived, carries⟩ :=
      readFrom_spec toService isOpen script
    rw [isRead, map_some] at stepped
    dsimp only at stepped
    obtain ⟨queued, given, isGiven, isReturned⟩ := serves
    rw [isOpen] at isReturned
    rcases isReturned with ⟨isReturned, waits⟩ | ⟨-, -, isClosed, -⟩
    · generalize isAfter : ite (ret = true) _ _ = client at stepped
      have sameRx : client.rx = rx := by
        rw [← isAfter]
        cases ret <;> rfl
      have sameTx : client.tx = connection.client.tx := by
        rw [← isAfter]
        cases ret <;> rfl
      have isQueue : client.rxQueue = connection.client.rxQueue ++ messages := by
        rw [← isAfter]
        cases ret <;> rfl
      have stops : client.events = true → ret = true := by
        rw [← isAfter]
        cases ret
        · exact nofun
        · exact fun _ => rfl
      have sameQueued : client.queued = connection.client.queued := by
        rw [← isAfter]
        cases ret <;> rfl
      have pushes := @ipcServicePushClient_spec id clients client nodup
        (by rw [sameQueued]; exact queued) (fun isQueued => by
          rw [sameQueued] at isQueued
          have something := waits.mpr (queued.mp isQueued)
          rw [or_iff_left nofun] at something
          left
          rw [isQueue]
          exact append_ne_nil_of_left_ne_nil something _)
      generalize ipcServicePushClient clients id client = result at pushes stepped
      obtain ⟨clients'', client'⟩ := result
      obtain ⟨requeued, isClient', queued', waits'⟩ := pushes
      obtain ⟨rfl, rfl⟩ := Prod.mk.inj (some.inj stepped)
      refine ⟨⟨carries _ (by rw [isClient', sameRx]) (by rw [isClient']; exact stops), ?_,
        blocking, queued', given, ?_, Or.inl ⟨isReturned, ?_⟩⟩, requeued⟩
      · dsimp only
        rw [isClient', sameTx]
        exact toPeer
      · rw [isReceived, isGiven, isClient', isQueue, append_assoc]
      · rw [isClient']
        exact waits'
    · cases isClosed
  | writeEvent script =>
    rw [serviceStep] at stepped
    split_ifs at stepped with isAdded
    obtain ⟨ret, tx', direction', isWrite, carries, -, -, succeeds⟩ :=
      writeTo_spec toPeer script
    have safe : Safe connection.toPeer.stream script := by
      rw [← isConnection]
      exact allowed
    rw [isWrite, map_some, succeeds safe] at stepped
    dsimp only at stepped
    rw [if_pos rfl] at stepped
    obtain ⟨rfl, rfl⟩ := Prod.mk.inj (some.inj stepped)
    refine ⟨?_, requeued_same nodup⟩
    rw [afterWrite]
    split_ifs
    · exact ⟨carries_reader toService rfl fun same => same, carries, blocking,
        serves_same serves rfl rfl rfl rfl rfl⟩
    · exact ⟨carries_reader toService rfl fun same => same, carries, blocking,
        serves_same serves rfl rfl rfl rfl rfl⟩
  | release =>
    rw [serviceStep] at stepped
    split_ifs at stepped with isReported
    obtain ⟨rfl, rfl⟩ := Prod.mk.inj (some.inj stepped)
    obtain ⟨queued, given, isGiven, isReturned⟩ := serves
    refine ⟨⟨carries_closeReader (carries_reader toService rfl nofun),
      carries_closeWriter toPeer, blocking, queued, given, isGiven, ?_⟩, requeued_same nodup⟩
    rcases isReturned with ⟨isReturned, -⟩ | ⟨isReturned, isEmpty, -, absent⟩
    · rw [isReturned] at isReported
      simp at isReported
    · exact Or.inr ⟨isReturned, isEmpty, rfl, absent⟩

/-- Taking a client from the queue returns its next message, or the end of its connection. -/
theorem serviceRecv_consistent {rest : List Nat}
    (consistent : Consistent connection (id ∈ id :: rest)) (nodup : (id :: rest).Nodup) :
    let (clients', after) := serviceRecv rest id connection
    Consistent after (id ∈ clients') ∧ Requeued rest id clients' := by
  obtain ⟨toService, toPeer, blocking, queued, given, isGiven, isReturned⟩ := consistent
  have absent := (nodup_cons.mp nodup).1
  have nodupRest := (nodup_cons.mp nodup).2
  rcases isReturned with ⟨isReturned, waits⟩ | ⟨-, -, -, isAbsent⟩
  · rw [serviceRecv]
    cases isQueue : connection.client.rxQueue with
    | nil =>
      dsimp only
      have isClosed : connection.client.events = false := by
        have something := waits.mpr (mem_cons_self ..)
        rw [isQueue] at something
        exact something.resolve_left fun filled => filled rfl
      refine ⟨⟨carries_reader toService rfl fun same => same, toPeer, blocking, ?_, given, ?_, ?_⟩,
        requeued_same nodupRest⟩
      · exact ⟨nofun, fun member => absurd member absent⟩
      · exact isGiven
      · exact Or.inr ⟨by rw [isReturned], isQueue, isClosed, absent⟩
    | cons next later =>
      dsimp only
      have pushes := @ipcServicePushClient_spec id rest
        { connection.client with queued := false, rxQueue := later } nodupRest
        ⟨nofun, fun member => absurd member absent⟩ nofun
      generalize ipcServicePushClient rest id _ = result at pushes ⊢
      obtain ⟨clients', client'⟩ := result
      obtain ⟨requeued, isClient', queued', waits'⟩ := pushes
      refine ⟨⟨carries_reader toService (by rw [isClient'])
          (by rw [isClient']; exact fun same => same), ?_, blocking, queued',
        given ++ [next], ?_, Or.inl ⟨?_, ?_⟩⟩, requeued⟩
      · dsimp only
        rw [isClient']
        exact toPeer
      · rw [isGiven, isQueue, isClient', append_assoc]
        rfl
      · rw [isReturned, map_append]
        rfl
      · rw [isClient']
        exact waits'
  · exact absurd (mem_cons_self ..) isAbsent

/-! ## Runs -/

structure Valid (state : State) : Prop where
  connections : ∀ id, Consistent (state.connections id) (id ∈ state.clientsRecv)
  nodup : state.clientsRecv.Nodup

theorem valid_initial (isAsync : Nat → Bool) : Valid (initial isAsync) where
  connections id := by
    have absent : (id ∈ (initial isAsync).clientsRecv) = False := eq_false not_mem_nil
    rw [absent]
    exact consistent_initial (isAsync id)
  nodup := nodup_nil

theorem valid_setConnection {state : State} {earlier : List Nat}
    (others : ∀ other, other ≠ id →
      Consistent (state.connections other) (other ∈ earlier))
    (consistent : Consistent after (id ∈ clients')) (requeued : Requeued earlier id clients') :
    Valid (state.setConnection id (clients', after)) where
  connections other := by
    rw [State.setConnection]
    dsimp only
    by_cases same : other = id
    · subst same
      rw [Function.update_self]
      exact consistent
    · rw [Function.update_of_ne same, propext (requeued.others other same)]
      exact others other same
  nodup := requeued.nodup

theorem zbxIpcServiceRecv_valid {state : State} (valid : Valid state) :
    Valid (zbxIpcServiceRecv state) := by
  rw [zbxIpcServiceRecv]
  cases isQueue : state.clientsRecv with
  | nil => exact valid
  | cons id rest =>
    have consistent := valid.connections id
    have nodup := valid.nodup
    rw [isQueue] at consistent nodup
    obtain ⟨consistent', requeued⟩ := serviceRecv_consistent consistent nodup
    apply valid_setConnection _ consistent' requeued
    intro other different
    have isOther := valid.connections other
    rwa [isQueue, propext (mem_cons.trans (or_iff_right different))] at isOther

theorem step_valid (state : State) (action : Action) (next : State) (valid : Valid state)
    (allowed : Allowed state action) (stepped : step state action = some next) : Valid next := by
  cases action with
  | peer id action =>
    obtain ⟨connection, isStep, rfl⟩ := map_eq_some_iff.mp stepped
    exact valid_setConnection (fun other _ => valid.connections other)
      (peerStep_consistent (valid.connections id) allowed isStep) (requeued_same valid.nodup)
  | service id action =>
    obtain ⟨⟨clients', connection⟩, isStep, rfl⟩ := map_eq_some_iff.mp stepped
    obtain ⟨consistent, requeued⟩ :=
      serviceStep_consistent rfl (valid.connections id) valid.nodup allowed isStep
    exact valid_setConnection (fun other _ => valid.connections other) consistent requeued
  | recv =>
    obtain rfl := some.inj stepped
    exact zbxIpcServiceRecv_valid valid

theorem run_valid {isAsync : Nat → Bool} {actions : List Action} {final : State}
    (allowed : Guarded step Allowed (initial isAsync) actions)
    (executed : run step (initial isAsync) actions = some final) : Valid final :=
  guarded_run_invariant step_valid (valid_initial isAsync) allowed executed

/-! ## What a run guarantees -/

/-- What has arrived in one direction, and what arrives when nothing is on its way. -/
structure Lossless (tx : Outgoing) (direction : Direction) : Prop where
  inOrder : direction.received <+: direction.sent
  all :
    direction.stream.bytes = [] → direction.stream.broken = false → unsent tx = [] →
      direction.received = direction.sent

structure Returned (connection : Connection) (waiting : Prop) : Prop where
  inOrder :
    ∃ given, connection.toService.received = given ++ connection.client.rxQueue ∧
      (connection.returned = given.map some ∨
        (connection.returned = given.map some ++ [none] ∧ connection.client.rxQueue = []))
  filled : connection.client.rxQueue ≠ [] → waiting
  closed :
    connection.client.events = false → ¬waiting →
      connection.returned = connection.toService.received.map some ++ [none]
  opened : none ∈ connection.returned → connection.client.events = false

/-- Everything holds that the transport promises for one connection. -/
structure Transported (connection : Connection) (waiting : Prop) : Prop where
  toService : Lossless connection.peer.tx connection.toService
  toPeer : Lossless connection.client.tx connection.toPeer
  returned : Returned connection waiting

theorem lossless_of_carries {tx : Outgoing} {reader : ZbxIpcClient} {direction : Direction}
    (carries : Carries tx reader direction) : Lossless tx direction := by
  obtain ⟨rest, tail, same, unfinished, -, isUnsent⟩ := carries.bytes
  have validSent := fun message member => wellFormed_of_fits (carries.fits message member)
  constructor
  · simp only [append_assoc] at same
    exact recognised_prefix selfDelimiting carries.wellFormed validSent same
  · intro nothing isWhole sent
    rw [nothing, isUnsent isWhole, sent, append_nil, append_nil] at same
    exact recognised_all selfDelimiting carries.wellFormed validSent unfinished same

theorem returned_of_serves (serves : Serves connection waiting) : Returned connection waiting := by
  obtain ⟨-, given, isGiven, isReturned⟩ := serves
  rcases isReturned with ⟨isReturned, waits⟩ | ⟨isReturned, isEmpty, isClosed, -⟩
  · refine ⟨⟨given, isGiven, Or.inl isReturned⟩, fun filled => waits.mp (Or.inl filled), ?_, ?_⟩
    · intro isClosed absent
      exact absurd (waits.mp (Or.inr isClosed)) absent
    · intro isReported
      rw [isReturned] at isReported
      simp at isReported
  · refine ⟨⟨given, isGiven, Or.inr ⟨isReturned, isEmpty⟩⟩, fun filled => absurd isEmpty filled,
      ?_, fun _ => isClosed⟩
    intro _ _
    rw [isReturned, isGiven, isEmpty, append_nil]

theorem transported_of_valid {state : State} (valid : Valid state) (id : Nat) :
    Transported (state.connections id) (id ∈ state.clientsRecv) := by
  obtain ⟨toService, toPeer, -, serves⟩ := valid.connections id
  exact ⟨lossless_of_carries toService, lossless_of_carries toPeer, returned_of_serves serves⟩

/-! ## Taking what waits -/

/-- How often the service can be asked before nothing waits. -/
def waitingCount (state : State) : Nat :=
  (state.clientsRecv.map fun id => (state.connections id).client.rxQueue.length + 1).sum

/-- Taking a client changes neither what has arrived nor whether the connection is open,
and leaves the client in the queue only with fewer messages. -/
theorem serviceRecv_spec (rest : List Nat) (id : Nat) (connection : Connection) :
    let (clients', after) := serviceRecv rest id connection
    after.toService = connection.toService ∧ after.client.events = connection.client.events ∧
      (clients' = rest ∨
        (clients' = rest ++ [id] ∧
          after.client.rxQueue.length + 1 = connection.client.rxQueue.length)) := by
  rw [serviceRecv]
  cases isQueue : connection.client.rxQueue with
  | nil => exact ⟨rfl, rfl, Or.inl rfl⟩
  | cons next later =>
    dsimp only
    unfold ipcServicePushClient
    rw [if_neg Bool.noConfusion]
    split_ifs with nothing
    · exact ⟨rfl, rfl, Or.inl rfl⟩
    · exact ⟨rfl, rfl, Or.inr ⟨rfl, rfl⟩⟩

theorem zbxIpcServiceRecv_spec {state : State} (valid : Valid state) :
    (∀ id, ((zbxIpcServiceRecv state).connections id).toService =
        (state.connections id).toService ∧
      ((zbxIpcServiceRecv state).connections id).client.events =
        (state.connections id).client.events) ∧
      (state.clientsRecv ≠ [] → waitingCount (zbxIpcServiceRecv state) < waitingCount state) := by
  rw [zbxIpcServiceRecv]
  cases isQueue : state.clientsRecv with
  | nil => exact ⟨fun _ => ⟨rfl, rfl⟩, fun filled => absurd rfl filled⟩
  | cons id rest =>
    have absent : id ∉ rest := by
      have nodup := valid.nodup
      rw [isQueue] at nodup
      exact (nodup_cons.mp nodup).1
    have spec := serviceRecv_spec rest id (state.connections id)
    dsimp only
    generalize serviceRecv rest id (state.connections id) = result at spec ⊢
    obtain ⟨clients', after⟩ := result
    obtain ⟨sameDirection, sameEvents, shorter⟩ := spec
    have others : ∀ other ∈ rest,
        Function.update state.connections id after other = state.connections other := by
      intro other member
      have different : other ≠ id := by
        rintro rfl
        exact absent member
      exact Function.update_of_ne different _ _
    constructor
    · intro other
      rw [State.setConnection]
      dsimp only
      by_cases same : other = id
      · subst same
        rw [Function.update_self]
        exact ⟨sameDirection, sameEvents⟩
      · rw [Function.update_of_ne same]
        exact ⟨rfl, rfl⟩
    · intro _
      have same : (rest.map fun other =>
          (Function.update state.connections id after other).client.rxQueue.length + 1) =
          rest.map fun other => (state.connections other).client.rxQueue.length + 1 :=
        map_congr_left fun other member => by rw [others other member]
      rw [waitingCount, waitingCount, isQueue, State.setConnection]
      dsimp only
      rcases shorter with rfl | ⟨rfl, fewer⟩
      · rw [same, map_cons, sum_cons]
        omega
      · rw [map_append, same, sum_append, map_cons, sum_cons]
        simp only [map_cons, map_nil, sum_cons, sum_nil, Function.update_self]
        omega

/-- The service takes everything that waits in finitely many calls. -/
theorem exists_drained {state : State} (valid : Valid state) :
    ∃ calls drained, run step state (replicate calls .recv) = some drained ∧
      Valid drained ∧ drained.clientsRecv = [] ∧
      ∀ id, (drained.connections id).toService = (state.connections id).toService ∧
        (drained.connections id).client.events = (state.connections id).client.events := by
  generalize isCount : waitingCount state = count
  induction count using Nat.strong_induction_on generalizing state with
  | _ count ih =>
    by_cases empty : state.clientsRecv = []
    · exact ⟨0, state, rfl, valid, empty, fun _ => ⟨rfl, rfl⟩⟩
    · obtain ⟨same, fewer⟩ := zbxIpcServiceRecv_spec valid
      have lower := fewer empty
      rw [isCount] at lower
      obtain ⟨calls, drained, executed, isValid, isEmpty, same'⟩ :=
        ih _ lower (zbxIpcServiceRecv_valid valid) rfl
      refine ⟨calls + 1, drained, ?_, isValid, isEmpty, fun id => ?_⟩
      · rw [replicate_succ, run_cons_eq_some]
        exact ⟨_, rfl, executed⟩
      · exact ⟨(same' id).1.trans (same id).1, (same' id).2.trans (same id).2⟩

/--
In every state of every run the transport is lossless and ordered, and calls of
`zbx_ipc_service_recv` return everything that has arrived, with the end of a
connection after its last message.
-/
theorem transport_run (isAsync : Nat → Bool) (actions : List Action) (final : State)
    (allowed : Guarded step Allowed (initial isAsync) actions)
    (executed : run step (initial isAsync) actions = some final) :
    (∀ id, Transported (final.connections id) (id ∈ final.clientsRecv)) ∧
      ∃ calls drained, run step final (replicate calls .recv) = some drained ∧
        ∀ id, (drained.connections id).returned =
          (final.connections id).toService.received.map some ++
            if (final.connections id).client.events then [] else [none] := by
  have valid := run_valid allowed executed
  refine ⟨transported_of_valid valid, ?_⟩
  obtain ⟨calls, drained, isDrained, isValid, empty, same⟩ := exists_drained valid
  refine ⟨calls, drained, isDrained, fun id => ?_⟩
  obtain ⟨⟨given, isGiven, isReturned⟩, filled, closed, opened⟩ :=
    (transported_of_valid isValid id).returned
  obtain ⟨sameDirection, sameEvents⟩ := same id
  have absent : id ∉ drained.clientsRecv := by
    rw [empty]
    exact not_mem_nil
  rw [← sameDirection, ← sameEvents]
  cases isOpen : (drained.connections id).client.events with
  | false => exact closed isOpen absent
  | true =>
    have isEmpty : (drained.connections id).client.rxQueue = [] := by
      by_contra isFilled
      exact absent (filled isFilled)
    rw [if_pos rfl, append_nil, isGiven, isEmpty, append_nil]
    rcases isReturned with isReturned | ⟨isReturned, -⟩
    · exact isReturned
    · have reported := opened (by rw [isReturned]; simp)
      rw [isOpen] at reported
      cases reported

/-- Two messages, the second one in pieces, and the end of the connection. -/
def sampleRun : List Action :=
  [.peer 0 (.write 7 [] [.wrote 99]), .peer 0 (.write 8 [1, 2] [.wrote 4, .interrupted, .wrote 99]),
    .service 0 (.readEvent [.got 10]), .recv, .service 0 (.readEvent [.got 2, .got 99]),
    .peer 0 .close, .service 0 (.readEvent [.got 0]), .recv]

theorem transport_sampleRun :
    ∃ final, run step (initial fun _ => false) sampleRun = some final ∧
      (∀ id, Transported (final.connections id) (id ∈ final.clientsRecv)) ∧
        ∃ calls drained, run step final (replicate calls .recv) = some drained ∧
          ∀ id, (drained.connections id).returned =
            (final.connections id).toService.received.map some ++
              if (final.connections id).client.events then [] else [none] := by
  have runs : (run step (initial fun _ => false) sampleRun).isSome = true := rfl
  obtain ⟨final, executed⟩ := isSome_iff_exists.mp runs
  refine ⟨final, executed, transport_run _ sampleRun final ?_ executed⟩
  have empty : 0 + headerSize < uint32Bound := by decide
  have short : 2 + headerSize < uint32Bound := by decide
  exact ⟨empty, fun _ _ => ⟨short, fun _ _ => ⟨trivial, fun _ _ => ⟨trivial, fun _ _ =>
    ⟨trivial, fun _ _ => ⟨trivial, fun _ _ => ⟨trivial, fun _ _ => ⟨trivial, fun _ _ =>
      trivial⟩⟩⟩⟩⟩⟩⟩⟩

/-- The service cannot send all of its answer, and the other end goes away. -/
def lostRun : List Action :=
  [.service 0 (.send 1 [9] []), .peer 0 (.write 2 [5] [.wrote 99]),
    .service 0 (.readEvent [.got 99]), .peer 0 .close, .service 0 (.writeEvent [.wrote 0])]

/-- A write event on a connection that is gone drops what has been received. -/
theorem lostRun_notTransported :
    ∃ final, run step (initial fun _ => false) lostRun = some final ∧
      (final.connections 0).toService.received = [message 2 [5]] ∧
      (final.connections 0).returned = [] ∧ final.clientsRecv = [] ∧
      ¬Transported (final.connections 0) (0 ∈ final.clientsRecv) := by
  have loses : (run step (initial fun _ => false) lostRun).map
      (fun final => ((final.connections 0).toService.received, (final.connections 0).returned,
        (final.connections 0).client.rxQueue, final.clientsRecv)) =
      some ([message 2 [5]], [], [message 2 [5]], []) := rfl
  obtain ⟨final, executed, isFinal⟩ := map_eq_some_iff.mp loses
  obtain ⟨isReceived, rest⟩ := Prod.mk.inj isFinal
  obtain ⟨isReturned, rest⟩ := Prod.mk.inj rest
  obtain ⟨isQueue, nobody⟩ := Prod.mk.inj rest
  refine ⟨final, executed, isReceived, isReturned, nobody, fun transported => ?_⟩
  have waits := transported.returned.filled (by rw [isQueue]; exact cons_ne_nil _ _)
  rw [nobody] at waits
  cases waits

end Zabbix.Ipc.Transport
