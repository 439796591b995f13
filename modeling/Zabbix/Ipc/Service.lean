import Zabbix.Ipc.Sending

/-!
# An IPC service and its clients

A service with any number of connections, as a transition system.  The other end
of a connection is a blocking socket (`zbx_ipc_socket_t`) or an asynchronous one
(`zbx_ipc_async_socket_t`).  The events that libevent handles, the calls of the
two sides, and the end of a connection come in any order; every action carries
what the operating system answers.  `zbx_ipc_service_recv` takes one step once
the events of its `event_base_loop` have been handled.

`sent` has the messages that were given to a function that sends, `received` those
that were placed in an `rx_queue`, and `returned` what `zbx_ipc_service_recv`
returned.
-/

namespace Zabbix.Ipc.Service

open Library.ByteReader Library.Framing Socket Assembly Client Sending List

/-! ## The system -/

structure Direction where
  stream : Stream := {}
  sent : List ZbxIpcMessage := []
  received : List ZbxIpcMessage := []

structure Connection where
  /-- The other end is an asynchronous socket. -/
  isAsync : Bool
  peer : ZbxIpcClient := {}
  client : ZbxIpcClient := {}
  toService : Direction := {}
  toPeer : Direction := {}
  returned : List (Option ZbxIpcMessage) := []

structure State where
  connections : Nat → Connection
  clientsRecv : List Nat := []

/-- What the other end of a connection does. -/
inductive PeerAction where
  | write (code : UInt32) (data : Bytes) (script : List WriteResult)
  | send (code : UInt32) (data : Bytes) (script : List WriteResult)
  | readEvent (script : List ReadResult)
  | writeEvent (script : List WriteResult)
  | recv
  | close

/-- What the service does with one client. -/
inductive ServiceAction where
  | send (code : UInt32) (data : Bytes) (script : List WriteResult)
  | readEvent (script : List ReadResult)
  | writeEvent (script : List WriteResult)
  | release

inductive Action where
  | peer (id : Nat) (action : PeerAction)
  | service (id : Nat) (action : ServiceAction)
  | recv

def message (code : UInt32) (data : Bytes) : ZbxIpcMessage :=
  ⟨code, data.length, data⟩

/-- `ipc_client_read` on one direction. -/
def readFrom (client : ZbxIpcClient) (direction : Direction) (script : List ReadResult) :
    Option (Bool × ZbxIpcClient × Direction) :=
  (ipcClientRead client direction.stream script).map fun (ret, after, stream) =>
    (ret, after,
      { direction with
        stream := stream
        received := direction.received ++ after.rxQueue.drop client.rxQueue.length })

/-- `zbx_ipc_client_send` on one direction. -/
def sendTo (client : ZbxIpcClient) (direction : Direction) (message : ZbxIpcMessage)
    (script : List WriteResult) : ZbxIpcClient × Direction :=
  let (_, after, stream) := zbxIpcClientSend client message direction.stream script
  (after, { direction with stream := stream, sent := direction.sent ++ [message] })

/-- `ipc_client_write` on one direction. -/
def writeTo (client : ZbxIpcClient) (direction : Direction) (script : List WriteResult) :
    Option (Bool × ZbxIpcClient × Direction) :=
  (ipcClientWrite client.tx direction.stream script).map fun (ret, tx, stream) =>
    (ret, { client with tx := tx }, { direction with stream := stream })

def Direction.closeWriter (direction : Direction) : Direction :=
  { direction with stream := { direction.stream with closed := true } }

def Direction.closeReader (direction : Direction) : Direction :=
  { direction with stream := { direction.stream with readerClosed := true } }

/-- After a write event: the event is deleted when nothing is left to send. -/
def afterWrite (client : ZbxIpcClient) : ZbxIpcClient :=
  if client.tx.txBytes = 0 then { client with txAdded := false } else client

/-- The socket of the other end is closed. -/
def closePeer (connection : Connection) : Connection :=
  { connection with
    peer := ipcClientFreeEvents connection.peer
    toService := connection.toService.closeWriter
    toPeer := connection.toPeer.closeReader }

/-- The socket of the service is closed. -/
def closeClient (connection : Connection) : Connection :=
  { connection with
    client := ipcClientFreeEvents connection.client
    toService := connection.toService.closeReader
    toPeer := connection.toPeer.closeWriter }

def peerStep (connection : Connection) : PeerAction → Option Connection
  | .write code data script =>
    let direction := connection.toService
    let (ret, stream) := zbxIpcSocketWrite (message code data) direction.stream script
    -- a blocking socket waits for room: it leaves no message half written
    if connection.isAsync ∨ (ret = false ∧ stream.broken = false) then none
    else
      some { connection with
        toService :=
          { direction with stream := stream, sent := direction.sent ++ [message code data] } }
  | .send code data script =>
    if connection.isAsync then
      let (peer, toService) :=
        sendTo connection.peer connection.toService (message code data) script
      some { connection with peer := peer, toService := toService }
    else none
  | .readEvent script =>
    -- `ipc_async_socket_read_event_cb`
    if connection.isAsync ∧ connection.peer.events then
      (readFrom connection.peer connection.toPeer script).map fun (ret, peer, toPeer) =>
        { connection with
          peer := if ret then peer else ipcClientFreeEvents peer
          toPeer := toPeer }
    else none
  | .writeEvent script =>
    -- `ipc_async_socket_write_event_cb`
    if connection.isAsync ∧ connection.peer.txAdded then
      (writeTo connection.peer connection.toService script).map fun (ret, peer, toService) =>
        let connection := { connection with peer := peer, toService := toService }
        if ret then { connection with peer := afterWrite peer } else closePeer connection
    else none
  | .recv =>
    some { connection with
      peer := { connection.peer with rxQueue := connection.peer.rxQueue.tail } }
  | .close => some (closePeer connection)

def ipcServicePushClient (clientsRecv : List Nat) (id : Nat) (client : ZbxIpcClient) :
    List Nat × ZbxIpcClient :=
  if client.queued then (clientsRecv, client)
  else if client.rxQueue = [] ∧ client.events then (clientsRecv, client)
  else (clientsRecv ++ [id], { client with queued := true })

def serviceStep (clientsRecv : List Nat) (id : Nat) (connection : Connection) :
    ServiceAction → Option (List Nat × Connection)
  | .send code data script =>
    let (client, toPeer) := sendTo connection.client connection.toPeer (message code data) script
    some (clientsRecv, { connection with client := client, toPeer := toPeer })
  | .readEvent script =>
    -- `ipc_client_read_event_cb`
    if connection.client.events then
      (readFrom connection.client connection.toService script).map
        fun (ret, client, toService) =>
          let client := if ret then client else ipcClientFreeEvents client
          let (clientsRecv, client) := ipcServicePushClient clientsRecv id client
          (clientsRecv, { connection with client := client, toService := toService })
    else none
  | .writeEvent script =>
    -- `ipc_client_write_event_cb`, which closes the client if it cannot write
    if connection.client.txAdded then
      (writeTo connection.client connection.toPeer script).map fun (ret, client, toPeer) =>
        let connection := { connection with client := client, toPeer := toPeer }
        if ret then (clientsRecv, { connection with client := afterWrite client })
        else (clientsRecv.erase id, closeClient connection)
    else none
  | .release =>
    -- the caller has been told that the connection is closed, and drops the client
    if none ∈ connection.returned then some (clientsRecv, closeClient connection)
    else none

/-- `zbx_ipc_service_recv` after its events: the client that is taken, and the rest. -/
def serviceRecv (clientsRecv : List Nat) (id : Nat) (connection : Connection) :
    List Nat × Connection :=
  let client := { connection.client with queued := false }
  match client.rxQueue with
  | message :: rest =>
    let (clientsRecv, client) := ipcServicePushClient clientsRecv id { client with rxQueue := rest }
    (clientsRecv,
      { connection with
        client := client
        returned := connection.returned ++ [some message] })
  | [] =>
    (clientsRecv,
      { connection with client := client, returned := connection.returned ++ [none] })

def State.setConnection (state : State) (id : Nat) (result : List Nat × Connection) : State :=
  ⟨Function.update state.connections id result.2, result.1⟩

def zbxIpcServiceRecv (state : State) : State :=
  match state.clientsRecv with
  | [] => state
  | id :: rest => state.setConnection id (serviceRecv rest id (state.connections id))

def step (state : State) : Action → Option State
  | .peer id action =>
    (peerStep (state.connections id) action).map fun connection =>
      state.setConnection id (state.clientsRecv, connection)
  | .service id action =>
    (serviceStep state.clientsRecv id (state.connections id) action).map (state.setConnection id)
  | .recv => some (zbxIpcServiceRecv state)

/-- All connections have just been accepted. -/
def initial (isAsync : Nat → Bool) : State :=
  { connections := fun id => { isAsync := isAsync id } }

/--
A message can be sent if its size with the header is below 4 GB.  The service may
handle a write event if no write fails, so that it finds the end of a connection
by reading.
-/
def Allowed (state : State) : Action → Prop
  | .peer _ (.write _ data _) => data.length + headerSize < uint32Bound
  | .peer _ (.send _ data _) => data.length + headerSize < uint32Bound
  | .service _ (.send _ data _) => data.length + headerSize < uint32Bound
  | .service id (.writeEvent script) => Safe (state.connections id).toPeer.stream script
  | _ => True

/-! ## What holds of one direction -/

/-- The bytes of one direction are where they should be, from the queue of one end
to the message that is assembled at the other. -/
structure Carries (tx : Outgoing) (reader : ZbxIpcClient) (direction : Direction) : Prop where
  fits : ∀ message ∈ direction.sent, Fits message
  wellFormed : ∀ message ∈ direction.received, WellFormed message
  bytes :
    ∃ rest tail,
      framed encode direction.received ++ rest ++ direction.stream.bytes ++ tail =
        framed encode direction.sent ∧
      Unfinished encode WellFormed rest ∧
      (reader.events = true → rest = held reader.rx) ∧
      (direction.stream.broken = false → tail = unsent tx)
  assembling : IsAssembling reader.rx
  sendable : Sendable tx

variable {tx tx' : Outgoing} {reader after : ZbxIpcClient} {direction direction' : Direction}
variable {message : ZbxIpcMessage} {stream' : Stream} {ret : Bool}

theorem carries_initial : Carries {} {} {} where
  fits _ member := nomatch member
  wellFormed _ member := nomatch member
  bytes := ⟨[], [], rfl, unfinished_nil selfDelimiting, fun _ => rfl, fun _ => rfl⟩
  assembling := ⟨rfl, fun long => absurd long (Nat.not_succ_le_zero 7)⟩
  sendable :=
    { fits := by decide
      isData := Nat.le_refl _
      pending := fun pending => absurd pending (Nat.lt_irrefl 0)
      counted := Nat.zero_le _
      queue := fun _ member => nomatch member
      idle := fun _ => rfl }

variable (carries : Carries tx reader direction)

include carries

theorem carries_closeWriter :
    Carries tx reader direction.closeWriter :=
  ⟨carries.fits, carries.wellFormed, carries.bytes, carries.assembling, carries.sendable⟩

theorem carries_closeReader :
    Carries tx reader direction.closeReader :=
  ⟨carries.fits, carries.wellFormed, carries.bytes, carries.assembling, carries.sendable⟩

theorem carries_reader (sameRx : after.rx = reader.rx)
    (stops : after.events = true → reader.events = true) : Carries tx after direction := by
  obtain ⟨rest, tail, same, unfinished, isHeld, isUnsent⟩ := carries.bytes
  refine ⟨carries.fits, carries.wellFormed, ⟨rest, tail, same, unfinished, ?_, isUnsent⟩, ?_,
    carries.sendable⟩
  · intro isOpen
    rw [sameRx]
    exact isHeld (stops isOpen)
  · rw [sameRx]
    exact carries.assembling

theorem carries_written (messages : List ZbxIpcMessage)
    (fits : ∀ message ∈ messages, Fits message)
    (moved : ∃ tail, stream'.bytes ++ tail =
        direction.stream.bytes ++ (unsent tx ++ framed encode messages) ∧
      (stream'.broken = false → tail = unsent tx'))
    (gone : direction.stream.broken = true →
      stream'.bytes = direction.stream.bytes ∧ stream'.broken = true)
    (sendable : Sendable tx') :
    Carries tx' reader
      { direction with stream := stream', sent := direction.sent ++ messages } := by
  obtain ⟨rest, tail, same, unfinished, isHeld, isUnsent⟩ := carries.bytes
  obtain ⟨tail', isMoved, exact⟩ := moved
  refine ⟨?_, carries.wellFormed, ?_, carries.assembling, sendable⟩
  · intro other member
    rcases mem_append.mp member with earlier | new
    · exact carries.fits other earlier
    · exact fits other new
  · by_cases isBroken : direction.stream.broken = true
    · obtain ⟨sameBytes, stillBroken⟩ := gone isBroken
      refine ⟨rest, tail ++ framed encode messages, ?_, unfinished, isHeld, ?_⟩
      · dsimp only
        rw [sameBytes, framed_append, ← same, append_assoc _ tail]
      · intro isWhole
        rw [stillBroken] at isWhole
        cases isWhole
    · refine ⟨rest, tail', ?_, unfinished, isHeld, exact⟩
      dsimp only
      rw [append_assoc, isMoved, ← isUnsent (Bool.eq_false_iff.mpr isBroken), framed_append, ← same]
      simp only [append_assoc]

omit carries

theorem moves_unbroken {stream : Stream} {before : Bytes}
    (moves : Moves stream before ret tx' stream') :
    (∃ tail, stream'.bytes ++ tail = stream.bytes ++ before ∧
      (stream'.broken = false → tail = unsent tx')) ∧
    (stream.broken = true → stream'.bytes = stream.bytes ∧ stream'.broken = true) := by
  obtain ⟨tail, moved, exact⟩ := moves.bytes
  cases ret with
  | true =>
    refine ⟨⟨tail, moved, fun _ => exact rfl⟩, fun isBroken => ⟨moves.gone isBroken, ?_⟩⟩
    rw [moves.succeeded rfl, isBroken]
  | false =>
    refine ⟨⟨tail, moved, fun isWhole => ?_⟩, fun isBroken => ⟨moves.gone isBroken, ?_⟩⟩
    · rw [moves.failed rfl] at isWhole
      cases isWhole
    · exact moves.failed rfl

theorem sendTo_spec {writer : ZbxIpcClient} (carries : Carries writer.tx reader direction)
    (fits : Fits message) (script : List WriteResult) :
    let (writer', direction') := sendTo writer direction message script
    Carries writer'.tx reader direction' ∧
      writer' = { writer with tx := writer'.tx, txAdded := writer'.txAdded } ∧
      direction'.sent = direction.sent ++ [message] ∧
      direction'.received = direction.received := by
  have sends := zbxIpcClientSend_spec carries.sendable fits direction.stream script
  unfold sendTo
  generalize zbxIpcClientSend writer message direction.stream script = result at sends ⊢
  obtain ⟨ret, writer', stream'⟩ := result
  obtain ⟨moves, isWriter⟩ := sends
  obtain ⟨moved, gone⟩ := moves_unbroken moves
  refine ⟨carries_written carries [message] ?_ ?_ gone moves.sendable, isWriter, rfl, rfl⟩
  · intro other member
    rw [mem_singleton.mp member]
    exact fits
  · rw [framed_cons, framed_nil, append_nil]
    exact moved

theorem writeTo_spec {writer : ZbxIpcClient} (carries : Carries writer.tx reader direction)
    (script : List WriteResult) :
    ∃ ret tx' direction', writeTo writer direction script =
        some (ret, { writer with tx := tx' }, direction') ∧
      Carries tx' reader direction' ∧ direction'.sent = direction.sent ∧
      direction'.received = direction.received ∧
      (Safe direction.stream script → ret = true) := by
  obtain ⟨ret, tx', stream', isWrite, moves⟩ :=
    ipcClientWrite_spec carries.sendable script direction.stream
  obtain ⟨moved, gone⟩ := moves_unbroken moves
  have carries' := carries_written carries [] (fun _ member => nomatch member)
    (by rw [framed_nil, append_nil]; exact moved) gone moves.sendable
  rw [append_nil] at carries'
  refine ⟨ret, tx', _, by rw [writeTo, isWrite]; rfl, carries', rfl, rfl, fun safe => ?_⟩
  exact ipcClientWrite_safe safe isWrite

theorem readFrom_spec (carries : Carries tx reader direction) (isOpen : reader.events = true)
    (script : List ReadResult) :
    ∃ ret rx messages direction', readFrom reader direction script =
        some (ret, { reader with rx := rx, rxQueue := reader.rxQueue ++ messages }, direction') ∧
      direction'.sent = direction.sent ∧
      direction'.received = direction.received ++ messages ∧
      ∀ after, after.rx = rx → (after.events = true → ret = true) →
        Carries tx after direction' := by
  obtain ⟨rest, tail, same, unfinished, isHeld, isUnsent⟩ := carries.bytes
  obtain rfl := isHeld isOpen
  have streams : Streams encode Fits (held reader.rx ++ direction.stream.bytes) := by
    have split : framed encode direction.received ++
        (held reader.rx ++ direction.stream.bytes ++ tail) = framed encode direction.sent := by
      rw [← same]
      simp only [append_assoc]
    obtain ⟨pending, isPending, isLeft⟩ := recognised selfDelimiting carries.wellFormed
      (fun message member => wellFormed_of_fits (carries.fits message member)) split
    apply streams_of_framed _ isLeft
    intro message member
    exact carries.fits message (by rw [isPending]; exact mem_append_right _ member)
  obtain ⟨ret, after, stream', messages, rest, isRead, receives⟩ :=
    ipcClientRead_spec carries.assembling streams script
  have isAfter := receives.isClient
  have isNew : after.rxQueue.drop reader.rxQueue.length = messages := by
    rw [isAfter, drop_left]
  refine ⟨ret, after.rx, messages,
    { direction with stream := stream', received := direction.received ++ messages }, ?_, rfl, rfl,
    ?_⟩
  · rw [readFrom, isRead, Option.map_some]
    dsimp only
    rw [isNew, ← isAfter]
  · intro final sameRx stops
    refine ⟨carries.fits, ?_, ⟨rest, tail, ?_, receives.unfinished, ?_, ?_⟩, ?_, carries.sendable⟩
    · intro other member
      rcases mem_append.mp member with earlier | new
      · exact carries.wellFormed other earlier
      · exact receives.wellFormed other new
    · dsimp only
      rw [framed_append, ← same, append_assoc _ (held _), ← receives.kept]
      simp only [append_assoc]
    · intro isStillOpen
      rw [sameRx]
      exact receives.succeeded (stops isStillOpen)
    · intro isWhole
      exact isUnsent (receives.broken.symm.trans isWhole)
    · rw [sameRx]
      exact receives.assembling

end Zabbix.Ipc.Service
