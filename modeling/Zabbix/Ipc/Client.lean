import Zabbix.Ipc.Assembly

/-!
# IPC clients

An IPC client sends and receives messages through a nonblocking socket.  What it
cannot write at once it keeps: the rest of one message, which may be cut anywhere,
and a queue of whole messages behind it.  `unsent` is the stream that these are.
-/

namespace Zabbix.Ipc.Client

open Library.ByteReader Library.Framing Socket Assembly List

/-! ## The client -/

/-- The message that is being sent, with `txBytes` bytes to go, and those behind it. -/
structure Outgoing where
  txCode : UInt32 := 0
  txSize : Nat := 0
  txData : Bytes := []
  txBytes : Nat := 0
  txQueue : List ZbxIpcMessage := []
deriving DecidableEq

structure ZbxIpcClient where
  rx : Incoming := {}
  rxQueue : List ZbxIpcMessage := []
  tx : Outgoing := {}
  /-- `rx_event` and `tx_event` are not `NULL`. -/
  events : Bool := true
  /-- `tx_event` has been added. -/
  txAdded : Bool := false
  /-- `state` is `ZBX_IPC_CLIENT_STATE_QUEUED`. -/
  queued : Bool := false
deriving DecidableEq

def ipcClientFreeEvents (client : ZbxIpcClient) : ZbxIpcClient :=
  { client with events := false, txAdded := false }

def ipcClientPushRxMessage (client : ZbxIpcClient) : ZbxIpcClient :=
  let rx := client.rx
  { client with
    rxQueue := client.rxQueue ++
      [⟨messageCode rx.rxHeader, messageSize rx.rxHeader, rx.rxData⟩]
    rx := { rx with rxData := [], rxBytes := 0 } }

def ipcClientPopTxMessage (tx : Outgoing) : Outgoing :=
  match tx.txQueue with
  | [] => { tx with txData := [], txBytes := 0 }
  | message :: rest =>
    { txCode := message.code
      txSize := message.size
      txData := message.data
      txBytes := add32 headerSize message.size
      txQueue := rest }

/-- The loop of `ipc_client_read`; each turn but the last one completes a message. -/
def clientReadLoop : Nat → ZbxIpcClient → Stream → List ReadResult →
    Option (Bool × ZbxIpcClient × Stream)
  | 0, _, _, _ => none
  | fuel + 1, client, stream, script =>
    (ipcSocketReadMessage client.rx stream script).bind fun read =>
      let client := { client with rx := read.rx }
      if read.ret = false then
        some (false, { client with rx := { read.rx with rxData := [], rxBytes := 0 } },
          read.stream)
      else if ipcMessageIsCompleted read.rx.rxHeader read.rx.rxBytes then
        clientReadLoop fuel (ipcClientPushRxMessage client) read.stream read.script
      else
        some (true, client, read.stream)

def ipcClientRead (client : ZbxIpcClient) (stream : Stream) (script : List ReadResult) :
    Option (Bool × ZbxIpcClient × Stream) :=
  clientReadLoop (client.rx.buffered.length + stream.bytes.length + 1) client stream script

/-- The loop of `ipc_client_write`; each turn but the last one writes something. -/
def clientWriteLoop : Nat → Outgoing → Stream → List WriteResult →
    Option (Bool × Outgoing × Stream)
  | 0, _, _, _ => none
  | fuel + 1, tx, stream, script =>
    if tx.txBytes = 0 then
      some (true, ipcClientPopTxMessage tx, stream)
    else
      let written := ipcWriteData script
        ((tx.txData.drop (sub32 tx.txSize tx.txBytes)).take tx.txBytes) stream
      if written.ret = false then
        some (false, tx, written.stream)
      else if written.sizeSent = 0 then
        some (true, tx, written.stream)
      else
        clientWriteLoop fuel { tx with txBytes := sub32 tx.txBytes written.sizeSent }
          written.stream written.script

def ipcClientWrite (tx : Outgoing) (stream : Stream) (script : List WriteResult) :
    Option (Bool × Outgoing × Stream) :=
  if tx.txSize < tx.txBytes then
    let size := sub32 tx.txBytes tx.txSize
    let written := ipcWriteData script
      (((headerBytes tx.txCode tx.txSize).drop (sub32 headerSize size)).take size) stream
    let tx' := { tx with txBytes := sub32 tx.txBytes written.sizeSent }
    if written.ret = false then
      some (false, tx, written.stream)
    else if tx.txSize < tx'.txBytes then
      some (true, tx', written.stream)
    else
      clientWriteLoop (tx'.txBytes + 1) tx' written.stream written.script
  else
    clientWriteLoop (tx.txBytes + 1) tx stream script

def zbxIpcClientSend (client : ZbxIpcClient) (message : ZbxIpcMessage) (stream : Stream)
    (script : List WriteResult) : Bool × ZbxIpcClient × Stream :=
  let tx := client.tx
  if tx.txBytes ≠ 0 then
    (true, { client with tx := { tx with txQueue := tx.txQueue ++ [message] } }, stream)
  else
    let written := ipcSocketWriteMessage message script stream
    if written.ret = false then
      (false, client, written.stream)
    else if written.sizeSent ≠ add32 headerSize message.size then
      (true,
        { client with
          tx :=
            { tx with
              txCode := message.code
              txSize := message.size
              txData := message.data
              txBytes := sub32 (add32 headerSize message.size) written.sizeSent }
          txAdded := client.events },
        written.stream)
    else
      (true, client, written.stream)

/-- The result of `zbx_ipc_socket_write`, and the stream. -/
def zbxIpcSocketWrite (message : ZbxIpcMessage) (stream : Stream) (script : List WriteResult) :
    Bool × Stream :=
  let written := ipcSocketWriteMessage message script stream
  (written.ret && written.sizeSent == add32 message.size headerSize, written.stream)

/-! ## Reading -/

variable {client after : ZbxIpcClient} {stream stream' : Stream} {message : ZbxIpcMessage}
variable {rx : Incoming} {tx : Outgoing}

theorem encode_completed (completed : IsCompleted rx) :
    encode ⟨messageCode rx.rxHeader, messageSize rx.rxHeader, rx.rxData⟩ = assembled rx := by
  obtain ⟨isHeader, fits, exact, isData⟩ := completed
  rw [encode, headerBytes_words isHeader, assembled, assembledBytes,
    take_of_length_le (by omega), take_of_length_le (by omega)]

theorem wellFormed_completed (completed : IsCompleted rx) :
    WellFormed ⟨messageCode rx.rxHeader, messageSize rx.rxHeader, rx.rxData⟩ :=
  ⟨completed.isData.symm, messageSize_lt completed.isHeader⟩

theorem isCompleted_eq_true (completed : IsCompleted rx) :
    ipcMessageIsCompleted rx.rxHeader rx.rxBytes = true := by
  obtain ⟨-, fits, exact, -⟩ := completed
  simp [ipcMessageIsCompleted, add32_eq fits, exact]

theorem isCompleted_eq_false (assembling : IsAssembling rx) :
    ipcMessageIsCompleted rx.rxHeader rx.rxBytes = false := by
  rw [ipcMessageIsCompleted, Bool.and_eq_false_iff]
  by_cases long : headerSize ≤ rx.rxBytes
  · right
    obtain ⟨fits, below, -⟩ := assembling.incomplete long
    rw [add32_eq fits, beq_eq_false_iff_ne]
    exact below.ne'
  · left
    exact decide_eq_false long

/-- Reading passes on messages, and keeps or drops the beginning of one. -/
structure Receives (client : ZbxIpcClient) (stream : Stream) (ret : Bool) (after : ZbxIpcClient)
    (stream' : Stream) (messages : List ZbxIpcMessage) (rest : Bytes) : Prop where
  isClient : after = { client with rx := after.rx, rxQueue := client.rxQueue ++ messages }
  kept : framed encode messages ++ rest ++ stream'.bytes = held client.rx ++ stream.bytes
  wellFormed : ∀ message ∈ messages, WellFormed message
  unfinished : Unfinished encode WellFormed rest
  assembling : IsAssembling after.rx
  closed : stream'.closed = stream.closed
  broken : stream'.broken = stream.broken
  succeeded : ret = true → rest = held after.rx

theorem isAssembling_fresh (isHeader : rx.rxHeader.length = headerSize) :
    IsAssembling { rx with rxData := [], rxBytes := 0 } where
  isHeader := isHeader
  incomplete long := absurd long (Nat.not_succ_le_zero 7)

theorem length_assembled_lt {later : Bytes} (assembling : IsAssembling rx)
    (wellFormed : WellFormed message) (same : encode message ++ later = held rx ++ stream.bytes) :
    (assembled rx).length < (encode message).length := by
  by_contra short
  have first : encode message <+: held rx ++ stream.bytes := ⟨later, same⟩
  have second : assembled rx <+: held rx ++ stream.bytes := by
    rw [held, append_assoc]
    exact prefix_append _ _
  exact unfinished_assembling assembling message wellFormed
    (prefix_of_prefix_length_le first second (Nat.not_lt.mp short))

theorem clientReadLoop_spec {fuel : Nat} (assembling : IsAssembling client.rx)
    (streams : Streams encode Fits (held client.rx ++ stream.bytes))
    (enough : client.rx.buffered.length + stream.bytes.length < fuel)
    (script : List ReadResult) :
    ∃ ret after stream' messages rest,
      clientReadLoop fuel client stream script = some (ret, after, stream') ∧
        Receives client stream ret after stream' messages rest := by
  induction fuel generalizing client stream script with
  | zero => exact absurd enough (Nat.not_lt_zero _)
  | succ fuel ih =>
    obtain ⟨read, isRead, reads⟩ :=
      ipcSocketReadMessage_spec assembling (headerFits_of_streams streams) script
    rw [clientReadLoop, isRead, Option.bind_some]
    dsimp only
    rcases reads.outcome with ⟨succeeded, completed⟩ | ⟨stillAssembling, empty⟩
    · have wellFormed := wellFormed_completed completed
      have recognised := encode_completed completed
      rw [if_neg (by simp [succeeded]), if_pos (isCompleted_eq_true completed)]
      generalize isNext : ZbxIpcMessage.mk _ _ _ = message at wellFormed recognised
      have kept : encode message ++ (read.rx.buffered ++ read.stream.bytes) =
          held client.rx ++ stream.bytes := by
        rw [recognised, ← append_assoc]
        exact reads.kept
      have pushed : held { read.rx with rxData := [], rxBytes := 0 } = read.rx.buffered :=
        nil_append _
      have streams' := streams
      rw [← kept] at streams'
      have progress := length_assembled_lt assembling wellFormed kept
      have lengths := congrArg length kept
      simp only [held, length_append] at lengths
      obtain ⟨ret, after, stream', messages, rest, isLoop, receives⟩ := @ih
        (ipcClientPushRxMessage { client with rx := read.rx }) read.stream
        (isAssembling_fresh completed.isHeader)
        (by
          rw [ipcClientPushRxMessage, pushed]
          exact (streams_tail selfDelimiting (fun _ => wellFormed_of_fits) wellFormed streams').2)
        (by
          show read.rx.buffered.length + _ < fuel
          omega)
        read.script
      refine ⟨ret, after, stream', message :: messages, rest, isLoop, ?_⟩
      constructor
      · have isAfter := receives.isClient
        unfold ipcClientPushRxMessage at isAfter
        dsimp only at isAfter
        rw [isNext, append_assoc] at isAfter
        exact isAfter
      · have rest' := receives.kept
        rw [ipcClientPushRxMessage, pushed] at rest'
        rw [framed_cons, append_assoc, append_assoc, ← append_assoc (framed _ _), rest', kept]
      · intro other member
        rcases mem_cons.mp member with rfl | later
        · exact wellFormed
        · exact receives.wellFormed other later
      · exact receives.unfinished
      · exact receives.assembling
      · exact receives.closed.trans reads.closed
      · exact receives.broken.trans reads.broken
      · exact receives.succeeded
    · have isHeld : held read.rx = assembled read.rx := by rw [held, empty, append_nil]
      by_cases isFailed : read.ret = false
      · rw [if_pos isFailed]
        refine ⟨_, _, _, [], assembled read.rx, rfl, ?_⟩
        constructor
        · simp
        · rw [framed_nil, nil_append, ← isHeld, reads.kept]
        · simp
        · exact unfinished_assembling stillAssembling
        · exact isAssembling_fresh stillAssembling.isHeader
        · exact reads.closed
        · exact reads.broken
        · intro succeeded
          cases succeeded
      · rw [if_neg isFailed, if_neg (by simp [isCompleted_eq_false stillAssembling])]
        refine ⟨_, _, _, [], held read.rx, rfl, ?_⟩
        constructor
        · simp
        · rw [framed_nil, nil_append, reads.kept]
        · simp
        · rw [isHeld]
          exact unfinished_assembling stillAssembling
        · exact stillAssembling
        · exact reads.closed
        · exact reads.broken
        · exact fun _ => rfl

theorem ipcClientRead_spec (assembling : IsAssembling client.rx)
    (streams : Streams encode Fits (held client.rx ++ stream.bytes)) (script : List ReadResult) :
    ∃ ret after stream' messages rest,
      ipcClientRead client stream script = some (ret, after, stream') ∧
        Receives client stream ret after stream' messages rest :=
  clientReadLoop_spec assembling streams (Nat.lt_succ_self _) script

end Zabbix.Ipc.Client
