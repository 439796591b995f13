import Zabbix.Ipc.Client

/-!
# Sending messages

The sending half of an IPC socket.  `unsent` is what a client still has to write.
Every function that writes moves bytes from there to the stream, in order and
without a gap, or breaks the stream for good.
-/

namespace Zabbix.Ipc.Sending

open Library.ByteReader Library.Framing Socket Assembly Client List

variable {stream stream' : Stream} {message : ZbxIpcMessage} {tx tx' : Outgoing}
variable {data : Bytes} {script : List WriteResult} {written : Written}

/-! ## Writing data -/

/-- What writing does: a part of the data is appended, and a failure breaks the stream. -/
structure Writes (stream : Stream) (data : Bytes) (written : Written) : Prop where
  inside : written.sizeSent ≤ data.length
  bytes : written.stream.bytes = stream.bytes ++ data.take written.sizeSent
  closed : written.stream.closed = stream.closed
  succeeded : written.ret = true → written.stream.broken = stream.broken
  failed : written.ret = false → written.stream.broken = true
  gone : stream.broken = true → written.sizeSent = 0

/-- Nothing in the script or in the stream makes a write fail. -/
def Safe (stream : Stream) (script : List WriteResult) : Prop :=
  stream.closed = false ∧ stream.readerClosed = false ∧ stream.broken = false ∧ .failed ∉ script

theorem bytes_gone (writes : Writes stream data written) (isBroken : stream.broken = true) :
    written.stream.bytes = stream.bytes := by
  rw [writes.bytes, writes.gone isBroken, take_zero, append_nil]

theorem broken_kept (writes : Writes stream data written) (isBroken : stream.broken = true) :
    written.stream.broken = true := by
  cases isRet : written.ret with
  | true => rw [writes.succeeded isRet, isBroken]
  | false => exact writes.failed isRet

theorem ipcWriteData_spec (script : List WriteResult) (data : Bytes) (stream : Stream) :
    Writes stream data (ipcWriteData script data stream) := by
  fun_induction ipcWriteData script data stream with
  | case1 script stream =>
    exact ⟨Nat.le_refl _, (append_nil _).symm, rfl, fun _ => rfl, nofun, fun _ => rfl⟩
  | case2 stream byte data =>
    exact ⟨Nat.zero_le _, (append_nil _).symm, rfl, fun _ => rfl, nofun, fun _ => rfl⟩
  | case3 script byte data stream ih => exact ih
  | case4 script byte data stream =>
    exact ⟨Nat.zero_le _, (append_nil _).symm, rfl, fun _ => rfl, nofun, fun _ => rfl⟩
  | case5 script byte data stream =>
    exact ⟨Nat.zero_le _, (append_nil _).symm, rfl, nofun, fun _ => rfl, fun _ => rfl⟩
  | case6 count script byte data stream isGone =>
    exact ⟨Nat.zero_le _, (append_nil _).symm, rfl, nofun, fun _ => rfl, fun _ => rfl⟩
  | case7 count script byte data stream isOpen rest ih =>
    constructor
    · have inside : rest.sizeSent ≤ (data.drop count).length := ih.inside
      rw [length_drop] at inside
      show (data.take count).length + 1 + rest.sizeSent ≤ data.length + 1
      rw [length_take]
      omega
    · show rest.stream.bytes =
        stream.bytes ++ (byte :: data).take ((data.take count).length + 1 + rest.sizeSent)
      rw [ih.bytes, Nat.add_right_comm, take_succ_cons, append_assoc, cons_append]
      congr 2
      by_cases short : count ≤ data.length
      · rw [length_take_of_le short, take_add]
      · rw [drop_eq_nil_of_le (by omega), take_nil, append_nil,
          take_of_length_le (by omega), take_of_length_le (by omega)]
    · exact ih.closed
    · exact ih.succeeded
    · exact ih.failed
    · intro isBroken
      rw [isBroken, Bool.or_true] at isOpen
      exact absurd rfl isOpen

theorem ipcWriteData_safe (data : Bytes) (safe : Safe stream script) :
    let written := ipcWriteData script data stream
    written.ret = true ∧ Safe written.stream written.script := by
  fun_induction ipcWriteData script data stream with
  | case1 script stream => exact ⟨rfl, safe⟩
  | case2 stream byte data => exact ⟨rfl, safe⟩
  | case3 script byte data stream ih =>
    exact ih ⟨safe.1, safe.2.1, safe.2.2.1,
      fun member => safe.2.2.2 (mem_cons_of_mem _ member)⟩
  | case4 script byte data stream =>
    exact ⟨rfl, safe.1, safe.2.1, safe.2.2.1,
      fun member => safe.2.2.2 (mem_cons_of_mem _ member)⟩
  | case5 script byte data stream => exact absurd (mem_cons_self ..) safe.2.2.2
  | case6 count script byte data stream isGone =>
    rw [safe.1, safe.2.1, safe.2.2.1] at isGone
    cases isGone
  | case7 count script byte data stream isOpen rest ih =>
    exact ih ⟨safe.1, safe.2.1, safe.2.2.1,
      fun member => safe.2.2.2 (mem_cons_of_mem _ member)⟩

theorem ipcSocketWriteMessage_spec (fits : Fits message) (script : List WriteResult)
    (stream : Stream) :
    Writes stream (encode message) (ipcSocketWriteMessage message script stream) := by
  unfold ipcSocketWriteMessage
  split_ifs with isShort
  · exact ipcWriteData_spec _ _ _
  · have writes := ipcWriteData_spec script (headerBytes message.code message.size) stream
    have length := length_headerBytes message.code message.size
    generalize ipcWriteData script (headerBytes message.code message.size) stream = header at writes
    have inside := writes.inside
    rw [length] at inside
    dsimp only
    split_ifs with isPart
    · refine ⟨?_, ?_, writes.closed, writes.succeeded, writes.failed, writes.gone⟩
      · rw [length_encode]
        exact inside.trans (Nat.le_add_right _ _)
      · rw [encode, take_append_of_le_length (by rw [length]; exact inside)]
        exact writes.bytes
    · push Not at isPart
      have writesData := ipcWriteData_spec header.script message.data header.stream
      generalize ipcWriteData header.script message.data header.stream = rest at writesData
      have insideData := writesData.inside
      have bounded := fits.2
      rw [fits.1] at bounded
      have counted : add32 header.sizeSent rest.sizeSent = headerSize + rest.sizeSent := by
        rw [isPart.2]
        exact add32_eq (by omega)
      constructor
      · show add32 _ _ ≤ _
        rw [counted, length_encode]
        omega
      · show rest.stream.bytes = _ ++ (encode message).take (add32 _ _)
        rw [counted, writesData.bytes, writes.bytes, isPart.2, encode, append_assoc]
        congr 1
        rw [take_of_length_le length.le, ← length, take_length_add_append]
      · exact writesData.closed.trans writes.closed
      · intro succeeded
        exact (writesData.succeeded succeeded).trans
          (writes.succeeded (Bool.eq_true_of_not_eq_false isPart.1))
      · exact writesData.failed
      · intro isBroken
        have nothing := writes.gone isBroken
        rw [isPart.2] at nothing
        exact absurd nothing (by decide)

/-! ## Sending from the queue -/

/-- The stream that a client has yet to write. -/
def unsent (tx : Outgoing) : Bytes :=
  (headerBytes tx.txCode tx.txSize ++ tx.txData).drop (headerSize + tx.txSize - tx.txBytes) ++
    framed encode tx.txQueue

/-- What a client keeps to be sent can be sent. -/
structure Sending (tx : Outgoing) : Prop where
  fits : headerSize + tx.txSize < uint32Bound
  isData : tx.txData.length ≤ tx.txSize
  pending : 0 < tx.txBytes → tx.txData.length = tx.txSize
  counted : tx.txBytes ≤ headerSize + tx.txSize
  queue : ∀ message ∈ tx.txQueue, Fits message

/-- The same, and no message waits when none is being sent. -/
structure Sendable (tx : Outgoing) : Prop extends Sending tx where
  idle : tx.txBytes = 0 → tx.txQueue = []

theorem unsent_sent (sending : Sending tx) (sent : tx.txBytes = 0) :
    unsent tx = framed encode tx.txQueue := by
  have isData := sending.isData
  rw [unsent, sent, drop_eq_nil_of_le, nil_append]
  rw [length_append, length_headerBytes]
  omega

theorem unsent_idle (sendable : Sendable tx) (idle : tx.txBytes = 0) : unsent tx = [] := by
  rw [unsent_sent sendable.toSending idle, sendable.idle idle, framed_nil]

theorem ipcClientPopTxMessage_spec (sending : Sending tx) (sent : tx.txBytes = 0) :
    Sendable (ipcClientPopTxMessage tx) ∧ unsent (ipcClientPopTxMessage tx) = unsent tx := by
  rw [unsent_sent sending sent]
  unfold ipcClientPopTxMessage
  cases isQueue : tx.txQueue with
  | nil =>
    dsimp only
    have emptied : Sendable { tx with txData := [], txBytes := 0 } :=
      { fits := sending.fits
        isData := Nat.zero_le _
        pending := fun pending => absurd pending (Nat.lt_irrefl 0)
        counted := Nat.zero_le _
        queue := sending.queue
        idle := fun _ => isQueue }
    refine ⟨by rw [isQueue] at emptied; exact emptied, ?_⟩
    have nothing := unsent_idle emptied rfl
    rw [isQueue] at nothing
    exact nothing
  | cons message rest =>
    have fits := sending.queue message (by rw [isQueue]; simp)
    have total : add32 headerSize message.size = headerSize + message.size :=
      add32_eq (by rw [Nat.add_comm]; exact fits.2)
    dsimp only
    rw [total]
    constructor
    · constructor
      · exact
          { fits := by rw [Nat.add_comm]; exact fits.2
            isData := fits.1.ge
            pending := fun _ => fits.1.symm
            counted := Nat.le_refl _
            queue := fun other member =>
              sending.queue other (by rw [isQueue]; exact mem_cons_of_mem _ member) }
      · intro empty
        exact absurd (Nat.eq_zero_of_add_eq_zero_right empty) (by decide)
    · rw [unsent]
      dsimp only
      rw [Nat.sub_self, drop_zero, framed_cons]
      rfl

/-- What sending does to a stream and to what is left. -/
structure Moves (stream : Stream) (before : Bytes) (ret : Bool) (tx' : Outgoing)
    (stream' : Stream) : Prop where
  sendable : Sendable tx'
  bytes : ∃ tail, stream'.bytes ++ tail = stream.bytes ++ before ∧ (ret = true → tail = unsent tx')
  closed : stream'.closed = stream.closed
  succeeded : ret = true → stream'.broken = stream.broken
  failed : ret = false → stream'.broken = true
  gone : stream.broken = true → stream'.bytes = stream.bytes

/-- The rest of the message that is being sent. -/
def remaining (tx : Outgoing) : Bytes :=
  (headerBytes tx.txCode tx.txSize ++ tx.txData).drop (headerSize + tx.txSize - tx.txBytes)

theorem moves_part {chunk : Bytes} (sending : Sending tx) (isFirst : chunk <+: remaining tx)
    (short : chunk.length ≤ tx.txBytes) (writes : Writes stream chunk written) :
    Sending { tx with txBytes := sub32 tx.txBytes written.sizeSent } ∧
      sub32 tx.txBytes written.sizeSent = tx.txBytes - written.sizeSent ∧
      written.stream.bytes ++ unsent { tx with txBytes := sub32 tx.txBytes written.sizeSent } =
        stream.bytes ++ unsent tx := by
  have inside := writes.inside
  have counted := sending.counted
  have fits := sending.fits
  have isLeft : sub32 tx.txBytes written.sizeSent = tx.txBytes - written.sizeSent :=
    sub32_eq (by omega) (by omega)
  rw [isLeft]
  refine ⟨?_, rfl, ?_⟩
  · exact
      { fits := fits
        isData := sending.isData
        pending := fun pending =>
          sending.pending (Nat.lt_of_lt_of_le pending (Nat.sub_le _ _))
        counted := (Nat.sub_le _ _).trans counted
        queue := sending.queue }
  · have front : chunk.take written.sizeSent = (remaining tx).take written.sizeSent := by
      obtain ⟨rest, isRest⟩ := isFirst
      rw [← isRest, take_append_of_le_length inside]
    have place : headerSize + tx.txSize - (tx.txBytes - written.sizeSent) =
        headerSize + tx.txSize - tx.txBytes + written.sizeSent := by omega
    rw [unsent, unsent]
    dsimp only
    rw [place, ← drop_drop, writes.bytes, front, append_assoc,
      ← append_assoc (List.take _ _), remaining, take_append_drop]

theorem clientWriteLoop_spec {fuel : Nat} (sending : Sending tx) (isData : tx.txBytes ≤ tx.txSize)
    (enough : tx.txBytes < fuel) (script : List WriteResult) (stream : Stream) :
    ∃ ret tx' stream', clientWriteLoop fuel tx stream script = some (ret, tx', stream') ∧
      Moves stream (unsent tx) ret tx' stream' := by
  induction fuel generalizing tx script stream with
  | zero => exact absurd enough (Nat.not_lt_zero _)
  | succ fuel ih =>
    rw [clientWriteLoop]
    by_cases sent : tx.txBytes = 0
    · rw [if_pos sent]
      obtain ⟨sendable, same⟩ := ipcClientPopTxMessage_spec sending sent
      exact ⟨_, _, _, rfl, sendable, ⟨_, by rw [← same], fun _ => rfl⟩, rfl, fun _ => rfl, nofun,
        fun _ => rfl⟩
    · rw [if_neg sent]
      have length := sending.pending (Nat.pos_of_ne_zero sent)
      have fits := sending.fits
      have isRemaining : (tx.txData.drop (sub32 tx.txSize tx.txBytes)).take tx.txBytes =
          remaining tx := by
        have place : headerSize + tx.txSize - tx.txBytes =
            headerSize + (tx.txSize - tx.txBytes) := by omega
        rw [sub32_eq isData (by omega), remaining, place, ← length_headerBytes tx.txCode tx.txSize,
          drop_length_add_append, take_of_length_le]
        rw [length_drop]
        omega
      have short : (remaining tx).length ≤ tx.txBytes := by
        rw [← isRemaining]
        exact length_take_le _ _
      rw [isRemaining]
      have writes := ipcWriteData_spec script (remaining tx) stream
      generalize ipcWriteData script (remaining tx) stream = written at writes ⊢
      obtain ⟨sending', isLeft, same⟩ :=
        moves_part sending (prefix_refl _) short writes
      have waiting : Sendable tx := ⟨sending, fun idle => absurd idle sent⟩
      dsimp only
      by_cases isFailed : written.ret = false
      · rw [if_pos isFailed]
        exact ⟨_, _, _, rfl, waiting, ⟨_, same, nofun⟩, writes.closed, nofun,
          fun _ => writes.failed isFailed, bytes_gone writes⟩
      · rw [if_neg isFailed]
        have succeeded := writes.succeeded (Bool.eq_true_of_not_eq_false isFailed)
        by_cases nothing : written.sizeSent = 0
        · rw [if_pos nothing]
          have unchanged : { tx with txBytes := sub32 tx.txBytes written.sizeSent } = tx := by
            rw [isLeft, nothing, Nat.sub_zero]
          rw [unchanged] at same
          exact ⟨_, _, _, rfl, waiting, ⟨_, same, fun _ => rfl⟩, writes.closed,
            fun _ => succeeded, nofun, bytes_gone writes⟩
        · rw [if_neg nothing]
          obtain ⟨ret, tx', stream', isLoop, moves⟩ := ih sending'
            (by dsimp only; omega) (by dsimp only; omega) written.script written.stream
          refine ⟨ret, tx', stream', isLoop, moves.sendable, ?_, moves.closed.trans writes.closed,
            fun ret => (moves.succeeded ret).trans succeeded, moves.failed,
            fun isBroken => (moves.gone (broken_kept writes isBroken)).trans
              (bytes_gone writes isBroken)⟩
          obtain ⟨tail, isTail, exact⟩ := moves.bytes
          exact ⟨tail, isTail.trans same, exact⟩

theorem ipcClientWrite_spec (sendable : Sendable tx) (script : List WriteResult) (stream : Stream) :
    ∃ ret tx' stream', ipcClientWrite tx stream script = some (ret, tx', stream') ∧
      Moves stream (unsent tx) ret tx' stream' := by
  unfold ipcClientWrite
  by_cases isHeader : tx.txSize < tx.txBytes
  · rw [if_pos isHeader]
    have counted := sendable.counted
    have fits := sendable.fits
    have size : sub32 tx.txBytes tx.txSize = tx.txBytes - tx.txSize :=
      sub32_eq isHeader.le (by omega)
    have offset : sub32 headerSize (tx.txBytes - tx.txSize) =
        headerSize + tx.txSize - tx.txBytes := by
      rw [sub32_eq (by omega) (by decide)]
      omega
    dsimp only
    rw [size, offset]
    have isFirst : ((headerBytes tx.txCode tx.txSize).drop
        (headerSize + tx.txSize - tx.txBytes)).take (tx.txBytes - tx.txSize) <+: remaining tx := by
      have short : headerSize + tx.txSize - tx.txBytes ≤
          (headerBytes tx.txCode tx.txSize).length := by
        rw [length_headerBytes]
        omega
      rw [remaining, drop_append_of_le_length short]
      exact ( take_prefix _ _).trans (prefix_append _ _)
    have writes := ipcWriteData_spec script
      (((headerBytes tx.txCode tx.txSize).drop (headerSize + tx.txSize - tx.txBytes)).take
        (tx.txBytes - tx.txSize)) stream
    generalize ipcWriteData script _ stream = written at writes ⊢
    obtain ⟨sending', isLeft, same⟩ := moves_part sendable.toSending isFirst
      ((length_take_le _ _).trans (Nat.sub_le _ _)) writes
    by_cases isFailed : written.ret = false
    · rw [if_pos isFailed]
      exact ⟨_, _, _, rfl, sendable, ⟨_, same, nofun⟩, writes.closed, nofun,
        fun _ => writes.failed isFailed, bytes_gone writes⟩
    · rw [if_neg isFailed]
      have succeeded := writes.succeeded (Bool.eq_true_of_not_eq_false isFailed)
      by_cases stillHeader : tx.txSize < sub32 tx.txBytes written.sizeSent
      · rw [if_pos stillHeader]
        have waiting : Sendable { tx with txBytes := sub32 tx.txBytes written.sizeSent } :=
          ⟨sending', fun idle => absurd stillHeader (by dsimp only at idle; omega)⟩
        exact ⟨_, _, _, rfl, waiting, ⟨_, same, fun _ => rfl⟩, writes.closed,
          fun _ => succeeded, nofun, bytes_gone writes⟩
      · rw [if_neg stillHeader]
        obtain ⟨ret, tx', stream', isLoop, moves⟩ := clientWriteLoop_spec sending'
          (Nat.not_lt.mp stillHeader) (Nat.lt_succ_self _) written.script written.stream
        refine ⟨ret, tx', stream', isLoop, moves.sendable, ?_, moves.closed.trans writes.closed,
          fun ret => (moves.succeeded ret).trans succeeded, moves.failed,
              fun isBroken => (moves.gone (broken_kept writes isBroken)).trans
                (bytes_gone writes isBroken)⟩
        obtain ⟨tail, isTail, exact⟩ := moves.bytes
        exact ⟨tail, isTail.trans same, exact⟩
  · rw [if_neg isHeader]
    exact clientWriteLoop_spec sendable.toSending (Nat.not_lt.mp isHeader) (Nat.lt_succ_self _)
      script stream

theorem ipcWriteData_succeeds (data : Bytes) (safe : Safe stream script) :
    ¬(ipcWriteData script data stream).ret = false := by
  rw [(ipcWriteData_safe data safe).1]
  exact Bool.noConfusion

theorem clientWriteLoop_safe {fuel : Nat} {ret : Bool} (safe : Safe stream script)
    (isLoop : clientWriteLoop fuel tx stream script = some (ret, tx', stream')) : ret = true := by
  induction fuel generalizing tx stream script with
  | zero => cases isLoop
  | succ fuel ih =>
    rw [clientWriteLoop] at isLoop
    dsimp only at isLoop
    split_ifs at isLoop with sent isFailed nothing
    · exact (Prod.mk.inj (Option.some.inj isLoop)).1.symm
    · exact absurd isFailed (ipcWriteData_succeeds _ safe)
    · exact (Prod.mk.inj (Option.some.inj isLoop)).1.symm
    · exact ih (ipcWriteData_safe _ safe).2 isLoop

theorem ipcClientWrite_safe {ret : Bool} (safe : Safe stream script)
    (isWrite : ipcClientWrite tx stream script = some (ret, tx', stream')) : ret = true := by
  unfold ipcClientWrite at isWrite
  dsimp only at isWrite
  split_ifs at isWrite with isHeader isFailed stillHeader
  · exact absurd isFailed (ipcWriteData_succeeds _ safe)
  · exact (Prod.mk.inj (Option.some.inj isWrite)).1.symm
  · exact clientWriteLoop_safe (ipcWriteData_safe _ safe).2 isWrite
  · exact clientWriteLoop_safe safe isWrite

/-! ## Sending a message -/

variable {client : ZbxIpcClient}

theorem zbxIpcClientSend_spec (sendable : Sendable client.tx) (fits : Fits message)
    (stream : Stream) (script : List WriteResult) :
    let (ret, after, stream') := zbxIpcClientSend client message stream script
    Moves stream (unsent client.tx ++ encode message) ret after.tx stream' ∧
      after = { client with tx := after.tx, txAdded := after.txAdded } := by
  unfold zbxIpcClientSend
  dsimp only
  by_cases busy : client.tx.txBytes ≠ 0
  · rw [if_pos busy]
    refine ⟨⟨⟨?_, fun idle => absurd idle busy⟩, ?_, rfl, fun _ => rfl, nofun, fun _ => rfl⟩, rfl⟩
    · exact
        { fits := sendable.fits
          isData := sendable.isData
          pending := sendable.pending
          counted := sendable.counted
          queue := fun other member => by
            rcases mem_append.mp member with earlier | last
            · exact sendable.queue other earlier
            · rw [mem_singleton.mp last]
              exact fits }
    · refine ⟨_, rfl, fun _ => ?_⟩
      rw [unsent, unsent, framed_concat, append_assoc]
  · rw [if_neg busy]
    push Not at busy
    have idle := unsent_idle sendable busy
    have writes := ipcSocketWriteMessage_spec fits script stream
    generalize ipcSocketWriteMessage message script stream = written at writes ⊢
    have inside := writes.inside
    have bounded := fits.2
    have same : written.stream.bytes ++ (encode message).drop written.sizeSent =
        stream.bytes ++ (unsent client.tx ++ encode message) := by
      rw [idle, nil_append, writes.bytes, append_assoc, take_append_drop]
    have total : add32 headerSize message.size = headerSize + message.size :=
      add32_eq (by omega)
    rw [length_encode, ← fits.1] at inside
    rw [total]
    by_cases isFailed : written.ret = false
    · rw [if_pos isFailed]
      exact ⟨⟨sendable, ⟨_, same, nofun⟩, writes.closed, nofun, fun _ => writes.failed isFailed,
        bytes_gone writes⟩, rfl⟩
    · rw [if_neg isFailed]
      have succeeded := writes.succeeded (Bool.eq_true_of_not_eq_false isFailed)
      by_cases isPart : written.sizeSent ≠ headerSize + message.size
      · rw [if_pos isPart]
        have left : sub32 (headerSize + message.size) written.sizeSent =
            headerSize + message.size - written.sizeSent := sub32_eq inside (by omega)
        rw [left]
        refine ⟨⟨⟨?_, fun sent => ?_⟩, ?_, writes.closed, fun _ => succeeded, nofun,
          bytes_gone writes⟩, rfl⟩
        · exact
            { fits := by dsimp only; omega
              isData := fits.1.ge
              pending := fun _ => fits.1.symm
              counted := Nat.sub_le _ _
              queue := sendable.queue }
        · dsimp only at sent
          omega
        · refine ⟨_, same, fun _ => ?_⟩
          rw [unsent]
          dsimp only
          rw [sendable.idle busy, framed_nil, append_nil, Nat.sub_sub_self inside]
          rfl
      · rw [if_neg isPart]
        push Not at isPart
        refine ⟨⟨sendable, ⟨_, same, fun _ => ?_⟩, writes.closed, fun _ => succeeded, nofun,
          bytes_gone writes⟩, rfl⟩
        rw [idle, isPart, fits.1, ← length_encode, drop_length]

theorem zbxIpcSocketWrite_spec (fits : Fits message) (stream : Stream)
    (script : List WriteResult) :
    let (ret, stream') := zbxIpcSocketWrite message stream script
    (∃ tail, stream'.bytes ++ tail = stream.bytes ++ encode message ∧ (ret = true → tail = [])) ∧
      stream'.closed = stream.closed ∧ (ret = true → stream'.broken = stream.broken) ∧
      (stream.broken = true → stream'.bytes = stream.bytes ∧ stream'.broken = true) := by
  have writes := ipcSocketWriteMessage_spec fits script stream
  have bounded := fits.2
  unfold zbxIpcSocketWrite
  dsimp only
  generalize ipcSocketWriteMessage message script stream = written at writes ⊢
  rw [add32_eq bounded, Bool.and_eq_true, beq_iff_eq]
  refine ⟨⟨(encode message).drop written.sizeSent, ?_, ?_⟩, writes.closed,
    fun succeeded => writes.succeeded succeeded.1,
    fun isBroken => ⟨bytes_gone writes isBroken, broken_kept writes isBroken⟩⟩
  · rw [writes.bytes, append_assoc, take_append_drop]
  · rintro ⟨-, all⟩
    rw [all, fits.1, Nat.add_comm, ← length_encode, drop_length]

end Zabbix.Ipc.Sending
