import Zabbix.Ipc.Socket

/-!
# Assembling messages

The receiving half of an IPC socket.  The bytes of an incomplete message are in
its header and its data, more bytes may be in the socket's buffer; a read takes
bytes from the stream and loses none of them.  A message shorter than 4 GB with
its header is pushed exactly when its last byte has come.
-/

namespace Zabbix.Ipc.Assembly

open Library.ByteReader Library.Framing Socket List

/-! ## The encoding of a message -/

/-- The size of a message is that of its data. -/
def WellFormed (message : ZbxIpcMessage) : Prop :=
  message.size = message.data.length ∧ message.size < uint32Bound

/-- The size of a message with its header can be expressed. -/
def Fits (message : ZbxIpcMessage) : Prop :=
  message.size = message.data.length ∧ message.size + headerSize < uint32Bound

variable {message : ZbxIpcMessage} {header data buffer : Bytes} {rxBytes : Nat}

theorem wellFormed_of_fits (fits : Fits message) : WellFormed message :=
  ⟨fits.1, Nat.lt_of_le_of_lt (Nat.le_add_right _ _) fits.2⟩

@[simp]
theorem length_headerBytes (code : UInt32) (size : Nat) :
    (headerBytes code size).length = headerSize := by
  rw [headerBytes, length_append, length_littleEndian, length_littleEndian, headerSize]

@[simp]
theorem messageCode_headerBytes (code : UInt32) (size : Nat) :
    messageCode (headerBytes code size) = code := by
  have bounded := code.toNat_lt
  rw [messageCode, headerBytes, take_left' (length_littleEndian _ _),
    ofLittleEndian_littleEndian (by omega), UInt32.ofNat_toNat]

theorem messageSize_headerBytes (code : UInt32) {size : Nat} (bounded : size < uint32Bound) :
    messageSize (headerBytes code size) = size := by
  rw [uint32Bound] at bounded
  rw [messageSize, headerBytes, drop_left' (length_littleEndian _ _),
    ofLittleEndian_littleEndian (by omega)]

theorem messageSize_lt (isHeader : header.length = headerSize) :
    messageSize header < uint32Bound := by
  have bounded := ofLittleEndian_lt (header.drop 4)
  rw [length_drop, isHeader] at bounded
  exact bounded

theorem headerBytes_words (isHeader : header.length = headerSize) :
    headerBytes (messageCode header) (messageSize header) = header := by
  have front : (header.take 4).length = 4 := by
    rw [length_take, isHeader, headerSize]
    rfl
  have back : (header.drop 4).length = 4 := by
    rw [length_drop, isHeader, headerSize]
  have codeBounded := ofLittleEndian_lt (header.take 4)
  rw [front] at codeBounded
  rw [headerBytes, messageCode, messageSize, UInt32.toNat_ofNat',
    Nat.mod_eq_of_lt (show ofLittleEndian (header.take 4) < 2 ^ 32 by omega)]
  have first := littleEndian_ofLittleEndian (header.take 4)
  have second := littleEndian_ofLittleEndian (header.drop 4)
  rw [front] at first
  rw [back] at second
  rw [first, second, take_append_drop]

theorem length_encode (message : ZbxIpcMessage) :
    (encode message).length = headerSize + message.data.length := by
  rw [encode, length_append, length_headerBytes]

theorem selfDelimiting : SelfDelimiting encode WellFormed where
  nonempty message _ empty := by
    have length := length_encode message
    rw [empty, headerSize, length_nil] at length
    omega
  unique := by
    rintro ⟨code, size, data⟩ ⟨code', size', data'⟩ before after ⟨exact, bounded⟩
      ⟨exact', bounded'⟩ same
    dsimp only at exact exact' bounded bounded'
    rw [encode, encode, append_assoc, append_assoc] at same
    obtain ⟨headers, rest⟩ := append_inj same (by simp)
    dsimp only at headers rest
    have codes := congrArg messageCode headers
    have sizes := congrArg messageSize headers
    rw [messageCode_headerBytes, messageCode_headerBytes] at codes
    rw [messageSize_headerBytes code bounded, messageSize_headerBytes code' bounded'] at sizes
    have datas := (append_inj rest (exact.symm.trans (sizes.trans exact'))).1
    rw [codes, sizes, datas]

/-! ## The state of a message -/

/-- The bytes of a message that have come. -/
def assembledBytes (header data : Bytes) (rxBytes : Nat) : Bytes :=
  header.take rxBytes ++ data.take (rxBytes - headerSize)

/-- A message is not complete yet. -/
structure Assembling (header data : Bytes) (rxBytes : Nat) : Prop where
  isHeader : header.length = headerSize
  incomplete :
    headerSize ≤ rxBytes →
      messageSize header + headerSize < uint32Bound ∧
        rxBytes < messageSize header + headerSize ∧ data.length = messageSize header

/-- A message has just been completed. -/
structure Completed (header data : Bytes) (rxBytes : Nat) : Prop where
  isHeader : header.length = headerSize
  fits : messageSize header + headerSize < uint32Bound
  exact : rxBytes = messageSize header + headerSize
  isData : data.length = messageSize header

/-- A stream does not begin with the header of a message that is too long. -/
def HeaderFits (bytes : Bytes) : Prop :=
  headerSize ≤ bytes.length → messageSize (bytes.take headerSize) + headerSize < uint32Bound

theorem length_assembledBytes (assembling : Assembling header data rxBytes) :
    (assembledBytes header data rxBytes).length = rxBytes := by
  have incomplete := assembling.incomplete
  rw [assembledBytes, length_append, length_take, length_take, assembling.isHeader]
  omega

theorem headerFits_of_streams {bytes : Bytes} (streams : Streams encode Fits bytes) :
    HeaderFits bytes := by
  intro long
  obtain ⟨messages, allFit, rest, same⟩ := streams
  cases messages with
  | nil =>
    rw [(append_eq_nil_iff.mp same).1, headerSize, length_nil] at long
    omega
  | cons first others =>
    have fits := allFit first (by simp)
    have headers := congrArg (List.take headerSize) same
    rw [take_append_of_le_length long, framed_cons, encode, append_assoc,
      take_left' (length_headerBytes _ _)] at headers
    rw [headers, messageSize_headerBytes _ (wellFormed_of_fits fits).2]
    exact fits.2

/-- What is left of an incomplete message is not a message. -/
theorem unfinished_assembling (assembling : Assembling header data rxBytes) :
    Unfinished encode WellFormed (assembledBytes header data rxBytes) := by
  rintro message ⟨exact, bounded⟩ ⟨rest, same⟩
  have lengths := congrArg List.length same
  rw [length_append, length_encode, length_assembledBytes assembling] at lengths
  have long : headerSize ≤ rxBytes := by omega
  obtain ⟨-, incomplete, -⟩ := assembling.incomplete long
  have headers := congrArg (List.take headerSize) same
  rw [encode, append_assoc, take_left' (length_headerBytes _ _), assembledBytes,
    take_of_length_le (assembling.isHeader.trans_le long),
    take_left' assembling.isHeader] at headers
  rw [← headers, messageSize_headerBytes _ bounded] at incomplete
  omega

/-! ## Reading from the socket's buffer -/

structure Parses (header data : Bytes) (rxBytes : Nat) (buffer : Bytes) (parsed : BufferRead) :
    Prop where
  inside : parsed.readSize ≤ buffer.length
  bytes :
    assembledBytes parsed.header parsed.data (rxBytes + parsed.readSize) =
      assembledBytes header data rxBytes ++ buffer.take parsed.readSize
  succeeded :
    parsed.ret = true → Completed parsed.header parsed.data (rxBytes + parsed.readSize)
  failed :
    parsed.ret = false →
      parsed.readSize = buffer.length ∧
        Assembling parsed.header parsed.data (rxBytes + parsed.readSize)

theorem readBufferData_spec {dataOffset readSize : Nat} (isHeader : header.length = headerSize)
    (fits : messageSize header + headerSize < uint32Bound)
    (isData : data.length = messageSize header) (counted : rxBytes + readSize = headerSize + dataOffset)
    (incomplete : dataOffset ≤ messageSize header) (inside : readSize ≤ buffer.length) :
    let parsed := readBufferData header data rxBytes dataOffset buffer readSize
    parsed.readSize ≤ buffer.length ∧
      assembledBytes parsed.header parsed.data (rxBytes + parsed.readSize) =
        header ++ data.take dataOffset ++ (buffer.drop readSize).take (parsed.readSize - readSize) ∧
      readSize ≤ parsed.readSize ∧
      (parsed.ret = true → Completed parsed.header parsed.data (rxBytes + parsed.readSize)) ∧
      (parsed.ret = false → parsed.readSize = buffer.length ∧
        Assembling parsed.header parsed.data (rxBytes + parsed.readSize)) := by
  have bounded := messageSize_lt isHeader
  unfold readBufferData
  dsimp only
  rw [sub32_eq incomplete bounded]
  generalize isSize : min (messageSize header - dataOffset) (buffer.length - readSize) = copySize
  have source : ((buffer.drop readSize).take copySize).length = copySize := by
    rw [length_take, length_drop]
    omega
  have length : (memcpyAt data dataOffset ((buffer.drop readSize).take copySize)).length =
      messageSize header := by
    rw [length_memcpyAt (by omega), isData]
  have exactly : add32 rxBytes (readSize + copySize) = rxBytes + (readSize + copySize) :=
    add32_eq (by omega)
  rw [exactly, add32_eq fits, decide_eq_true_eq, decide_eq_false_iff_not]
  refine ⟨by omega, ?_, by omega, ?_, ?_⟩
  · have place : rxBytes + (readSize + copySize) - headerSize =
        dataOffset + ((buffer.drop readSize).take copySize).length := by omega
    rw [assembledBytes, take_of_length_le (by omega), place,
      take_memcpyAt (incomplete.trans_eq isData.symm), Nat.add_sub_cancel_left, append_assoc]
  · intro isComplete
    exact ⟨isHeader, fits, isComplete, length⟩
  · intro isIncomplete
    refine ⟨by omega, isHeader, fun _ => ⟨fits, by omega, length⟩⟩

theorem assembledBytes_short (short : rxBytes ≤ headerSize) :
    assembledBytes header data rxBytes = header.take rxBytes := by
  rw [assembledBytes, Nat.sub_eq_zero_of_le short, take_zero, append_nil]

theorem header_memcpyAt {copySize : Nat} (isHeader : header.length = headerSize)
    (inside : copySize ≤ buffer.length) (fits : rxBytes + copySize ≤ headerSize) :
    let copied := memcpyAt header rxBytes (buffer.take copySize)
    copied.length = headerSize ∧
      copied.take (rxBytes + copySize) =
        assembledBytes header data rxBytes ++ buffer.take copySize := by
  have source : (buffer.take copySize).length = copySize := length_take_of_le inside
  constructor
  · rw [length_memcpyAt (by omega), isHeader]
  · have copied := @take_memcpyAt header (buffer.take copySize) rxBytes (by omega)
    rwa [source, ← @assembledBytes_short header data rxBytes (by omega)] at copied

theorem ipcReadBuffer_spec (assembling : Assembling header data rxBytes)
    (fits : HeaderFits (assembledBytes header data rxBytes ++ buffer)) :
    Parses header data rxBytes buffer (ipcReadBuffer header data rxBytes buffer) := by
  unfold ipcReadBuffer
  by_cases short : rxBytes < headerSize
  · rw [if_pos short]
    dsimp only
    generalize isSize : min (headerSize - rxBytes) buffer.length = copySize
    obtain ⟨isHeader, copied⟩ := @header_memcpyAt header data buffer rxBytes copySize
      assembling.isHeader (by omega) (by omega)
    generalize memcpyAt header rxBytes (buffer.take copySize) = next at isHeader copied ⊢
    by_cases stillShort : rxBytes + copySize < headerSize
    · rw [if_pos stillShort]
      constructor
      · show copySize ≤ buffer.length
        omega
      · show assembledBytes next data (rxBytes + copySize) = _
        rw [assembledBytes_short stillShort.le, copied]
      · intro succeeded
        cases succeeded
      · intro _
        refine ⟨show copySize = buffer.length by omega, isHeader, fun long => ?_⟩
        exact absurd long (Nat.not_le.mpr stillShort)
    · have full : rxBytes + copySize = headerSize := by omega
      have whole : next = assembledBytes header data rxBytes ++ buffer.take copySize := by
        rw [← copied, take_of_length_le (by omega)]
      have nextFits : messageSize next + headerSize < uint32Bound := by
        have front : (assembledBytes header data rxBytes ++ buffer).take headerSize = next := by
          rw [take_append, length_assembledBytes assembling, ← full, Nat.add_sub_cancel_left,
            whole, take_of_length_le]
          rw [length_assembledBytes assembling]
          omega
        rw [← front]
        apply fits
        rw [length_append, length_assembledBytes assembling]
        omega
      rw [if_neg stillShort]
      by_cases empty : messageSize next = 0
      · rw [if_pos empty]
        constructor
        · show copySize ≤ buffer.length
          omega
        · show assembledBytes next [] (rxBytes + copySize) = _
          rw [assembledBytes_short full.le, copied]
        · intro _
          exact ⟨isHeader, nextFits, by rw [empty, Nat.zero_add]; exact full, empty.symm⟩
        · intro failed
          cases failed
      · rw [if_neg empty]
        obtain ⟨inside, bytes, grown, succeeded, failed⟩ := @readBufferData_spec next
          (replicate (messageSize next) 0) buffer rxBytes 0 copySize isHeader nextFits
          length_replicate full (Nat.zero_le _) (by omega)
        generalize readBufferData next _ rxBytes 0 buffer copySize = parsed at *
        have tail : buffer.take parsed.readSize =
            buffer.take copySize ++ (buffer.drop copySize).take (parsed.readSize - copySize) := by
          rw [← take_add, Nat.add_sub_cancel' grown]
        refine ⟨inside, ?_, succeeded, failed⟩
        rw [bytes, take_zero, append_nil, tail, ← append_assoc, ← whole]
  · rw [if_neg short]
    have long : headerSize ≤ rxBytes := Nat.not_lt.mp short
    obtain ⟨isFitting, incomplete, isData⟩ := assembling.incomplete long
    obtain ⟨inside, bytes, -, succeeded, failed⟩ := @readBufferData_spec header data buffer rxBytes
      (rxBytes - headerSize) 0 assembling.isHeader isFitting isData (by omega) (by omega) (by omega)
    refine ⟨inside, ?_, succeeded, failed⟩
    rw [bytes, drop_zero, Nat.sub_zero, assembledBytes,
      take_of_length_le (assembling.isHeader.trans_le long)]

/-! ## Reading from the stream -/

/-- Some bytes are taken from the front of a stream. -/
structure Takes (stream : Stream) (bytes : Bytes) (after : Stream) : Prop where
  bytes : bytes ++ after.bytes = stream.bytes
  closed : after.closed = stream.closed
  broken : after.broken = stream.broken

variable {stream middle after : Stream} {script : List ReadResult} {size : Nat}

theorem takes_nothing (stream : Stream) : Takes stream [] stream :=
  ⟨rfl, rfl, rfl⟩

theorem takes_append {first second : Bytes} (left : Takes stream first middle)
    (right : Takes middle second after) : Takes stream (first ++ second) after := by
  refine ⟨?_, right.closed.trans left.closed, right.broken.trans left.broken⟩
  rw [append_assoc, right.bytes, left.bytes]

theorem ipcReadData_spec (size : Nat) (script : List ReadResult) (stream : Stream) :
    let read := ipcReadData size script stream
    Takes stream read.bytes read.stream ∧ read.bytes.length ≤ size ∧
      (read.ret = false → read.bytes = []) := by
  fun_induction ipcReadData size script stream with
  | case1 stream => exact ⟨takes_nothing stream, Nat.zero_le _, fun _ => rfl⟩
  | case2 script stream ih => exact ih
  | case3 script stream => exact ⟨takes_nothing stream, Nat.zero_le _, fun _ => rfl⟩
  | case4 script stream => exact ⟨takes_nothing stream, Nat.zero_le _, fun _ => rfl⟩
  | case5 count script stream _ => exact ⟨takes_nothing stream, Nat.zero_le _, fun _ => rfl⟩
  | case6 count script stream nonempty length =>
    refine ⟨⟨take_append_drop _ _, rfl, rfl⟩, ?_, fun failed => nomatch failed⟩
    show (stream.bytes.take length).length ≤ size
    exact (length_take_le _ _).trans (Nat.min_le_right _ _)

theorem readDataLoop_spec (fuel size : Nat) (script : List ReadResult) (stream : Stream) :
    let read := readDataLoop fuel size script stream
    Takes stream read.bytes read.stream ∧ read.bytes.length ≤ size ∧
      (read.ret = false → read.bytes.length < size) := by
  induction fuel generalizing size script stream with
  | zero => exact ⟨takes_nothing stream, Nat.zero_le _, fun failed => nomatch failed⟩
  | succ fuel ih =>
    rw [readDataLoop]
    by_cases finished : size = 0
    · rw [if_pos finished]
      exact ⟨takes_nothing stream, Nat.zero_le _, fun failed => nomatch failed⟩
    · rw [if_neg finished]
      obtain ⟨takes, inside, failed⟩ := ipcReadData_spec size script stream
      dsimp only
      split_ifs with last
      · refine ⟨takes, inside, fun isFailed => ?_⟩
        rw [failed isFailed]
        exact Nat.pos_of_ne_zero finished
      · generalize ipcReadData size script stream = chunk at *
        obtain ⟨takesRest, insideRest, failedRest⟩ :=
          ih (size - chunk.bytes.length) chunk.script chunk.stream
        refine ⟨takes_append takes takesRest, ?_, ?_⟩
        · rw [length_append]
          omega
        · intro isFailed
          have := failedRest isFailed
          rw [length_append]
          omega

/-- The loop never needs more turns than there are bytes to read. -/
theorem readDataLoop_fuel {fuel : Nat} (enough : size ≤ fuel) (script : List ReadResult)
    (stream : Stream) :
    readDataLoop (fuel + 1) size script stream = readDataLoop fuel size script stream := by
  induction fuel generalizing size script stream with
  | zero =>
    obtain rfl := Nat.le_zero.mp enough
    rfl
  | succ fuel ih =>
    rw [readDataLoop, readDataLoop]
    split_ifs with finished
    · rfl
    · dsimp only
      split_ifs with last
      · rfl
      · push Not at last
        have progress := length_pos_of_ne_nil last.2
        rw [ih (by omega)]

/-! ## Reading a message -/

/-- The bytes of a message that have come, at a receiver. -/
def assembled (rx : Incoming) : Bytes :=
  assembledBytes rx.rxHeader rx.rxData rx.rxBytes

def IsAssembling (rx : Incoming) : Prop :=
  Assembling rx.rxHeader rx.rxData rx.rxBytes

def IsCompleted (rx : Incoming) : Prop :=
  Completed rx.rxHeader rx.rxData rx.rxBytes

/-- All that a receiver has taken from the stream and not passed on. -/
def held (rx : Incoming) : Bytes :=
  assembled rx ++ rx.buffered

variable {rx : Incoming}

theorem parseBuffer_spec (assembling : IsAssembling rx) (fits : HeaderFits (held rx)) :
    let (ret, after) := parseBuffer rx
    held after = held rx ∧
      (ret = true → IsCompleted after) ∧
      (ret = false → IsAssembling after ∧ after.buffered = []) := by
  have parses := ipcReadBuffer_spec assembling fits
  unfold parseBuffer
  dsimp only
  generalize ipcReadBuffer rx.rxHeader rx.rxData rx.rxBytes rx.buffered = parsed at *
  have counted : add32 rx.rxBytes parsed.readSize = rx.rxBytes + parsed.readSize := by
    apply add32_eq
    cases isRet : parsed.ret with
    | true =>
      obtain ⟨-, bounded, exact, -⟩ := parses.succeeded isRet
      exact exact.trans_lt bounded
    | false =>
      obtain ⟨-, -, incomplete⟩ := parses.failed isRet
      by_cases long : headerSize ≤ rx.rxBytes + parsed.readSize
      · obtain ⟨bounded, below, -⟩ := incomplete long
        exact below.trans bounded
      · exact (Nat.not_le.mp long).trans (by decide)
  refine ⟨?_, ?_, ?_⟩
  · have rest : rx.rxBuffer.drop (rx.rxBufferOffset + parsed.readSize) =
        rx.buffered.drop parsed.readSize := by
      rw [Incoming.buffered, drop_drop]
    rw [held, assembled, Incoming.buffered]
    dsimp only
    rw [counted, parses.bytes, rest, append_assoc, take_append_drop]
    rfl
  · intro succeeded
    rw [IsCompleted]
    dsimp only
    rw [counted]
    exact parses.succeeded succeeded
  · intro failed
    obtain ⟨all, stillAssembling⟩ := parses.failed failed
    constructor
    · rw [IsAssembling]
      dsimp only
      rw [counted]
      exact stillAssembling
    · have all' := all
      rw [Incoming.buffered, length_drop] at all'
      rw [Incoming.buffered]
      apply drop_eq_nil_of_le
      dsimp only
      omega

theorem headerFits_left {front back : Bytes} (fits : HeaderFits (front ++ back)) :
    HeaderFits front := by
  intro long
  rw [← take_append_of_le_length long]
  apply fits
  rw [length_append]
  exact long.trans (Nat.le_add_right _ _)

structure ReadsOn (rx : Incoming) (stream : Stream) (read : MessageRead) : Prop where
  kept : held read.rx ++ read.stream.bytes = held rx ++ stream.bytes
  closed : read.stream.closed = stream.closed
  broken : read.stream.broken = stream.broken
  outcome :
    (read.ret = true ∧ IsCompleted read.rx) ∨ (IsAssembling read.rx ∧ read.rx.buffered = [])

/-- The socket's buffer after it has been emptied. -/
def emptyBuffer (rx : Incoming) : Incoming :=
  { rx with rxBuffer := [], rxBufferOffset := 0 }

theorem readDirect_spec {direct : Read} (assembling : IsAssembling rx) (empty : rx.buffered = [])
    (long : headerSize < rx.rxBytes) (takes : Takes stream direct.bytes direct.stream)
    (inside : direct.bytes.length ≤ messageSize rx.rxHeader - (rx.rxBytes - headerSize))
    (failed : direct.ret = false →
      direct.bytes.length < messageSize rx.rxHeader - (rx.rxBytes - headerSize)) :
    ReadsOn rx stream ⟨direct.ret,
      { emptyBuffer rx with
        rxData := memcpyAt rx.rxData (rx.rxBytes - headerSize) direct.bytes
        rxBytes := add32 rx.rxBytes direct.bytes.length },
      direct.stream, direct.script⟩ := by
  obtain ⟨isHeader, incomplete⟩ := assembling
  obtain ⟨fits, below, isData⟩ := incomplete long.le
  have counted : add32 rx.rxBytes direct.bytes.length = rx.rxBytes + direct.bytes.length :=
    add32_eq (by omega)
  have length : (memcpyAt rx.rxData (rx.rxBytes - headerSize) direct.bytes).length =
      messageSize rx.rxHeader := by
    rw [length_memcpyAt (by omega), isData]
  have place : rx.rxBytes + direct.bytes.length - headerSize =
      rx.rxBytes - headerSize + direct.bytes.length := by omega
  constructor
  · rw [held, held, empty, append_nil, assembled, assembled, Incoming.buffered]
    dsimp only [emptyBuffer]
    have whole : ∀ count, rx.rxBytes ≤ count → rx.rxHeader.take count = rx.rxHeader :=
      fun count enough => take_of_length_le (by omega)
    rw [counted, assembledBytes, assembledBytes, place, take_memcpyAt (by omega),
      whole _ (Nat.le_add_right _ _), whole _ (Nat.le_refl _), drop_zero,
      append_nil, append_assoc, append_assoc, takes.bytes, append_assoc]
  · exact takes.closed
  · exact takes.broken
  · dsimp only [emptyBuffer, IsCompleted, IsAssembling]
    rw [counted]
    by_cases complete : rx.rxBytes + direct.bytes.length = messageSize rx.rxHeader + headerSize
    · left
      constructor
      · by_contra isFailed
        have := failed (Bool.eq_false_iff.mpr isFailed)
        omega
      · exact ⟨isHeader, fits, complete, length⟩
    · right
      exact ⟨⟨isHeader, fun _ => ⟨fits, by omega, length⟩⟩, rfl⟩

theorem readsOn_moved {moved : Incoming} {read : MessageRead}
    (same : held moved ++ middle.bytes = held rx ++ stream.bytes)
    (closed : middle.closed = stream.closed) (broken : middle.broken = stream.broken)
    (reads : ReadsOn moved middle read) : ReadsOn rx stream read :=
  ⟨reads.kept.trans same, reads.closed.trans closed, reads.broken.trans broken, reads.outcome⟩

theorem readMessageLoop_spec {fuel : Nat} (assembling : IsAssembling rx)
    (empty : rx.buffered = []) (fits : HeaderFits (held rx ++ stream.bytes))
    (enough : stream.bytes.length < fuel) (script : List ReadResult) :
    ∃ read, readMessageLoop fuel rx stream script = some read ∧ ReadsOn rx stream read := by
  induction fuel generalizing rx stream script with
  | zero => exact absurd enough (Nat.not_lt_zero _)
  | succ fuel ih =>
    have emptied : IsAssembling (emptyBuffer rx) := assembling
    unfold readMessageLoop
    dsimp only
    split_ifs with isLong isFailed nothing isParsed
    · obtain ⟨fits, below, -⟩ := assembling.incomplete isLong.1.le
      rw [sub32_eq (by omega) (messageSize_lt assembling.isHeader)]
      obtain ⟨takes, inside, failed⟩ := readDataLoop_spec _ _ script stream
      exact ⟨_, rfl, readDirect_spec assembling empty isLong.1 takes inside failed⟩
    all_goals
      obtain ⟨takes, -, failed⟩ := ipcReadData_spec socketBufferSize script stream
      generalize ipcReadData socketBufferSize script stream = chunk at *
      have loaded : held { emptyBuffer rx with rxBuffer := chunk.bytes } ++ chunk.stream.bytes =
          held rx ++ stream.bytes := by
        rw [← takes.bytes, held, held, empty, append_nil, append_assoc]
        rfl
    · rw [failed isFailed] at loaded
      exact ⟨_, rfl, loaded, takes.closed, takes.broken, Or.inr ⟨emptied, rfl⟩⟩
    · rw [nothing] at loaded
      exact ⟨_, rfl, loaded, takes.closed, takes.broken, Or.inr ⟨emptied, rfl⟩⟩
    all_goals
      have fitsLoaded := fits
      rw [← loaded] at fitsLoaded
      obtain ⟨kept, isDone, isNot⟩ := @parseBuffer_spec
        { emptyBuffer rx with rxBuffer := chunk.bytes } emptied (headerFits_left fitsLoaded)
    · exact ⟨_, rfl, readsOn_moved loaded takes.closed takes.broken
        ⟨congrArg (· ++ chunk.stream.bytes) kept, rfl, rfl, Or.inl ⟨rfl, isDone isParsed⟩⟩⟩
    · obtain ⟨stillAssembling, isEmpty⟩ := isNot (Bool.eq_false_iff.mpr isParsed)
      have moved := (congrArg (· ++ chunk.stream.bytes) kept).trans loaded
      have progress := length_pos_of_ne_nil nothing
      have lengths := congrArg List.length takes.bytes
      rw [length_append] at lengths
      obtain ⟨read, isRead, reads⟩ := ih stillAssembling isEmpty
        (by rw [moved]; exact fits) (by omega) chunk.script
      exact ⟨read, isRead, readsOn_moved moved takes.closed takes.broken reads⟩

theorem ipcSocketReadMessage_spec (assembling : IsAssembling rx)
    (fits : HeaderFits (held rx ++ stream.bytes)) (script : List ReadResult) :
    ∃ read, ipcSocketReadMessage rx stream script = some read ∧ ReadsOn rx stream read := by
  unfold ipcSocketReadMessage
  dsimp only
  split_ifs with filled isParsed
  · obtain ⟨kept, isDone, -⟩ := parseBuffer_spec assembling (headerFits_left fits)
    exact ⟨_, rfl, congrArg (· ++ stream.bytes) kept, rfl, rfl, Or.inl ⟨rfl, isDone isParsed⟩⟩
  · obtain ⟨kept, -, isNot⟩ := parseBuffer_spec assembling (headerFits_left fits)
    obtain ⟨stillAssembling, isEmpty⟩ := isNot (Bool.eq_false_iff.mpr isParsed)
    have moved := congrArg (· ++ stream.bytes) kept
    obtain ⟨read, isRead, reads⟩ := readMessageLoop_spec stillAssembling isEmpty
      (by rw [moved]; exact fits) (Nat.lt_succ_self _) script
    exact ⟨read, isRead, readsOn_moved moved rfl rfl reads⟩
  · have isEmpty : rx.buffered = [] := drop_eq_nil_of_le (Nat.not_lt.mp filled)
    exact readMessageLoop_spec assembling isEmpty fits (Nat.lt_succ_self _) script

end Zabbix.Ipc.Assembly
