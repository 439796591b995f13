import Zabbix.Library.Block
import Zabbix.Library.ByteReader
import Zabbix.Library.Framing

/-!
# Packets

The header of a packet: the text `ZBXD`, a byte of flags that is called the protocol
version, the length of the data and the length of the data before they were compressed.  The
two lengths have 4 bytes, and 8 bytes in a large packet.
-/

namespace Zabbix.Comms.Packets

open Library.ByteReader Library.Framing List

def zbxTcpProtocol : UInt8 := 0x01

def zbxTcpCompress : UInt8 := 0x02

def zbxTcpLarge : UInt8 := 0x04

def zbxMaxRecvDataSize : Nat := 2 ^ 30

def zbxMaxRecvLargeDataSize : Nat := 2 ^ 34

/-- A bit of the flags is set. -/
def hasFlag (flags flag : UInt8) : Bool :=
  flags &&& flag != 0

def zbxTcpHeaderData : Bytes := [0x5a, 0x42, 0x58, 0x44]

/-- The bytes of a length field. -/
def lengthWidth (version : UInt8) : Nat :=
  if hasFlag version zbxTcpLarge then 8 else 4

/-- The fields of a packet header. -/
structure Header where
  version : UInt8
  dataLen : Nat
  reserved : Nat
deriving DecidableEq

def Header.lengths (header : Header) : Bytes :=
  littleEndian (lengthWidth header.version) header.dataLen ++
    littleEndian (lengthWidth header.version) header.reserved

def Header.bytes (header : Header) : Bytes :=
  zbxTcpHeaderData ++ [header.version] ++ header.lengths

/-- The lengths can be expressed. -/
def Header.Fits (header : Header) : Prop :=
  header.dataLen < 256 ^ lengthWidth header.version ∧
    header.reserved < 256 ^ lengthWidth header.version

/-- A packet: a header and as many bytes as it says. -/
structure Packet where
  header : Header
  data : Bytes
deriving DecidableEq

def Packet.bytes (packet : Packet) : Bytes :=
  packet.header.bytes ++ packet.data

structure Packet.WellFormed (packet : Packet) : Prop where
  fits : packet.header.Fits
  exact : packet.data.length = packet.header.dataLen

/-! ## Reading a header -/

variable {header : Header} {packet : Packet}

theorem length_lengths (header : Header) :
    header.lengths.length = 2 * lengthWidth header.version := by
  rw [Header.lengths, length_append, length_littleEndian, length_littleEndian, Nat.two_mul]

theorem length_headerBytes (header : Header) :
    header.bytes.length = 5 + 2 * lengthWidth header.version := by
  rw [Header.bytes, length_append, length_lengths]
  rfl

def Header.ofLengths (version : UInt8) (lengths : Bytes) : Header where
  version := version
  dataLen := ofLittleEndian (lengths.take (lengthWidth version))
  reserved := ofLittleEndian ((lengths.drop (lengthWidth version)).take (lengthWidth version))

theorem ofLengths_lengths (fits : header.Fits) (rest : Bytes) :
    Header.ofLengths header.version (header.lengths ++ rest) = header := by
  obtain ⟨version, dataLen, reserved⟩ := header
  rw [Header.ofLengths, Header.lengths]
  congr 1
  · rw [append_assoc, take_left' (length_littleEndian _ _)]
    exact ofLittleEndian_littleEndian fits.1
  · rw [append_assoc, drop_left' (length_littleEndian _ _),
      take_left' (length_littleEndian _ _)]
    exact ofLittleEndian_littleEndian fits.2

theorem lengths_ofLengths {version : UInt8} {lengths : Bytes}
    (enough : 2 * lengthWidth version ≤ lengths.length) :
    (Header.ofLengths version lengths).lengths = lengths.take (2 * lengthWidth version) ∧
      (Header.ofLengths version lengths).Fits := by
  have front : (lengths.take (lengthWidth version)).length = lengthWidth version := by
    rw [length_take]
    omega
  have back : ((lengths.drop (lengthWidth version)).take (lengthWidth version)).length =
      lengthWidth version := by
    rw [length_take, length_drop]
    omega
  have frontBytes := littleEndian_ofLittleEndian (lengths.take (lengthWidth version))
  have backBytes := littleEndian_ofLittleEndian
    ((lengths.drop (lengthWidth version)).take (lengthWidth version))
  have frontBound := ofLittleEndian_lt (lengths.take (lengthWidth version))
  have backBound := ofLittleEndian_lt
    ((lengths.drop (lengthWidth version)).take (lengthWidth version))
  rw [front] at frontBytes frontBound
  rw [back] at backBytes backBound
  refine ⟨?_, frontBound, backBound⟩
  change littleEndian (lengthWidth version) _ ++ littleEndian (lengthWidth version) _ = _
  rw [Header.ofLengths, frontBytes, backBytes, Nat.two_mul, take_add]

/-- The beginning of a stream determines the header of the packet there. -/
theorem header_unique {other : Header} (fits : header.Fits) (fitsOther : other.Fits)
    {before after : Bytes} (same : header.bytes ++ before = other.bytes ++ after) :
    header = other ∧ before = after := by
  simp only [Header.bytes, append_assoc, append_cancel_left_eq, singleton_append] at same
  have sameVersion : header.version = other.version := (List.cons.inj same).1
  have sameLengths : header.lengths ++ before = other.lengths ++ after := (List.cons.inj same).2
  have isHeader := ofLengths_lengths fits before
  rw [sameLengths, sameVersion, ofLengths_lengths fitsOther after] at isHeader
  subst isHeader
  exact ⟨rfl, append_cancel_left sameLengths⟩

theorem packet_selfDelimiting : SelfDelimiting Packet.bytes Packet.WellFormed where
  nonempty packet _ isEmpty := by
    have length := length_headerBytes packet.header
    rw [append_eq_nil_iff.mp isEmpty |>.1, length_nil] at length
    omega
  unique := by
    rintro ⟨header, data⟩ ⟨header', data'⟩ before after wellFormed wellFormed' same
    simp only [Packet.bytes, append_assoc] at same
    obtain ⟨sameHeader, sameData⟩ := header_unique wellFormed.fits wellFormed'.fits same
    dsimp only at sameHeader
    subst sameHeader
    have lengths : data.length = data'.length :=
      wellFormed.exact.trans wellFormed'.exact.symm
    rw [(append_inj sameData lengths).1]

theorem no_packet_in_front (wellFormed : packet.WellFormed) {part rest : Bytes}
    (isPart : part ++ rest = packet.bytes) (notAll : rest ≠ [])
    {other : Packet} (wellFormed' : other.WellFormed) :
    ¬ other.bytes <+: part := by
  rintro ⟨behind, rfl⟩
  have same : other.bytes ++ (behind ++ rest) = packet.bytes ++ [] := by
    rw [append_nil, ← isPart, append_assoc]
  obtain rfl := packet_selfDelimiting.unique other packet _ _ wellFormed' wellFormed same
  have nothing := append_cancel_left same
  exact notAll (append_eq_nil_iff.mp nothing).2

end Zabbix.Comms.Packets

/-!
# Sending packets

`zbx_tcp_send_ext` with `ZBX_TCP_PROTOCOL`.  A call of `zbx_tcp_write` that does not fail
writes at least one byte; how many the operating system takes is decided outside, by a
`Calls` that answers one call after another.  `zbx_compress` is a parameter.
-/

namespace Zabbix.Comms.Sending

open Library.ByteReader Packets List

/-- The results of calls that transfer bytes: nothing for `ZBX_PROTO_ERROR`, else one less than
the most bytes that the call transfers. -/
abbrev Calls := Nat → Option Nat

/-- The calls after the first one. -/
def Calls.next (calls : Calls) : Calls :=
  fun call => calls (call + 1)

def zbxTlsMaxRecLen : Nat := 16384

/-- The result of writing, the bytes written and the calls that are left. -/
structure Written where
  ret : Bool
  bytes : Bytes
  calls : Calls

/-- A loop that writes what is left of some data, at most `block left` bytes in a call. -/
def writeLoop (block : Nat → Nat) : Nat → Calls → Bytes → Written
  | 0, calls, _ => ⟨true, [], calls⟩
  | turns + 1, calls, left =>
    if left = [] then ⟨true, [], calls⟩
    else
      match calls 0 with
      | none => ⟨false, [], calls.next⟩
      | some count =>
        let written := min (count + 1) (block left.length)
        let rest := writeLoop block turns calls.next (left.drop written)
        { rest with bytes := left.take written ++ rest.bytes }

/-- What a sender decides before it writes: the data and the header. -/
structure Outgoing where
  header : Header
  data : Bytes
deriving DecidableEq

variable (compress : Bytes → Option Bytes)

/-- The data to be sent and the length of the data before they were compressed. -/
def compressed (data : Bytes) (reserved : Nat) (flags : UInt8) : Option (Bytes × Nat) :=
  if hasFlag flags zbxTcpCompress ∧ reserved = 0 then
    (compress data).map fun packed => (packed, data.length)
  else some (data, reserved)

/-- The first part of `zbx_tcp_send_ext`. -/
def prepare (data : Bytes) (reserved : Nat) (flags : UInt8) : Option Outgoing :=
  if zbxMaxRecvLargeDataSize < data.length then none
  else if zbxMaxRecvLargeDataSize < reserved then none
  else
    (compressed compress data reserved flags).map fun (sendData, reserved) =>
      let flags :=
        if 2 ^ 32 - 1 ≤ data.length ∨ 2 ^ 32 - 1 ≤ reserved then flags ||| zbxTcpLarge else flags
      ⟨⟨flags, sendData.length, reserved⟩, sendData⟩

/-- The loops of `zbx_tcp_send_ext`: the header with as much data as fit a TLS record, and the
other data.  A length that is too long for its field loses its upper bytes. -/
def writePacket (encrypted : Bool) (calls : Calls) (outgoing : Outgoing) : Bool × Bytes :=
  let header := outgoing.header.bytes
  let takeBytes := min outgoing.data.length (zbxTlsMaxRecLen - header.length)
  let headerBuf := header ++ outgoing.data.take takeBytes
  let first := writeLoop id headerBuf.length calls headerBuf
  if first.ret then
    let block := if encrypted then min zbxTlsMaxRecLen else id
    let left := outgoing.data.drop takeBytes
    let second := writeLoop block left.length first.calls left
    (second.ret, first.bytes ++ second.bytes)
  else (false, first.bytes)

/-- `zbx_tcp_send_ext`: the result and the bytes on the wire. -/
def zbxTcpSendExt (encrypted : Bool) (calls : Calls) (data : Bytes) (reserved : Nat)
    (flags : UInt8) : Bool × Bytes :=
  match prepare compress data reserved flags with
  | none => (false, [])
  | some outgoing => writePacket encrypted calls outgoing

/-! ## What is on the wire -/

variable {compress} {block : Nat → Nat} {calls : Calls} {left : Bytes} {turns : Nat}

theorem writeLoop_bytes (progress : ∀ size, 0 < size → 0 < block size)
    (enough : left.length ≤ turns) (succeeded : (writeLoop block turns calls left).ret = true) :
    (writeLoop block turns calls left).bytes = left := by
  induction turns generalizing calls left with
  | zero => exact (length_eq_zero_iff.mp (Nat.le_zero.mp enough)).symm
  | succ turns ih =>
    rw [writeLoop] at succeeded ⊢
    split
    next isEmpty => exact isEmpty.symm
    next notEmpty =>
      rw [if_neg notEmpty] at succeeded
      have positive := length_pos_iff.mpr notEmpty
      cases isCount : calls 0 with
      | none =>
        rw [isCount] at succeeded
        cases succeeded
      | some count =>
        rw [isCount] at succeeded
        have writes : 0 < min (count + 1) (block left.length) :=
          lt_min (Nat.succ_pos count) (progress _ positive)
        have rest := ih (by rw [length_drop]; omega) succeeded
        dsimp only
        rw [rest, take_append_drop]

theorem writeLoop_ret (block : Nat → Nat) (turns : Nat) (left : Bytes) (noFailure : ∀ call, calls call ≠ none) :
    (writeLoop block turns calls left).ret = true ∧
      ∀ call, (writeLoop block turns calls left).calls call ≠ none := by
  induction turns generalizing calls left with
  | zero => exact ⟨rfl, noFailure⟩
  | succ turns ih =>
    rw [writeLoop]
    split
    · exact ⟨rfl, noFailure⟩
    · cases isCount : calls 0 with
      | none => exact absurd isCount (noFailure 0)
      | some count => exact ih _ fun call => noFailure (call + 1)

theorem writePacket_ret (encrypted : Bool) (outgoing : Outgoing)
    (noFailure : ∀ call, calls call ≠ none) :
    (writePacket encrypted calls outgoing).1 = true := by
  rw [writePacket]
  dsimp only
  obtain ⟨first, later⟩ := writeLoop_ret id _ _ noFailure
  rw [if_pos first]
  exact (writeLoop_ret _ _ _ later).1

theorem writePacket_bytes {encrypted : Bool} {outgoing : Outgoing} {wire : Bytes}
    (succeeded : writePacket encrypted calls outgoing = (true, wire)) :
    wire = outgoing.header.bytes ++ outgoing.data := by
  rw [writePacket] at succeeded
  dsimp only at succeeded
  split at succeeded
  next isFirst =>
    obtain ⟨isSecond, rfl⟩ := Prod.mk.inj succeeded
    have progress : ∀ size, 0 < size →
        0 < (if encrypted then min zbxTlsMaxRecLen else id) size := by
      intro size positive
      cases encrypted
      · exact positive
      · exact lt_min (by decide) positive
    have whole : ∀ size, 0 < size → 0 < id size := fun _ positive => positive
    rw [writeLoop_bytes whole (Nat.le_refl _) isFirst,
      writeLoop_bytes progress (Nat.le_refl _) isSecond, append_assoc, take_append_drop]
  next => cases succeeded

theorem zbxTcpSendExt_bytes {encrypted : Bool} {data wire : Bytes} {reserved : Nat}
    {flags : UInt8}
    (succeeded : zbxTcpSendExt compress encrypted calls data reserved flags = (true, wire)) :
    ∃ outgoing, prepare compress data reserved flags = some outgoing ∧
      wire = outgoing.header.bytes ++ outgoing.data := by
  rw [zbxTcpSendExt] at succeeded
  split at succeeded
  next => cases succeeded
  next outgoing prepared => exact ⟨outgoing, prepared, writePacket_bytes succeeded⟩

end Zabbix.Comms.Sending

/-!
# Receiving packets

`zbx_tcp_recv_ext`.  The static buffer of the socket and the buffer that is allocated for
long data are blocks of memory, and a write outside a block gives nothing.  A call of
`zbx_tcp_read` returns at least one byte while there are bytes left in the stream, and zero
bytes after that, because the peer has closed the connection.  `zbx_uncompress` is a
parameter.
-/

namespace Zabbix.Comms.Receiving

open Library.ByteReader Library.Block Packets Sending

def zbxStatBufLen : Nat := 2048

/-- `ZBX_TCP_EXPECT_*` -/
inductive Expect where
  | header
  | version
  | versionValidate
  | length
  | size
deriving DecidableEq

/-- `s->buf_stat`, `s->buffer` when it has been allocated, and the variables of
`zbx_tcp_recv_ext`. -/
structure Receiver where
  bufStat : Bytes
  buffer : Option Bytes
  bufStatBytes : Nat
  bufDynBytes : Nat
  offset : Nat
  expectedLen : Nat
  reserved : Nat
  expect : Expect
  version : UInt8
deriving DecidableEq

/-- The state before the first read; the static buffer holds anything. -/
def Receiver.start (bufStat : Bytes) : Receiver where
  bufStat := bufStat
  buffer := none
  bufStatBytes := 0
  bufDynBytes := 0
  offset := 0
  expectedLen := 16 * 2 ^ 20
  reserved := 0
  expect := .header
  version := 0

/-- The bytes of the message that have come. -/
def Receiver.bytes (receiver : Receiver) : Nat :=
  receiver.bufStatBytes + receiver.bufDynBytes

/-- What happens after a read: `continue`, `break`, or `goto out` with an error. -/
inductive Turn where
  | more (receiver : Receiver)
  | stop (receiver : Receiver)
  | error
deriving DecidableEq

/-- `zbx_malloc`; what is in the memory does not matter. -/
def zbxMalloc (size : Nat) : Bytes :=
  List.replicate size 0

/-- `protocol_version`: a `char` of the buffer as an `int`. -/
def protocolVersion (version : UInt8) : Int :=
  if version < 128 then version.toNat else (version.toNat : Int) - 256

def isInvalidVersion (flags version : UInt8) : Bool :=
  !hasFlag version zbxTcpProtocol ||
    (zbxTcpProtocol ||| zbxTcpCompress ||| flags).toNat < protocolVersion version

def maxLen (flags : UInt8) : Nat :=
  if hasFlag flags zbxTcpLarge then zbxMaxRecvLargeDataSize else zbxMaxRecvDataSize

/-! ## The loop -/

/-- The end of a turn in which the lengths have been read. -/
def expectSize (receiver : Receiver) : Turn :=
  if receiver.expectedLen ≤ receiver.bytes then .stop { receiver with expect := .size }
  else .more { receiver with expect := .size }

/-- The branch of `ZBX_TCP_EXPECT_LENGTH`. -/
def recvLength (flags : UInt8) (receiver : Receiver) : Option Turn :=
  let width := lengthWidth receiver.version
  if receiver.bufStatBytes < receiver.offset + 2 * width then some (.more receiver)
  else
    let fields := receiver.bufStat.drop receiver.offset
    let expectedLen := ofLittleEndian (fields.take width)
    let reserved := ofLittleEndian ((fields.drop width).take width)
    let offset := receiver.offset + 2 * width
    if maxLen flags < expectedLen then some .error
    else if maxLen flags < reserved then some .error
    else
      let size := receiver.bufStatBytes - offset
      let data := (receiver.bufStat.drop offset).take size
      if expectedLen < zbxStatBufLen then
        (store receiver.bufStat 0 data).map fun bufStat =>
          expectSize
            { receiver with bufStat, offset, expectedLen, reserved, bufStatBytes := size }
      else
        (store (zbxMalloc (expectedLen + 1)) 0 data).map fun buffer =>
          expectSize
            { receiver with
              buffer := some buffer
              offset, expectedLen, reserved
              bufDynBytes := size
              bufStatBytes := 0 }

/-- The branch of `ZBX_TCP_EXPECT_VERSION`. -/
def recvVersion (flags : UInt8) (receiver : Receiver) : Option Turn :=
  if receiver.bufStatBytes < receiver.offset + 1 then some (.more receiver)
  else
    let version := (receiver.bufStat.drop zbxTcpHeaderData.length).headD 0
    if isInvalidVersion flags version then
      some (.stop { receiver with version, expect := .versionValidate })
    else
      recvLength flags
        { receiver with version, expect := .length, offset := receiver.offset + 1 }

/-- The branch of `ZBX_TCP_EXPECT_HEADER`. -/
def recvHeader (flags : UInt8) (receiver : Receiver) : Option Turn :=
  if receiver.bufStatBytes < zbxTcpHeaderData.length then
    if receiver.bufStat.take receiver.bufStatBytes =
        zbxTcpHeaderData.take receiver.bufStatBytes then
      some (.more receiver)
    else some (.stop receiver)
  else if receiver.bufStat.take zbxTcpHeaderData.length ≠ zbxTcpHeaderData then
    some (.stop receiver)
  else
    recvVersion flags
      { receiver with
        expect := .version
        offset := receiver.offset + zbxTcpHeaderData.length }

/-- Count the bytes of a read, and copy them if they do not stay in the static buffer. -/
def countBytes (receiver : Receiver) (bufStat : Bytes) (nbytes : Nat) : Option Receiver :=
  match receiver.buffer with
  | none => some { receiver with bufStat, bufStatBytes := receiver.bufStatBytes + nbytes }
  | some buffer =>
    if receiver.bufDynBytes + nbytes ≤ receiver.expectedLen then
      (store buffer receiver.bufDynBytes (bufStat.take nbytes)).map fun buffer =>
        { receiver with
          bufStat
          buffer := some buffer
          bufDynBytes := receiver.bufDynBytes + nbytes }
    else some { receiver with bufStat, bufDynBytes := receiver.bufDynBytes + nbytes }

def recvTurn (flags : UInt8) (receiver : Receiver) (bytes : Bytes) : Option Turn :=
  (store receiver.bufStat receiver.bufStatBytes bytes).bind fun bufStat =>
    (countBytes receiver bufStat bytes.length).bind fun receiver =>
      if receiver.expectedLen ≤ receiver.bytes then some (.stop receiver)
      else
        match receiver.expect with
        | .header => recvHeader flags receiver
        | .version => recvVersion flags receiver
        | .length => recvLength flags receiver
        | _ => some (.more receiver)

/-- The loop, with the rest of the stream. -/
def recvLoop (flags : UInt8) : Nat → Calls → Bytes → Receiver → Option Turn
  | 0, _, _, receiver => some (.stop receiver)
  | turns + 1, calls, stream, receiver =>
    match calls 0 with
    | none => some .error
    | some count =>
      let bytes := stream.take (min (count + 1) (zbxStatBufLen - receiver.bufStatBytes))
      if bytes = [] then some (.stop receiver)
      else
        match recvTurn flags receiver bytes with
        | some (.more receiver) =>
          recvLoop flags turns calls.next (stream.drop bytes.length) receiver
        | turn => turn

/-! ## After the loop -/

/-- A successful result: `s->buffer`, `s->read_bytes` and the value that is returned. -/
structure Received where
  buffer : Bytes
  readBytes : Nat
  ret : Nat
deriving DecidableEq

variable (uncompress : Bytes → Nat → Option Bytes)

/-- The memory that `s->buffer` points to. -/
def Receiver.memory (receiver : Receiver) : Bytes :=
  receiver.buffer.getD receiver.bufStat

/-- Terminate the data with a zero. -/
def terminate (receiver : Receiver) (buffer : Bytes) (readBytes : Nat) :
    Option (Option Received) :=
  (store buffer readBytes [0]).map fun buffer =>
    some ⟨buffer, readBytes, readBytes + receiver.offset⟩

/-- The code after the loop: nothing for a write outside a block, `FAIL` or a result. -/
def recvFinish (receiver : Receiver) : Option (Option Received) :=
  match receiver.expect with
  | .size =>
    if receiver.bytes = receiver.expectedLen then
      if hasFlag receiver.version zbxTcpCompress then
        match uncompress (receiver.memory.take receiver.bytes) receiver.reserved with
        | none => some none
        | some out =>
          (store (zbxMalloc (receiver.reserved + 1)) 0 out).bind fun buffer =>
            if out.length ≠ receiver.reserved then some none
            else terminate receiver buffer receiver.reserved
      else terminate receiver receiver.memory receiver.bytes
    else some none
  | .header =>
    if receiver.bufStatBytes ≠ 0 then some none
    else terminate receiver receiver.bufStat 0
  | _ => some none

/-- `zbx_tcp_recv_ext`, on a socket with the static buffer. -/
def zbxTcpRecvExt (flags : UInt8) (calls : Calls) (bufStat stream : Bytes) :
    Option (Option Received) :=
  match recvLoop flags (stream.length + 1) calls stream (Receiver.start bufStat) with
  | none => none
  | some (.stop receiver) => recvFinish uncompress receiver
  | some _ => some none

end Zabbix.Comms.Receiving
