import Zabbix.Comms.Reassembly

/-!
# Delivery of packets

What `zbx_tcp_recv_ext` returns depends on the stream alone, not on how it is cut into
reads: a result is the payload of a packet at the front of the stream, and a stream that is a
packet gives its payload.  A stream with no byte at all gives an empty result.
-/

namespace Zabbix.Comms.Delivery

open Library.ByteReader Library.Block Packets Sending Receiving Reassembly List Option

variable {compress : Bytes → Option Bytes} {uncompress : Bytes → Nat → Option Bytes}
variable {flags : UInt8} {got stream bufStat payload data : Bytes} {receiver : Receiver}
variable {calls : Calls} {header : Header} {packet : Packet}

def decode (uncompress : Bytes → Nat → Option Bytes) (packet : Packet) : Option Bytes :=
  if hasFlag packet.header.version zbxTcpCompress then
    (uncompress packet.data packet.header.reserved).bind fun out =>
      if out.length = packet.header.reserved then some out else none
  else some packet.data

/-- A result with its payload, terminated by a zero. -/
structure Carries (received : Received) (payload : Bytes) (offset : Nat) : Prop where
  readBytes : received.readBytes = payload.length
  buffer : payload ++ [0] <+: received.buffer
  ret : received.ret = payload.length + offset

/-- `zbx_uncompress` does not write more than the buffer has room for. -/
def Bounded (uncompress : Bytes → Nat → Option Bytes) : Prop :=
  ∀ packed size out, uncompress packed size = some out → out.length ≤ size

/-! ## After the loop -/

theorem terminate_carries (receiver : Receiver) {buffer : Bytes} (filled : payload <+: buffer)
    (room : payload.length + 1 ≤ buffer.length) :
    ∃ received, terminate receiver buffer payload.length = some (some received) ∧
      Carries received payload receiver.offset := by
  have inside : payload.length + ([0] : Bytes).length ≤ buffer.length := room
  obtain ⟨result, stored, size, filled⟩ := store_behind filled inside
  exact ⟨⟨result, _, _⟩, by rw [terminate, stored]; rfl, rfl, filled, rfl⟩

/-- A state in which the data are not complete, or too long. -/
theorem recvFinish_unequal (body : Body header data receiver)
    (unequal : data.length ≠ header.dataLen) :
    recvFinish uncompress receiver = some none := by
  rw [recvFinish, body.expect]
  dsimp only
  rw [body.placed.bytes_eq, body.expectedLen, if_neg unequal]

theorem Placed.memory_take (placed : Placed header data receiver)
    (exact : data.length = header.dataLen) :
    receiver.memory.take data.length = data ∧ data <+: receiver.memory ∧
      (receiver.bufStat.length = zbxStatBufLen → data.length + 1 ≤ receiver.memory.length) := by
  cases placed with
  | static short noBuffer noDyn count filled =>
    rw [Receiver.memory, noBuffer]
    refine ⟨(prefix_iff_eq_take.mp filled).symm, filled, fun size => ?_⟩
    rw [getD_none, size]
    omega
  | dynamic buffer isBuffer room noStat count filled =>
    rw [Receiver.memory, isBuffer]
    have filled := filled exact.le
    exact ⟨(prefix_iff_eq_take.mp filled).symm, filled, fun _ => by
      rw [getD_some]; omega⟩

theorem recvFinish_complete (bounded : Bounded uncompress) (body : Body header data receiver)
    (exact : data.length = header.dataLen) :
    ∃ result, recvFinish uncompress receiver = some result ∧
      match decode uncompress ⟨header, data⟩ with
      | none => result = none
      | some payload => ∃ received, result = some received ∧
          Carries received payload header.bytes.length := by
  obtain ⟨isData, filled, room⟩ := Placed.memory_take body.placed exact
  rw [recvFinish, body.expect]
  dsimp only
  rw [body.placed.bytes_eq, body.expectedLen, if_pos exact, body.version, isData, decode]
  split
  next isCompressed =>
    rw [body.reserved]
    cases isOut : uncompress data header.reserved with
    | none => exact ⟨none, rfl, rfl⟩
    | some out =>
      have small := bounded data header.reserved out isOut
      have inside : out.length ≤ (zbxMalloc (header.reserved + 1)).length := by
        rw [zbxMalloc, length_replicate]
        omega
      obtain ⟨buffer, stored, size, front⟩ := store_start inside
      dsimp only
      rw [stored, bind_some, bind_some]
      by_cases isExact : out.length = header.reserved
      · rw [if_neg (not_not.mpr isExact), if_pos isExact, ← isExact]
        obtain ⟨received, terminated, carries⟩ := terminate_carries receiver front
          (by rw [size, zbxMalloc, length_replicate]; omega)
        exact ⟨some received, terminated, received, rfl, body.offset ▸ carries⟩
      · rw [if_pos isExact, if_neg isExact]
        exact ⟨none, rfl, rfl⟩
  next =>
    obtain ⟨received, terminated, carries⟩ :=
      terminate_carries receiver filled (room body.size)
    exact ⟨some received, terminated, received, rfl, body.offset ▸ carries⟩

/-! ## The whole call -/

/-- What a call returns: a result stands for no byte or for a packet at the front of the
stream, and without a result the stream is no packet that can be delivered. -/
def Answers (uncompress : Bytes → Nat → Option Bytes) (flags : UInt8) (calls : Calls)
    (stream : Bytes) : Option Received → Prop
  | some received =>
    (stream = [] ∧ Carries received [] 0) ∨
    ∃ packet payload, packet.WellFormed ∧ Accepts flags packet.header ∧
      packet.bytes <+: stream ∧ decode uncompress packet = some payload ∧
        Carries received payload packet.header.bytes.length
  | none =>
    (∃ call, calls call = none) ∨
    ∀ packet, packet.WellFormed → Accepts flags packet.header → stream = packet.bytes →
      decode uncompress packet = none

theorem front_headerBytes (header : Header) (rest : Bytes) :
    (header.bytes ++ rest).take zbxTcpHeaderData.length = zbxTcpHeaderData := by
  rw [Header.bytes, append_assoc, append_assoc]
  rfl

theorem Phase.not_packet (phase : Phase flags packet.bytes receiver)
    (wellFormed : packet.WellFormed) : False := by
  have length := length_headerBytes packet.header
  have whole : packet.bytes.length = packet.header.bytes.length + packet.data.length :=
    length_append
  cases phase with
  | header early expect offset short =>
    have four : zbxTcpHeaderData.length = 4 := rfl
    omega
  | version early expect offset isGot =>
    have four : zbxTcpHeaderData.length = 4 := rfl
    rw [isGot] at whole
    omega
  | length early expect offset lengths isGot short valid =>
    rw [Packet.bytes, Header.bytes, append_assoc, append_assoc, append_assoc]
      at isGot
    have rest := append_cancel_left isGot
    obtain ⟨version, same⟩ := cons.inj rest
    have lengths' : (packet.header.lengths ++ packet.data).length = lengths.length :=
      congrArg List.length same
    rw [length_append, length_lengths] at lengths'
    rw [← version] at short
    omega
  | body header data isGot fits accepts body short =>
    obtain ⟨rfl, rfl⟩ := header_unique wellFormed.fits fits isGot
    exact absurd wellFormed.exact short.ne

theorem zbxTcpRecvExt_answers (bounded : Bounded uncompress)
    (size : bufStat.length = zbxStatBufLen) (flags : UInt8) (calls : Calls) (stream : Bytes) :
    ∃ result, zbxTcpRecvExt uncompress flags calls bufStat stream = some result ∧
      Answers uncompress flags calls stream result := by
  obtain ⟨turn, looped, ended⟩ := recvLoop_ended calls (phase_start flags size)
    (Nat.lt_succ_self stream.length)
  rw [nil_append] at ended
  rw [zbxTcpRecvExt, looped]
  cases ended with
  | failed call fails => exact ⟨none, rfl, Or.inl ⟨call, fails⟩⟩
  | tooLong got rest isStream tooLong =>
    refine ⟨none, rfl, Or.inr fun packet wellFormed accepts isPacket => ?_⟩
    obtain ⟨header, behind, isGot, fits, refused⟩ := tooLong
    rw [isStream, isGot, append_assoc] at isPacket
    obtain ⟨rfl, -⟩ := header_unique fits wellFormed.fits isPacket
    exact absurd accepts refused
  | closed receiver phase =>
    have notPacket : ∀ packet : Packet, packet.WellFormed → Accepts flags packet.header →
        stream = packet.bytes → decode uncompress packet = none := by
      rintro packet wellFormed - rfl
      exact (Phase.not_packet phase wellFormed).elim
    have rejected : recvFinish uncompress receiver = some none →
        ∃ result, recvFinish uncompress receiver = some result ∧
          Answers uncompress flags calls stream result :=
      fun finished => ⟨none, finished, Or.inr notPacket⟩
    cases phase with
    | header early expect offset short =>
      by_cases isEmpty : receiver.bufStatBytes = 0
      · have isStream : stream = [] := length_eq_zero_iff.mp (early.count ▸ isEmpty)
        have room : ([] : Bytes).length + 1 ≤ receiver.bufStat.length := by
          rw [early.size]
          decide
        obtain ⟨received, terminated, carries⟩ :=
          terminate_carries receiver nil_prefix room
        refine ⟨some received, ?_, Or.inl ⟨isStream, offset ▸ carries⟩⟩
        dsimp only
        rw [recvFinish, expect]
        dsimp only
        rw [if_neg (not_not.mpr isEmpty)]
        exact terminated
      · refine rejected ?_
        rw [recvFinish, expect]
        exact if_pos isEmpty
    | version early expect offset isGot => exact rejected (by rw [recvFinish, expect])
    | length early expect offset lengths isGot short valid =>
      exact rejected (by rw [recvFinish, expect])
    | body header data isGot fits accepts body short =>
      exact rejected (recvFinish_unequal body short.ne)
  | stopped receiver got rest isStream ends =>
    cases ends with
    | wrongHeader expect some wrong =>
      refine ⟨none, ?_, Or.inr fun packet wellFormed accepts isPacket => ?_⟩
      · dsimp only
        rw [recvFinish, expect]
        exact if_pos some
      · refine absurd ?_ wrong
        have front := front_headerBytes packet.header packet.data
        rw [← Packet.bytes, ← isPacket, isStream] at front
        have shorter := (prefix_append got rest).take zbxTcpHeaderData.length
        rwa [front] at shorter
    | wrongVersion expect version behind isGot invalid =>
      refine ⟨none, ?_, Or.inr fun packet wellFormed accepts isPacket => ?_⟩
      · dsimp only
        rw [recvFinish, expect]
      · rw [isStream, isGot, Packet.bytes, Header.bytes] at isPacket
        simp only [append_assoc, append_cancel_left_eq, singleton_append]
          at isPacket
        have same := (cons.inj isPacket).1
        rw [same, accepts.version] at invalid
        cases invalid
    | complete header data isGot fits accepts body long =>
      by_cases exact : data.length = header.dataLen
      · obtain ⟨result, finished, decoded⟩ := recvFinish_complete bounded body exact
        refine ⟨result, finished, ?_⟩
        have isFront : Packet.bytes ⟨header, data⟩ <+: stream :=
          ⟨rest, by rw [isStream, isGot]; rfl⟩
        cases isDecoded : decode uncompress ⟨header, data⟩ with
        | none =>
          rw [isDecoded] at decoded
          subst decoded
          refine Or.inr fun packet wellFormed accepts' isPacket => ?_
          rw [isPacket] at isFront
          obtain ⟨behind, same⟩ := isFront
          rw [← append_nil packet.bytes] at same
          rw [← packet_selfDelimiting.unique _ packet _ _ ⟨fits, exact⟩ wellFormed same]
          exact isDecoded
        | some payload =>
          rw [isDecoded] at decoded
          obtain ⟨received, rfl, carries⟩ := decoded
          exact Or.inr ⟨⟨header, data⟩, payload, ⟨fits, exact⟩, accepts, isFront, isDecoded,
            carries⟩
      · refine ⟨none, recvFinish_unequal body exact, Or.inr ?_⟩
        intro packet wellFormed accepts' isPacket
        rw [isStream, isGot, append_assoc] at isPacket
        obtain ⟨rfl, same⟩ := header_unique fits wellFormed.fits isPacket
        have lengths := congrArg List.length same
        rw [length_append, wellFormed.exact] at lengths
        omega

/-! ## What is sent is received -/

/-- The payload of a call of `zbx_tcp_send_ext`, which may have been compressed before. -/
def IsPayload (compress : Bytes → Option Bytes) (data : Bytes) (reserved : Nat) (flags : UInt8)
    (payload : Bytes) : Prop :=
  if hasFlag flags zbxTcpCompress ∧ reserved ≠ 0 then
    compress payload = some data ∧ payload.length = reserved
  else payload = data

/-- A packet that the receiver allows, and whose length its field can express. -/
structure Allowed (flags : UInt8) (outgoing : Outgoing) : Prop where
  known : outgoing.header.version.toNat < 8
  protocol : hasFlag outgoing.header.version zbxTcpProtocol = true
  large : hasFlag outgoing.header.version zbxTcpLarge = true → hasFlag flags zbxTcpLarge = true
  dataLen : outgoing.data.length ≤ maxLen flags
  reserved : outgoing.header.reserved ≤ maxLen flags
  field : hasFlag outgoing.header.version zbxTcpLarge = true ∨ outgoing.data.length < 2 ^ 32

theorem versions_below (version : Fin 8) :
    hasFlag (UInt8.ofNat version) zbxTcpLarge = false →
      (UInt8.ofNat version).toNat ≤ (zbxTcpProtocol ||| zbxTcpCompress).toNat := by
  revert version
  decide

theorem large_flags (flags : Fin 256) :
    hasFlag (UInt8.ofNat flags) zbxTcpLarge = true →
      7 ≤ (zbxTcpProtocol ||| zbxTcpCompress ||| UInt8.ofNat flags).toNat := by
  revert flags
  decide +kernel

/-- The receiver lets the version of an allowed packet pass. -/
theorem version_valid {version : UInt8} (known : version.toNat < 8)
    (protocol : hasFlag version zbxTcpProtocol = true)
    (large : hasFlag version zbxTcpLarge = true → hasFlag flags zbxTcpLarge = true) :
    isInvalidVersion flags version = false := by
  have isUnsigned : protocolVersion version = version.toNat := by
    rw [protocolVersion, if_pos]
    exact UInt8.lt_iff_toNat_lt.mpr (by change version.toNat < 128; omega)
  have notAbove : version.toNat ≤ (zbxTcpProtocol ||| zbxTcpCompress ||| flags).toNat := by
    cases isLarge : hasFlag version zbxTcpLarge with
    | true =>
      have seven := large_flags ⟨flags.toNat, flags.toNat_lt⟩
      rw [UInt8.ofNat_toNat] at seven
      exact (Nat.le_of_lt_succ known).trans (seven (large isLarge))
    | false =>
      have below := versions_below ⟨version.toNat, known⟩
      rw [UInt8.ofNat_toNat] at below
      refine (below isLarge).trans ?_
      rw [UInt8.toNat_or _ flags]
      exact Nat.left_le_or
  rw [isInvalidVersion, protocol, isUnsigned, Bool.not_true, Bool.false_or, decide_eq_false_iff_not]
  exact fun above => absurd (Int.ofNat_lt.mp above) (Nat.not_lt_of_le notAbove)

theorem Allowed.accepts {outgoing : Outgoing} (allowed : Allowed flags outgoing)
    (dataLen : outgoing.header.dataLen = outgoing.data.length) :
    Accepts flags outgoing.header where
  version := version_valid allowed.known allowed.protocol allowed.large
  dataLen := dataLen ▸ allowed.dataLen
  reserved := allowed.reserved

theorem maxLen_le (flags : UInt8) : maxLen flags ≤ 2 ^ 34 := by
  rw [maxLen]
  split
  · exact Nat.le_refl _
  · decide

theorem prepare_spec {reserved : Nat} {sendFlags : UInt8} {outgoing : Outgoing}
    (prepared : prepare compress data reserved sendFlags = some outgoing) :
    outgoing.header.dataLen = outgoing.data.length ∧
      compressed compress data reserved sendFlags =
        some (outgoing.data, outgoing.header.reserved) ∧
      (hasFlag outgoing.header.version zbxTcpCompress = hasFlag sendFlags zbxTcpCompress) ∧
      (hasFlag outgoing.header.version zbxTcpLarge = true ∨
        outgoing.header.reserved < 2 ^ 32) := by
  have compressKept : ∀ flags : Fin 256,
      hasFlag (UInt8.ofNat flags ||| zbxTcpLarge) zbxTcpCompress =
        hasFlag (UInt8.ofNat flags) zbxTcpCompress := by
    decide +kernel
  have largeSet : ∀ flags : Fin 256,
      hasFlag (UInt8.ofNat flags ||| zbxTcpLarge) zbxTcpLarge = true := by
    decide +kernel
  have compressKept := compressKept ⟨sendFlags.toNat, sendFlags.toNat_lt⟩
  have largeSet := largeSet ⟨sendFlags.toNat, sendFlags.toNat_lt⟩
  rw [UInt8.ofNat_toNat] at compressKept largeSet
  rw [prepare] at prepared
  split at prepared
  · cases prepared
  · split at prepared
    · cases prepared
    · obtain ⟨⟨sendData, reserved'⟩, isCompressed, rfl⟩ := map_eq_some_iff.mp prepared
      dsimp only
      refine ⟨rfl, isCompressed, ?_, ?_⟩
      · split
        · exact compressKept
        · rfl
      · split
        · exact Or.inl largeSet
        next isSmall => exact Or.inr (by omega)

theorem Allowed.fits {outgoing : Outgoing} (allowed : Allowed flags outgoing)
    (dataLen : outgoing.header.dataLen = outgoing.data.length)
    (reserved : hasFlag outgoing.header.version zbxTcpLarge = true ∨
      outgoing.header.reserved < 2 ^ 32) :
    outgoing.header.Fits := by
  have limit := maxLen_le flags
  have isData := allowed.dataLen
  have isReserved := allowed.reserved
  rw [Header.Fits, lengthWidth, dataLen]
  split
  next => exact ⟨by omega, by omega⟩
  next notLarge =>
    exact ⟨allowed.field.resolve_left notLarge, reserved.resolve_left notLarge⟩

theorem decode_prepared
    (inverts : ∀ data packed, compress data = some packed →
      uncompress packed data.length = some data)
    {reserved : Nat} {sendFlags : UInt8} {outgoing : Outgoing}
    (prepared : prepare compress data reserved sendFlags = some outgoing)
    (isPayload : IsPayload compress data reserved sendFlags payload) :
    decode uncompress ⟨outgoing.header, outgoing.data⟩ = some payload := by
  obtain ⟨-, isCompressed, sameFlag, -⟩ := prepare_spec prepared
  rw [decode, sameFlag]
  rw [compressed] at isCompressed
  rw [IsPayload] at isPayload
  cases isFlag : hasFlag sendFlags zbxTcpCompress with
  | false =>
    rw [isFlag, if_neg (fun both => Bool.false_ne_true both.1)] at isCompressed
    rw [isFlag, if_neg (fun both => Bool.false_ne_true both.1)] at isPayload
    obtain ⟨isData, -⟩ := Prod.mk.inj (some.inj isCompressed)
    rw [if_neg Bool.false_ne_true, isPayload, ← isData]
  | true =>
    rw [isFlag] at isCompressed isPayload
    rw [if_pos rfl]
    by_cases isNew : reserved = 0
    · rw [if_pos ⟨rfl, isNew⟩] at isCompressed
      rw [if_neg (fun both => both.2 isNew)] at isPayload
      obtain ⟨packed, isPacked, same⟩ := map_eq_some_iff.mp isCompressed
      obtain ⟨isData, isReserved⟩ := Prod.mk.inj same
      rw [← isData, ← isReserved, inverts data packed isPacked, bind_some, if_pos rfl, isPayload]
    · rw [if_neg (fun both => isNew both.2)] at isCompressed
      rw [if_pos ⟨rfl, isNew⟩] at isPayload
      obtain ⟨isData, isReserved⟩ := Prod.mk.inj (some.inj isCompressed)
      rw [← isData, ← isReserved, ← isPayload.2, inverts payload data isPayload.1,
        bind_some, if_pos rfl]

/-! ## What is rejected -/

/-- Streams that are no packet, or that this receiver does not take. -/
inductive Spoiled (flags : UInt8) : Bytes → Prop where
  | truncated (packet : Packet) (part rest : Bytes) (wellFormed : packet.WellFormed)
      (isPart : part ++ rest = packet.bytes) (some : part ≠ []) (notAll : rest ≠ []) :
      Spoiled flags part
  | wrongHeader (stream : Bytes)
      (wrong : ¬ stream.take zbxTcpHeaderData.length <+: zbxTcpHeaderData) : Spoiled flags stream
  | wrongVersion (version : UInt8) (rest : Bytes) (isPositive : version < 128)
      (wrong : hasFlag version zbxTcpProtocol = false ∨
        zbxTcpProtocol ||| zbxTcpCompress ||| flags < version) :
      Spoiled flags (zbxTcpHeaderData ++ [version] ++ rest)
  | tooLong (header : Header) (rest : Bytes) (fits : header.Fits)
      (isOver : maxLen flags < header.dataLen ∨ maxLen flags < header.reserved) :
      Spoiled flags (header.bytes ++ rest)

theorem Spoiled.rejected {result : Option Received} (spoiled : Spoiled flags stream)
    (answers : Answers uncompress flags calls stream result) : result = none := by
  cases result with
  | none => rfl
  | some received =>
    exfalso
    have notEmpty : stream ≠ [] := by
      rintro rfl
      cases spoiled with
      | truncated packet part rest wellFormed isPart some notAll => exact some rfl
      | wrongHeader stream wrong => exact wrong nil_prefix
    rcases answers with ⟨isEmpty, -⟩ | ⟨packet, payload, wellFormed, accepts, front, -, -⟩
    · exact notEmpty isEmpty
    · cases spoiled with
      | truncated other part rest wellFormed' isPart some notAll =>
        exact no_packet_in_front wellFormed' isPart notAll wellFormed front
      | wrongHeader stream wrong =>
        obtain ⟨rest, rfl⟩ := front
        refine wrong ?_
        rw [Packet.bytes, append_assoc, front_headerBytes]
      | wrongVersion version rest isPositive wrong =>
        obtain ⟨behind, same⟩ := front
        simp only [Packet.bytes, Header.bytes, append_assoc, append_cancel_left_eq,
          singleton_append] at same
        have valid := accepts.version
        rw [(cons.inj same).1, isInvalidVersion, protocolVersion, if_pos isPositive,
          Bool.or_eq_false_iff, Bool.not_eq_false', decide_eq_false_iff_not] at valid
        rcases wrong with noProtocol | above
        · exact Bool.false_ne_true (noProtocol.symm.trans valid.1)
        · exact valid.2 (Int.ofNat_lt.mpr (UInt8.lt_iff_toNat_lt.mp above))
      | tooLong header rest fits isOver =>
        obtain ⟨behind, same⟩ := front
        rw [Packet.bytes, append_assoc] at same
        obtain ⟨rfl, -⟩ := header_unique wellFormed.fits fits same
        exact isOver.elim (Nat.not_lt_of_le accepts.dataLen) (Nat.not_lt_of_le accepts.reserved)

/-! ## Packets are delivered -/

/-- A compression that leaves the data as they are. -/
def plainUncompress (packed : Bytes) (size : Nat) : Option Bytes :=
  if packed.length ≤ size then some packed else none

theorem plainUncompress_bounded : Bounded plainUncompress := by
  intro packed size out uncompressed
  rw [plainUncompress] at uncompressed
  split at uncompressed
  next small => exact some.inj uncompressed ▸ small
  next => cases uncompressed

def longCompress (data : Bytes) : Option Bytes :=
  some (replicate (2 ^ 32) 0 ++ data)

def longUncompress (packed : Bytes) (size : Nat) : Option Bytes :=
  if packed.length < 2 ^ 32 then none else some ((packed.drop (2 ^ 32)).take size)

theorem longCompress_inverts (data packed : Bytes) (isPacked : longCompress data = some packed) :
    longUncompress packed data.length = some data := by
  obtain rfl := some.inj isPacked
  have zeros : (replicate (2 ^ 32) 0 : Bytes).length = 2 ^ 32 := length_replicate
  have isLong : ¬ (replicate (2 ^ 32) 0 ++ data).length < 2 ^ 32 := by
    rw [length_append, zeros]
    exact Nat.not_lt_of_le (Nat.le_add_right _ _)
  rw [longUncompress, if_neg isLong, drop_left' zeros, take_length]

theorem longUncompress_bounded : Bounded longUncompress := by
  intro packed size out uncompressed
  rw [longUncompress] at uncompressed
  split at uncompressed
  next => cases uncompressed
  next =>
    rw [← some.inj uncompressed]
    exact length_take_le _ _

theorem long_prepared :
    prepare longCompress [97] 0 3 =
      some ⟨⟨3, (replicate (2 ^ 32) 0 ++ [97] : Bytes).length, 1⟩,
        replicate (2 ^ 32) 0 ++ [97]⟩ :=
  rfl

theorem long_header :
    Header.bytes ⟨3, (replicate (2 ^ 32) 0 ++ [97] : Bytes).length, 1⟩ =
      Header.bytes ⟨3, 1, 1⟩ := by
  rw [length_append, length_replicate]
  rfl

/-- A stream without a byte gives an empty result. -/
theorem zbxTcpRecvExt_empty (uncompress : Bytes → Nat → Option Bytes)
    (size : bufStat.length = zbxStatBufLen) (flags : UInt8) {count : Nat}
    (isCall : calls 0 = some count) :
    ∃ received, zbxTcpRecvExt uncompress flags calls bufStat [] = some (some received) := by
  have room : ([] : Bytes).length + 1 ≤ (Receiver.start bufStat).bufStat.length := by
    change 1 ≤ bufStat.length
    rw [size]
    decide
  obtain ⟨received, terminated, -⟩ :=
    terminate_carries (Receiver.start bufStat) nil_prefix room
  have looped : recvLoop flags 1 calls [] (Receiver.start bufStat) =
      some (.stop (Receiver.start bufStat)) := by
    rw [recvLoop, isCall]
    exact if_pos take_nil
  refine ⟨received, ?_⟩
  rw [zbxTcpRecvExt, length_nil, looped]
  exact terminated

end Zabbix.Comms.Delivery
