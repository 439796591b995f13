import Zabbix.Comms.Packets

/-!
# Putting packets together

What `zbx_tcp_recv_ext` knows of the bytes that it has read: while the header is not
complete they are all in the static buffer, and after that the data are in the static
buffer or in the one that has been allocated.  No write leaves its block.
-/

namespace Zabbix.Comms.Reassembly

open Library.ByteReader Library.Block Packets Sending Receiving List Option

variable {flags : UInt8} {got bytes stream bufStat : Bytes} {receiver next : Receiver}
variable {header : Header} {data : Bytes} {calls : Calls}

/-! ## The state between reads -/

/-- All bytes that have come are in the static buffer. -/
structure Early (got : Bytes) (receiver : Receiver) : Prop where
  size : receiver.bufStat.length = zbxStatBufLen
  noBuffer : receiver.buffer = none
  noDyn : receiver.bufDynBytes = 0
  unknown : receiver.expectedLen = 16 * 2 ^ 20
  count : receiver.bufStatBytes = got.length
  filled : got <+: receiver.bufStat

inductive Placed (header : Header) (data : Bytes) (receiver : Receiver) : Prop where
  | static (short : header.dataLen < zbxStatBufLen) (noBuffer : receiver.buffer = none)
      (noDyn : receiver.bufDynBytes = 0) (count : receiver.bufStatBytes = data.length)
      (filled : data <+: receiver.bufStat)
  | dynamic (buffer : Bytes) (isBuffer : receiver.buffer = some buffer)
      (room : buffer.length = header.dataLen + 1) (noStat : receiver.bufStatBytes = 0)
      (count : receiver.bufDynBytes = data.length)
      (filled : data.length ≤ header.dataLen → data <+: buffer)

/-- The header has come, and its fields are acceptable. -/
structure Body (header : Header) (data : Bytes) (receiver : Receiver) : Prop where
  size : receiver.bufStat.length = zbxStatBufLen
  expect : receiver.expect = .size
  version : receiver.version = header.version
  expectedLen : receiver.expectedLen = header.dataLen
  reserved : receiver.reserved = header.reserved
  offset : receiver.offset = header.bytes.length
  placed : Placed header data receiver

/-- The receiver lets the header pass. -/
structure Accepts (flags : UInt8) (header : Header) : Prop where
  version : isInvalidVersion flags header.version = false
  dataLen : header.dataLen ≤ maxLen flags
  reserved : header.reserved ≤ maxLen flags

/-- What has come when the loop goes on. -/
inductive Phase (flags : UInt8) (got : Bytes) (receiver : Receiver) : Prop where
  | header (early : Early got receiver) (expect : receiver.expect = .header)
      (offset : receiver.offset = 0) (short : got.length < zbxTcpHeaderData.length)
  | version (early : Early got receiver) (expect : receiver.expect = .version)
      (offset : receiver.offset = 4) (isGot : got = zbxTcpHeaderData)
  | length (early : Early got receiver) (expect : receiver.expect = .length)
      (offset : receiver.offset = 5) (lengths : Bytes)
      (isGot : got = zbxTcpHeaderData ++ [receiver.version] ++ lengths)
      (short : lengths.length < 2 * lengthWidth receiver.version)
      (valid : isInvalidVersion flags receiver.version = false)
  | body (header : Header) (data : Bytes) (isGot : got = header.bytes ++ data)
      (fits : header.Fits) (accepts : Accepts flags header) (body : Body header data receiver)
      (short : data.length < header.dataLen)

/-- What has come when the loop stops by itself. -/
inductive Ends (flags : UInt8) (got : Bytes) (receiver : Receiver) : Prop where
  | wrongHeader (expect : receiver.expect = .header) (some : receiver.bufStatBytes ≠ 0)
      (wrong : ¬ got.take zbxTcpHeaderData.length <+: zbxTcpHeaderData)
  | wrongVersion (expect : receiver.expect = .versionValidate) (version : UInt8) (rest : Bytes)
      (isGot : got = zbxTcpHeaderData ++ [version] ++ rest)
      (invalid : isInvalidVersion flags version = true)
  | complete (header : Header) (data : Bytes) (isGot : got = header.bytes ++ data)
      (fits : header.Fits) (accepts : Accepts flags header) (body : Body header data receiver)
      (long : header.dataLen ≤ data.length)

/-- A length in the header is above the limit. -/
def TooLong (flags : UInt8) (got : Bytes) : Prop :=
  ∃ header rest, got = header.bytes ++ rest ∧ Header.Fits header ∧ ¬ Accepts flags header

/-- The bytes that have come are as the turn says. -/
def Follows (flags : UInt8) (got : Bytes) : Turn → Prop
  | .more receiver => Phase flags got receiver
  | .stop receiver => Ends flags got receiver
  | .error => TooLong flags got

theorem phase_start (flags : UInt8) (size : bufStat.length = zbxStatBufLen) :
    Phase flags [] (Receiver.start bufStat) :=
  .header ⟨size, rfl, rfl, rfl, rfl, nil_prefix⟩ rfl rfl (by decide)

theorem Placed.bytes_eq (placed : Placed header data receiver) : receiver.bytes = data.length := by
  cases placed with
  | static short noBuffer noDyn count filled => rw [Receiver.bytes, noDyn, count, Nat.add_zero]
  | dynamic buffer isBuffer room noStat count filled =>
    rw [Receiver.bytes, noStat, count, Nat.zero_add]

theorem Phase.room (phase : Phase flags got receiver) : receiver.bufStatBytes < zbxStatBufLen := by
  have small : ∀ version, 2 * lengthWidth version ≤ 16 := by
    intro version
    rw [lengthWidth]
    split <;> decide
  cases phase with
  | header early expect offset short =>
    rw [early.count]
    exact short.trans (by decide)
  | version early expect offset isGot =>
    rw [early.count, isGot]
    decide
  | length early expect offset lengths isGot short valid =>
    have bound := small receiver.version
    rw [early.count, isGot, length_append, zbxStatBufLen]
    simp only [zbxTcpHeaderData, length_append, length_cons, length_nil]
    omega
  | body header data isGot fits accepts body short =>
    cases body.placed with
    | static small noBuffer noDyn count filled => omega
    | dynamic buffer isBuffer room noStat count filled =>
      rw [noStat]
      decide

/-! ## The branches of a turn -/

theorem Body.turn (isGot : got = header.bytes ++ data) (fits : header.Fits)
    (accepts : Accepts flags header) (body : Body header data { receiver with expect := .size }) :
    Follows flags got (expectSize receiver) := by
  have isCount : receiver.bytes = data.length := body.placed.bytes_eq
  have isLength : receiver.expectedLen = header.dataLen := body.expectedLen
  rw [expectSize]
  split
  next long =>
    rw [isCount, isLength] at long
    exact .complete header data isGot fits accepts body long
  next short =>
    rw [isCount, isLength] at short
    exact .body header data isGot fits accepts body (Nat.lt_of_not_le short)

variable (early : Early got receiver)

include early

theorem recvLength_follows (expect : receiver.expect = .length)
    (offset : receiver.offset = 5) {lengths : Bytes}
    (isGot : got = zbxTcpHeaderData ++ [receiver.version] ++ lengths)
    (valid : isInvalidVersion flags receiver.version = false)
    (small : got.length ≤ zbxStatBufLen) :
    ∃ turn, recvLength flags receiver = some turn ∧ Follows flags got turn := by
  have gotLength : got.length = 5 + lengths.length := by
    rw [isGot, length_append]
    rfl
  have gotDrop : ∀ count, got.drop (5 + count) = lengths.drop count := by
    intro count
    rw [isGot, ← drop_drop]
    rfl
  rw [recvLength, early.count, offset, gotLength]
  dsimp only
  split
  next short =>
    exact ⟨_, rfl, .length early expect offset lengths isGot (by omega) valid⟩
  next long =>
    have enough : 2 * lengthWidth receiver.version ≤ lengths.length := by omega
    have first : (receiver.bufStat.drop 5).take (lengthWidth receiver.version) =
        lengths.take (lengthWidth receiver.version) := by
      rw [slice_filled early.filled _ _ (by omega)]
      exact congrArg _ (gotDrop 0)
    have second : ((receiver.bufStat.drop 5).drop (lengthWidth receiver.version)).take
        (lengthWidth receiver.version) =
          (lengths.drop (lengthWidth receiver.version)).take (lengthWidth receiver.version) := by
      rw [drop_drop, slice_filled early.filled _ _ (by omega), gotDrop]
    have rest : (receiver.bufStat.drop (5 + 2 * lengthWidth receiver.version)).take
        (5 + lengths.length - (5 + 2 * lengthWidth receiver.version)) =
          lengths.drop (2 * lengthWidth receiver.version) := by
      rw [slice_filled early.filled _ _ (by omega), gotDrop]
      apply take_of_length_le
      rw [length_drop]
      omega
    obtain ⟨isLengths, fits⟩ := lengths_ofLengths enough
    rw [first, second, rest]
    change ∃ turn, (if maxLen flags < (Header.ofLengths receiver.version lengths).dataLen then _
      else if maxLen flags < (Header.ofLengths receiver.version lengths).reserved then _
      else if (Header.ofLengths receiver.version lengths).dataLen < zbxStatBufLen then _ else _) =
        some turn ∧ _
    have isVersion : (Header.ofLengths receiver.version lengths).version = receiver.version := rfl
    have isDataLen : ofLittleEndian (lengths.take (lengthWidth receiver.version)) =
        (Header.ofLengths receiver.version lengths).dataLen := rfl
    have isReserved : ofLittleEndian ((lengths.drop (lengthWidth receiver.version)).take
        (lengthWidth receiver.version)) =
          (Header.ofLengths receiver.version lengths).reserved := rfl
    rw [isDataLen, isReserved]
    generalize Header.ofLengths receiver.version lengths = header at *
    have isBytes : got = header.bytes ++ lengths.drop (2 * lengthWidth receiver.version) := by
      rw [isGot, Header.bytes, isVersion, isLengths, append_assoc, append_assoc,
        append_assoc, take_append_drop]
    have headerLength : header.bytes.length = 5 + 2 * lengthWidth receiver.version := by
      rw [length_headerBytes, isVersion]
    have restLength : (lengths.drop (2 * lengthWidth receiver.version)).length =
        5 + lengths.length - (5 + 2 * lengthWidth receiver.version) := by
      rw [length_drop]
      omega
    split
    next isOver =>
      exact ⟨_, rfl, header, _, isBytes, fits, fun accepts => Nat.not_lt_of_le accepts.dataLen isOver⟩
    next inLimit =>
      split
      next isOver =>
        exact ⟨_, rfl, header, _, isBytes, fits,
          fun accepts => Nat.not_lt_of_le accepts.reserved isOver⟩
      next reservedInLimit =>
        have accepts : Accepts flags header :=
          ⟨isVersion ▸ valid, Nat.le_of_not_lt inLimit, Nat.le_of_not_lt reservedInLimit⟩
        split
        next isStatic =>
          have inside : (lengths.drop (2 * lengthWidth receiver.version)).length ≤
              receiver.bufStat.length := by
            rw [early.size, restLength]
            omega
          obtain ⟨bufStat, stored, size, filled⟩ := store_start inside
          refine ⟨_, by rw [stored]; rfl, Body.turn isBytes fits accepts ?_⟩
          exact ⟨size.trans early.size, rfl, isVersion.symm, rfl, rfl, headerLength.symm,
            .static isStatic early.noBuffer early.noDyn restLength.symm filled⟩
        next isDynamic =>
          have inside : (lengths.drop (2 * lengthWidth receiver.version)).length ≤
              (zbxMalloc (header.dataLen + 1)).length := by
            rw [zbxMalloc, length_replicate, restLength]
            omega
          obtain ⟨buffer, stored, size, filled⟩ := store_start inside
          refine ⟨_, by rw [stored]; rfl, Body.turn isBytes fits accepts ?_⟩
          exact ⟨early.size, rfl, isVersion.symm, rfl, rfl, headerLength.symm,
            .dynamic buffer rfl (size.trans (length_replicate ..)) rfl restLength.symm
              fun _ => filled⟩

theorem recvVersion_follows (expect : receiver.expect = .version)
    (offset : receiver.offset = 4) {rest : Bytes} (isGot : got = zbxTcpHeaderData ++ rest)
    (small : got.length ≤ zbxStatBufLen) :
    ∃ turn, recvVersion flags receiver = some turn ∧ Follows flags got turn := by
  have gotLength : got.length = 4 + rest.length := by
    rw [isGot, length_append]
    rfl
  have count : receiver.bufStatBytes = 4 + rest.length := early.count.trans gotLength
  rw [recvVersion]
  cases rest with
  | nil =>
    rw [if_pos (by rw [count, offset]; decide)]
    exact ⟨_, rfl, .version early expect offset (isGot.trans (append_nil _))⟩
  | cons version lengths =>
    have isVersion : (receiver.bufStat.drop zbxTcpHeaderData.length).headD 0 = version := by
      obtain ⟨behind, filled⟩ := early.filled
      rw [← filled, isGot]
      rfl
    have isLong : ¬ receiver.bufStatBytes < receiver.offset + 1 := by
      rw [count, offset, length_cons]
      omega
    have isGot' : got = zbxTcpHeaderData ++ [version] ++ lengths := by
      rw [isGot, append_assoc]
      rfl
    rw [if_neg isLong, isVersion]
    dsimp only
    split
    next invalid => exact ⟨_, rfl, .wrongVersion rfl version lengths isGot' invalid⟩
    next valid =>
      refine recvLength_follows ?_ rfl ?_ isGot' (Bool.eq_false_iff.mpr valid) small
      · exact ⟨early.size, early.noBuffer, early.noDyn, early.unknown, early.count, early.filled⟩
      · exact congrArg (· + 1) offset

theorem recvHeader_follows (expect : receiver.expect = .header)
    (offset : receiver.offset = 0) (notEmpty : got ≠ []) (small : got.length ≤ zbxStatBufLen) :
    ∃ turn, recvHeader flags receiver = some turn ∧ Follows flags got turn := by
  have nonzero : receiver.bufStatBytes ≠ 0 := by
    rw [early.count]
    exact fun isZero => notEmpty (length_eq_zero_iff.mp isZero)
  rw [recvHeader]
  split
  next short =>
    have whole : receiver.bufStat.take receiver.bufStatBytes = got := by
      rw [early.count]
      exact (prefix_iff_eq_take.mp early.filled).symm
    rw [early.count] at short
    rw [whole, early.count]
    split
    next front => exact ⟨_, rfl, .header early expect offset short⟩
    next wrong =>
      refine ⟨_, rfl, .wrongHeader expect nonzero fun front => wrong ?_⟩
      rw [take_of_length_le short.le] at front
      exact prefix_iff_eq_take.mp front
  next long =>
    rw [early.count] at long
    have front : receiver.bufStat.take zbxTcpHeaderData.length =
        got.take zbxTcpHeaderData.length := by
      have slice := slice_filled early.filled 0 zbxTcpHeaderData.length (by omega)
      rwa [drop_zero, drop_zero] at slice
    rw [front]
    split
    next wrong =>
      refine ⟨_, rfl, .wrongHeader expect nonzero fun isFront => wrong ?_⟩
      have whole := prefix_iff_eq_take.mp isFront
      rwa [length_take_of_le (Nat.le_of_not_lt long), take_length] at whole
    next right =>
      have isGot : got = zbxTcpHeaderData ++ got.drop zbxTcpHeaderData.length := by
        conv_lhs => rw [← take_append_drop zbxTcpHeaderData.length got, not_not.mp right]
      refine recvVersion_follows ?_ rfl ?_ isGot small
      · exact ⟨early.size, early.noBuffer, early.noDyn, early.unknown, early.count, early.filled⟩
      · exact congrArg (· + zbxTcpHeaderData.length) offset

/-! ## A turn and the loop -/

theorem Early.count_bytes (room : got.length + bytes.length ≤ zbxStatBufLen) :
    ∃ bufStat, store receiver.bufStat receiver.bufStatBytes bytes = some bufStat ∧
      countBytes receiver bufStat bytes.length =
        some { receiver with bufStat, bufStatBytes := receiver.bufStatBytes + bytes.length } ∧
      Early (got ++ bytes)
        { receiver with bufStat, bufStatBytes := receiver.bufStatBytes + bytes.length } := by
  have inside : got.length + bytes.length ≤ receiver.bufStat.length := by
    rwa [early.size]
  obtain ⟨bufStat, stored, size, filled⟩ := store_behind early.filled inside
  refine ⟨bufStat, early.count ▸ stored, ?_, ?_⟩
  · rw [countBytes, early.noBuffer]
  · refine ⟨size.trans early.size, early.noBuffer, early.noDyn, early.unknown, ?_, filled⟩
    rw [length_append]
    exact congrArg (· + bytes.length) early.count

omit early

/-- More data are put behind those that have come. -/
theorem Body.count_bytes (body : Body header data receiver) (short : data.length < header.dataLen)
    (room : receiver.bufStatBytes + bytes.length ≤ zbxStatBufLen) :
    ∃ bufStat, store receiver.bufStat receiver.bufStatBytes bytes = some bufStat ∧
      ∃ next, countBytes receiver bufStat bytes.length = some next ∧
        Body header (data ++ bytes) next := by
  have inside : receiver.bufStatBytes + bytes.length ≤ receiver.bufStat.length := by
    rwa [body.size]
  cases body.placed with
  | static isStatic noBuffer noDyn count filled =>
    rw [count] at inside ⊢
    obtain ⟨bufStat, stored, size, filled⟩ := store_behind filled inside
    refine ⟨bufStat, stored, _, by rw [countBytes, noBuffer], ?_⟩
    refine ⟨size.trans body.size, body.expect, body.version, body.expectedLen, body.reserved,
      body.offset, .static isStatic rfl noDyn ?_ filled⟩
    rw [length_append]
    exact congrArg (· + bytes.length) count
  | dynamic buffer isBuffer size noStat count filled =>
    have bytesInside : bytes.length ≤ receiver.bufStat.length := by
      rwa [noStat, Nat.zero_add] at inside
    obtain ⟨bufStat, stored, sizeStat, front⟩ := store_start bytesInside
    have isBytes : bufStat.take bytes.length = bytes := (prefix_iff_eq_take.mp front).symm
    refine ⟨bufStat, by rw [noStat, stored], ?_⟩
    rw [countBytes, isBuffer]
    dsimp only
    rw [isBytes, count, body.expectedLen]
    have isCount : data.length + bytes.length = (data ++ bytes).length :=
      length_append.symm
    split
    next fits =>
      obtain ⟨buffer', storedToo, size', filled'⟩ := store_behind (filled short.le)
        (show data.length + bytes.length ≤ buffer.length by omega)
      refine ⟨_, by rw [storedToo]; rfl, ?_⟩
      exact ⟨sizeStat.trans body.size, body.expect, body.version, rfl, body.reserved,
        body.offset, .dynamic buffer' rfl (size'.trans size) noStat isCount fun _ => filled'⟩
    next isOver =>
      refine ⟨_, rfl, sizeStat.trans body.size, body.expect, body.version, rfl,
        body.reserved, body.offset, .dynamic buffer rfl size noStat isCount ?_⟩
      exact fun isShort => absurd isShort (isCount ▸ isOver)

theorem recvTurn_early (early : Early got receiver)
    (room : receiver.bufStatBytes + bytes.length ≤ zbxStatBufLen)
    (branch : ∀ next, Early (got ++ bytes) next → next.expect = receiver.expect →
      next.offset = receiver.offset → next.version = receiver.version →
        (got ++ bytes).length ≤ zbxStatBufLen →
          ∃ turn, (match next.expect with
            | .header => recvHeader flags next
            | .version => recvVersion flags next
            | .length => recvLength flags next
            | _ => some (.more next)) = some turn ∧ Follows flags (got ++ bytes) turn) :
    ∃ turn, recvTurn flags receiver bytes = some turn ∧ Follows flags (got ++ bytes) turn := by
  rw [early.count] at room
  obtain ⟨bufStat, stored, counted, later⟩ := early.count_bytes room
  have small : (got ++ bytes).length ≤ zbxStatBufLen := by
    rwa [length_append]
  rw [recvTurn, stored, bind_some, counted, bind_some, if_neg]
  · exact branch _ later rfl rfl rfl small
  · rw [later.unknown, Receiver.bytes, later.count, later.noDyn]
    simp only [zbxStatBufLen] at small
    omega

theorem recvTurn_follows (phase : Phase flags got receiver) (notEmpty : bytes ≠ [])
    (room : receiver.bufStatBytes + bytes.length ≤ zbxStatBufLen) :
    ∃ turn, recvTurn flags receiver bytes = some turn ∧ Follows flags (got ++ bytes) turn := by
  cases phase with
  | header early expect offset short =>
    refine recvTurn_early early room fun next later sameExpect sameOffset _ small => ?_
    rw [sameExpect.trans expect]
    exact recvHeader_follows later (sameExpect.trans expect) (sameOffset.trans offset)
      (fun isEmpty => notEmpty (append_eq_nil_iff.mp isEmpty).2) small
  | version early expect offset isGot =>
    refine recvTurn_early early room fun next later sameExpect sameOffset _ small => ?_
    rw [sameExpect.trans expect]
    exact recvVersion_follows later (sameExpect.trans expect) (sameOffset.trans offset)
      (congrArg (· ++ bytes) isGot) small
  | length early expect offset lengths isGot short valid =>
    refine recvTurn_early early room fun next later sameExpect sameOffset sameVersion small => ?_
    rw [sameExpect.trans expect]
    have isGot' : got ++ bytes = zbxTcpHeaderData ++ [next.version] ++ (lengths ++ bytes) := by
      rw [sameVersion, isGot, append_assoc]
    exact recvLength_follows later (sameExpect.trans expect) (sameOffset.trans offset) isGot'
      (sameVersion ▸ valid) small
  | body header data isGot fits accepts body short =>
    obtain ⟨bufStat, stored, next, counted, later⟩ := body.count_bytes short room
    rw [recvTurn, stored, bind_some, counted, bind_some, later.placed.bytes_eq,
      later.expectedLen, later.expect]
    have isGot' : got ++ bytes = header.bytes ++ (data ++ bytes) := by
      rw [isGot, append_assoc]
    split
    next long => exact ⟨_, rfl, .complete header _ isGot' fits accepts later long⟩
    next more =>
      exact ⟨_, rfl, .body header _ isGot' fits accepts later (Nat.lt_of_not_le more)⟩

/-- How the loop ends: a read fails, a length is too long, the peer closes the connection, or
the bytes that have come say so. -/
inductive Ended (flags : UInt8) (calls : Calls) (stream : Bytes) : Turn → Prop where
  | failed (call : Nat) (fails : calls call = none) : Ended flags calls stream .error
  | tooLong (got rest : Bytes) (isStream : stream = got ++ rest) (tooLong : TooLong flags got) :
      Ended flags calls stream .error
  | closed (receiver : Receiver) (phase : Phase flags stream receiver) :
      Ended flags calls stream (.stop receiver)
  | stopped (receiver : Receiver) (got rest : Bytes) (isStream : stream = got ++ rest)
      (ends : Ends flags got receiver) : Ended flags calls stream (.stop receiver)

theorem recvLoop_ended {turns : Nat} (calls : Calls) (phase : Phase flags got receiver)
    (enough : stream.length < turns) :
    ∃ turn, recvLoop flags turns calls stream receiver = some turn ∧
      Ended flags calls (got ++ stream) turn := by
  induction turns generalizing got calls stream receiver with
  | zero => exact absurd enough (Nat.not_lt_zero _)
  | succ turns ih =>
    rw [recvLoop]
    cases isCall : calls 0 with
    | none => exact ⟨_, rfl, .failed 0 isCall⟩
    | some count =>
      dsimp only
      have room := phase.room
      split
      next isEmpty =>
        have isEnd : stream = [] := by
          rcases take_eq_nil_iff.mp isEmpty with isZero | isEnd
          · omega
          · exact isEnd
        rw [isEnd, append_nil]
        exact ⟨_, rfl, .closed receiver phase⟩
      next notEmpty =>
        have room' : (stream.take
            (min (count + 1) (zbxStatBufLen - receiver.bufStatBytes))).length ≤
              zbxStatBufLen - receiver.bufStatBytes :=
          (length_take_le _ _).trans (Nat.min_le_right _ _)
        have whole := prefix_iff_eq_append.mp
          ( take_prefix (min (count + 1) (zbxStatBufLen - receiver.bufStatBytes)) stream)
        revert notEmpty room' whole
        generalize stream.take (min (count + 1) (zbxStatBufLen - receiver.bufStatBytes)) = bytes
        generalize stream.drop bytes.length = rest
        intro notEmpty room' whole
        obtain rfl := whole
        obtain ⟨turn, turned, follows⟩ := recvTurn_follows phase notEmpty (by omega)
        rw [turned, ← append_assoc]
        cases turn with
        | more next =>
          have positive := length_pos_iff.mpr notEmpty
          rw [length_append] at enough
          have later : ∃ turn, recvLoop flags turns calls.next rest next = some turn ∧
              Ended flags calls.next ((got ++ bytes) ++ rest) turn :=
            ih calls.next follows (by omega)
          obtain ⟨turn, looped, ended⟩ := later
          refine ⟨turn, looped, ?_⟩
          cases ended with
          | failed call fails => exact .failed (call + 1) fails
          | tooLong got rest isStream tooLong => exact .tooLong got rest isStream tooLong
          | closed receiver phase => exact .closed receiver phase
          | stopped receiver got rest isStream ends =>
            exact .stopped receiver got rest isStream ends
        | stop next => exact ⟨_, rfl, .stopped next _ rest rfl follows⟩
        | error => exact ⟨_, rfl, .tooLong _ rest rfl follows⟩

end Zabbix.Comms.Reassembly
