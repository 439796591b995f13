import Zabbix.Library.ByteReader

/-!
# Connections of agent 2

`Connection.write` and `Connection.read` over an `io.Writer` and an `io.Reader`.  The compression
is a parameter.
-/

namespace Zabbix.Comms.Connection

open Library.ByteReader List

def headerSize : Nat := 4 + 1 + 4 + 4
def tcpProtocol : UInt8 := 0x01
def zlibCompress : UInt8 := 0x02
def maxRecvDataSize : Nat := 128 * 1048576

/-- The length of the array that the header is read into. -/
def bufferSize : Nat := 2048

/-- The package `compress/zlib`: a writer, and a reader that may find an error. -/
structure Zlib where
  compress : Bytes → Bytes
  uncompress : Bytes → Except String Bytes

def zbxd : Bytes := [0x5a, 0x42, 0x58, 0x44]

def write (zlib : Zlib) (compress : Bool) (data : Bytes) : Bytes :=
  let buf := if compress then zlib.compress data else data
  let flags := if compress then tcpProtocol ||| zlibCompress else tcpProtocol
  zbxd ++ [flags] ++ littleEndian 4 buf.length ++ littleEndian 4 data.length ++ buf

/-- An `io.Reader` over the segments of a stream.  It may return `io.EOF` together with the last
bytes, and returns it by itself after them. -/
structure Reader where
  segments : List Bytes
  eofWithLast : Bool

/-- `r.Read` for a number of bytes: the bytes, whether the error is `io.EOF`, and the reader. -/
def Reader.read (reader : Reader) (len : Nat) : Bytes × Bool × Reader :=
  match reader.segments with
  | [] => ([], true, reader)
  | segment :: segments =>
    let segments := if segment.drop len = [] then segments else segment.drop len :: segments
    (segment.take len, reader.eofWithLast && segments.isEmpty, { reader with segments })

/-- What reads have got from a reader. -/
structure Reads (reader : Reader) (bytes : Bytes) (reader' : Reader) : Prop where
  stream_eq : bytes ++ reader'.segments.flatten = reader.segments.flatten
  nonempty : (∀ segment ∈ reader.segments, segment ≠ []) →
    ∀ segment ∈ reader'.segments, segment ≠ []
  eofWithLast_eq : reader'.eofWithLast = reader.eofWithLast

theorem Reads.refl (reader : Reader) : Reads reader [] reader :=
  ⟨rfl, id, rfl⟩

theorem Reads.trans {reader middle reader' : Reader} {first second : Bytes}
    (reads : Reads reader first middle) (more : Reads middle second reader') :
    Reads reader (first ++ second) reader' :=
  ⟨by rw [append_assoc, more.stream_eq, reads.stream_eq],
    fun nonempty => more.nonempty (reads.nonempty nonempty),
    more.eofWithLast_eq.trans reads.eofWithLast_eq⟩

theorem Reader.read_reads (reader : Reader) (len : Nat) :
    Reads reader (reader.read len).1 (reader.read len).2.2 := by
  obtain ⟨segments, eofWithLast⟩ := reader
  cases segments with
  | nil => exact Reads.refl _
  | cons segment segments =>
    rw [Reader.read]
    refine ⟨?_, fun nonempty => ?_, rfl⟩
    · simp only
      split_ifs with isDone
      · rw [take_of_length_le (drop_eq_nil_iff.mp isDone), flatten_cons]
      · rw [flatten_cons, ← append_assoc, take_append_drop, flatten_cons]
    · obtain ⟨isSegment, nonempty⟩ := forall_mem_cons.mp nonempty
      simp only
      split_ifs with isDone
      · exact nonempty
      · exact forall_mem_cons.mpr ⟨isDone, nonempty⟩

/-- The loop over reads into the array, of which the first bytes have been filled. -/
def headerLoop (s : Bytes) (reader : Reader) : Bytes × Reader :=
  if s.length < headerSize then
    let result := reader.read (bufferSize - s.length)
    if _ : result.1 = [] then (s, result.2.2) else headerLoop (s ++ result.1) result.2.2
  else (s, reader)
termination_by headerSize - s.length
decreasing_by
  have isLonger := length_pos_iff.mpr ‹¬(reader.read (bufferSize - s.length)).1 = []›
  rw [length_append]
  omega

/-- The loop over reads into a buffer one byte larger than announced. -/
def bodyLoop (expectedSize : Nat) (s : Bytes) (reader : Reader) : Except String Bytes × Reader :=
  if s.length < expectedSize then
    let result := reader.read (expectedSize + 1 - s.length)
    if result.2.1 then (.error "EOF", result.2.2)
    else if _ : result.1 = [] then (.ok s, result.2.2)
    else bodyLoop expectedSize (s ++ result.1) result.2.2
  else (.ok s, reader)
termination_by expectedSize - s.length
decreasing_by
  have isLonger :=
    length_pos_iff.mpr ‹¬(reader.read (expectedSize + 1 - s.length)).1 = []›
  rw [length_append]
  omega

def uncompress (zlib : Zlib) (data : Bytes) (expLen : Nat) : Except String Bytes :=
  match zlib.uncompress data with
  | .error err => .error ("Unable to uncompress message: '" ++ err ++ "'")
  | .ok bytes =>
    if bytes.length ≠ expLen then
      .error ("Uncompressed message size " ++ toString bytes.length ++ " instead of expected " ++
        toString expLen ++ ".")
    else .ok bytes

def decode (zlib : Zlib) (flags : UInt8) (reservedSize : Nat) (body : Bytes) :
    Except String Bytes :=
  if flags &&& zlibCompress ≠ 0 then uncompress zlib body reservedSize else .ok body

def announcedSize (s : Bytes) : Nat :=
  ofLittleEndian ((s.drop 5).take 4)

/-- `Connection.read` after the loop over the header, with the reader after it. -/
def readMessage (zlib : Zlib) (s : Bytes) (reader : Reader) : Except String Bytes × Reader :=
  if s.length < 13 then
    (if s.length = 0 then .ok [] else .error "Message is missing header.", reader)
  else if s.take 4 ≠ zbxd then (.error "Message is using unsupported protocol.", reader)
  else
    let flags := (s.drop 4).headD 0
    if flags &&& tcpProtocol = 0 then
      (.error "Message is using unsupported protocol version.", reader)
    else
      let expectedSize := announcedSize s
      let reservedSize := ofLittleEndian ((s.drop 9).take 4)
      if maxRecvDataSize < expectedSize then
        (.error ("Message size " ++ toString expectedSize ++ " exceeds the maximum size " ++
          toString maxRecvDataSize ++ " bytes."), reader)
      else if expectedSize < s.length - headerSize then
        (.error "Message is longer than expected.", reader)
      else if expectedSize = s.length - headerSize then
        (decode zlib flags reservedSize (s.drop headerSize), reader)
      else
        match bodyLoop expectedSize (s.drop headerSize) reader with
        | (.error err, reader) => (.error err, reader)
        | (.ok body, reader) =>
          if body.length ≠ expectedSize then
            (.error "Message size is shorted or longer than expected.", reader)
          else (decode zlib flags reservedSize body, reader)

def read (zlib : Zlib) (pending : Bytes) (reader : Reader) : Except String Bytes × Reader :=
  if bufferSize < pending.length then (.error "pending data exceeds limit of 2KB bytes", reader)
  else readMessage zlib (headerLoop pending reader).1 (headerLoop pending reader).2

/-! ## Loops -/

variable {s : Bytes} {reader : Reader} {len expectedSize : Nat}

theorem Reader.read_nil (hasRoom : 0 < len) (nonempty : ∀ segment ∈ reader.segments, segment ≠ [])
    (isNil : (reader.read len).1 = []) : reader.segments = [] ∧ (reader.read len).2.2 = reader := by
  obtain ⟨segments, eofWithLast⟩ := reader
  cases segments with
  | nil => exact ⟨rfl, rfl⟩
  | cons segment segments =>
    obtain isZero | isEmpty := take_eq_nil_iff.mp isNil
    · omega
    · exact absurd isEmpty (nonempty segment mem_cons_self)

theorem Reader.read_eof (reader : Reader) (endsAlone : reader.eofWithLast = false)
    (isEof : (reader.read len).2.1 = true) : reader.segments = [] := by
  obtain ⟨segments, eofWithLast⟩ := reader
  cases segments with
  | nil => rfl
  | cons segment segments =>
    rw [show eofWithLast = false from endsAlone] at isEof
    cases isEof

theorem headerLoop_reads (s : Bytes) (reader : Reader)
    (nonempty : ∀ segment ∈ reader.segments, segment ≠ []) :
    ∃ bytes, (headerLoop s reader).1 = s ++ bytes ∧ Reads reader bytes (headerLoop s reader).2 ∧
      (headerSize ≤ (headerLoop s reader).1.length ∨ (headerLoop s reader).2.segments = []) := by
  induction s, reader using headerLoop.induct with
  | case1 s reader isShort result isNil =>
    rw [headerLoop, if_pos isShort]
    simp only
    rw [dif_pos isNil]
    have hasRoom : 0 < bufferSize - s.length :=
      Nat.sub_pos_of_lt (isShort.trans (by decide))
    obtain ⟨isDone, same⟩ := Reader.read_nil hasRoom nonempty isNil
    rw [same]
    exact ⟨[], (append_nil s).symm, .refl reader, Or.inr isDone⟩
  | case2 s reader isShort result isData ih =>
    rw [headerLoop, if_pos isShort]
    simp only
    rw [dif_neg isData]
    have reads := reader.read_reads (bufferSize - s.length)
    obtain ⟨bytes, isAppend, more, isEnd⟩ := ih (reads.nonempty nonempty)
    exact ⟨result.1 ++ bytes, by rw [isAppend, append_assoc], reads.trans more, isEnd⟩
  | case3 s reader isLong =>
    rw [headerLoop, if_neg isLong]
    exact ⟨[], (append_nil s).symm, .refl reader, Or.inl (Nat.le_of_not_lt isLong)⟩

theorem bodyLoop_reads (expectedSize : Nat) (s : Bytes) (reader : Reader) :
    ∃ bytes, Reads reader bytes (bodyLoop expectedSize s reader).2 ∧
      ∀ body, (bodyLoop expectedSize s reader).1 = .ok body → body = s ++ bytes := by
  induction s, reader using bodyLoop.induct expectedSize with
  | case1 s reader isShort result isEof =>
    rw [bodyLoop, if_pos isShort]
    simp only
    rw [if_pos isEof]
    exact ⟨_, reader.read_reads _, nofun⟩
  | case2 s reader isShort result notEof isNil =>
    rw [bodyLoop, if_pos isShort]
    simp only
    rw [if_neg notEof, dif_pos isNil]
    refine ⟨_, reader.read_reads _, fun body isBody => ?_⟩
    obtain rfl := Except.ok.inj isBody
    rw [isNil, append_nil]
  | case3 s reader isShort result notEof isData ih =>
    rw [bodyLoop, if_pos isShort]
    simp only
    rw [if_neg notEof, dif_neg isData]
    obtain ⟨bytes, more, isBody⟩ := ih
    refine ⟨_, (reader.read_reads _).trans more, fun body isOk => ?_⟩
    rw [isBody body isOk, append_assoc]
  | case4 s reader isLong =>
    rw [bodyLoop, if_neg isLong]
    refine ⟨[], .refl reader, fun body isBody => ?_⟩
    obtain rfl := Except.ok.inj isBody
    exact (append_nil s).symm

theorem bodyLoop_whole (expectedSize : Nat) (s : Bytes) (reader : Reader)
    (nonempty : ∀ segment ∈ reader.segments, segment ≠ []) (endsAlone : reader.eofWithLast = false)
    (isWhole : s.length + reader.segments.flatten.length = expectedSize) :
    (bodyLoop expectedSize s reader).1 = .ok (s ++ reader.segments.flatten) := by
  induction s, reader using bodyLoop.induct expectedSize with
  | case1 s reader isShort result isEof =>
    have isDone := reader.read_eof endsAlone isEof
    rw [isDone, flatten_nil, length_nil] at isWhole
    omega
  | case2 s reader isShort result notEof isNil =>
    obtain ⟨isDone, -⟩ := Reader.read_nil (by omega) nonempty isNil
    rw [isDone, flatten_nil, length_nil] at isWhole
    omega
  | case3 s reader isShort result notEof isData ih =>
    have reads := reader.read_reads (expectedSize + 1 - s.length)
    rw [bodyLoop, if_pos isShort]
    simp only
    rw [if_neg notEof, dif_neg isData, ← reads.stream_eq, ← append_assoc]
    refine ih (reads.nonempty nonempty) (reads.eofWithLast_eq.trans endsAlone) ?_
    rw [← isWhole, ← reads.stream_eq, length_append, length_append, Nat.add_assoc]
  | case4 s reader isLong =>
    have isEnd : reader.segments.flatten = [] := length_eq_zero_iff.mp (by omega)
    rw [bodyLoop, if_neg isLong, isEnd, append_nil]

/-! ## Accepted messages -/

variable {zlib : Zlib} {pending stream : Bytes}

theorem announcedSize_append {rest : Bytes} (isLong : headerSize ≤ s.length) :
    announcedSize (s ++ rest) = announcedSize s := by
  rw [headerSize] at isLong
  rw [announcedSize, announcedSize, drop_append_of_le_length (by omega),
    take_append_of_le_length (by rw [length_drop]; omega)]

theorem readMessage_accepts (isOk : (readMessage zlib s reader).1.isOk = true) :
    s = [] ∨ ∃ bytes, Reads reader bytes (readMessage zlib s reader).2 ∧
      headerSize ≤ s.length ∧ announcedSize s = (s ++ bytes).length - headerSize := by
  rw [readMessage] at isOk ⊢
  by_cases isMissing : s.length < 13
  · rw [if_pos isMissing] at isOk
    simp only at isOk
    split_ifs at isOk with isEmpty
    · exact Or.inl (length_eq_zero_iff.mp isEmpty)
    · cases isOk
  · rw [if_neg isMissing] at isOk ⊢
    have isHeader : headerSize ≤ s.length := Nat.le_of_not_lt isMissing
    simp only at isOk ⊢
    split_ifs at isOk ⊢ with isOther isVersion isLarge isLonger isWhole
    · cases isOk
    · cases isOk
    · cases isOk
    · cases isOk
    · exact Or.inr ⟨[], .refl reader, isHeader, by rwa [append_nil]⟩
    · obtain ⟨bytes, reads, body_eq⟩ :=
        bodyLoop_reads (announcedSize s) (s.drop headerSize) reader
      generalize bodyLoop (announcedSize s) (s.drop headerSize) reader = result at *
      obtain ⟨result, reader'⟩ := result
      cases result with
      | error err => cases isOk
      | ok body =>
        simp only at isOk reads ⊢
        split_ifs at isOk ⊢ with isOtherSize
        · cases isOk
        · refine Or.inr ⟨bytes, reads, isHeader, ?_⟩
          rw [not_not.mp isOtherSize |>.symm, body_eq body rfl, length_append,
            length_append, length_drop]
          omega

theorem read_accepts (nonempty : ∀ segment ∈ reader.segments, segment ≠ [])
    (isOk : (read zlib pending reader).1.isOk = true) :
    pending ++ reader.segments.flatten = [] ∨
      ∃ bytes, Reads reader bytes (read zlib pending reader).2 ∧
        headerSize ≤ (pending ++ bytes).length ∧
        announcedSize (pending ++ bytes) = (pending ++ bytes).length - headerSize := by
  obtain ⟨bytes, isAppend, reads, isEnd⟩ := headerLoop_reads pending reader nonempty
  rw [read] at isOk ⊢
  split_ifs at isOk ⊢ with isLong
  · cases isOk
  · obtain isNil | ⟨more, readsMore, isHeader, isSize⟩ := readMessage_accepts isOk
    · refine Or.inl ?_
      obtain tooLong | isDone := isEnd
      · rw [isNil] at tooLong
        cases tooLong
      · rw [isNil] at isAppend
        obtain ⟨rfl, rfl⟩ := append_eq_nil_iff.mp isAppend.symm
        rw [← reads.stream_eq, isDone]
        rfl
    · refine Or.inr ⟨bytes ++ more, reads.trans readsMore, ?_, ?_⟩
      · rw [← append_assoc, ← isAppend, length_append]
        omega
      · rw [← append_assoc, ← isAppend, announcedSize_append isHeader]
        exact isSize

/-! ## Written messages -/

variable {compress : Bool} {payload : Bytes}

def writtenBody (zlib : Zlib) (compress : Bool) (payload : Bytes) : Bytes :=
  if compress then zlib.compress payload else payload

def writtenFlags (compress : Bool) : UInt8 :=
  if compress then tcpProtocol ||| zlibCompress else tcpProtocol

def writtenHeader (flags : UInt8) (size reserved : Nat) : Bytes :=
  zbxd ++ [flags] ++ littleEndian 4 size ++ littleEndian 4 reserved

theorem write_eq : write zlib compress payload =
    writtenHeader (writtenFlags compress) (writtenBody zlib compress payload).length
      payload.length ++ writtenBody zlib compress payload :=
  rfl

variable {flags : UInt8} {size reserved : Nat} {part : Bytes}

theorem length_writtenHeader (flags : UInt8) (size reserved : Nat) :
    (writtenHeader flags size reserved).length = headerSize := by
  simp only [writtenHeader, length_append, length_littleEndian]
  rfl

theorem drop_writtenHeader : (writtenHeader flags size reserved ++ part).drop 5 =
    littleEndian 4 size ++ (littleEndian 4 reserved ++ part) := by
  rw [writtenHeader, append_assoc, append_assoc]
  rfl

theorem announcedSize_written (fits : size ≤ maxRecvDataSize) :
    announcedSize (writtenHeader flags size reserved ++ part) = size := by
  rw [announcedSize, drop_writtenHeader, take_left' (length_littleEndian 4 size)]
  exact ofLittleEndian_littleEndian (fits.trans_lt (by decide))

theorem reservedSize_written (fits : reserved ≤ maxRecvDataSize) :
    ofLittleEndian (((writtenHeader flags size reserved ++ part).drop 9).take 4) = reserved := by
  rw [show 9 = 5 + 4 from rfl, ← drop_drop, drop_writtenHeader,
    drop_left' (length_littleEndian 4 size),
    take_left' (length_littleEndian 4 reserved)]
  exact ofLittleEndian_littleEndian (fits.trans_lt (by decide))

theorem eq_header_append {header body rest : Bytes} (isLong : header.length ≤ s.length)
    (isMessage : s ++ rest = header ++ body) :
    ∃ part, s = header ++ part ∧ part ++ rest = body := by
  obtain ⟨part, isHeader, isRest⟩ | ⟨part, isHeader, isBody⟩ :=
    append_eq_append_iff.mp isMessage
  · have isNil : part = [] := by
      have sameLength := congrArg List.length isHeader
      rw [length_append] at sameLength
      exact length_eq_zero_iff.mp (by omega)
    subst isNil
    rw [append_nil] at isHeader
    exact ⟨[], by rw [isHeader, append_nil], isRest⟩
  · exact ⟨part, isHeader, isBody.symm⟩

theorem decode_written (inverts : ∀ data, zlib.uncompress (zlib.compress data) = .ok data) :
    decode zlib (writtenFlags compress) payload.length (writtenBody zlib compress payload) =
      .ok payload := by
  cases compress with
  | false => rfl
  | true =>
    rw [decode, if_pos (by decide), uncompress, writtenBody, if_pos rfl, inverts]
    exact if_neg (not_not.mpr rfl)

theorem readMessage_written (isSmall : payload.length ≤ maxRecvDataSize)
    (fits : (writtenBody zlib compress payload).length ≤ maxRecvDataSize)
    (inverts : ∀ data, zlib.uncompress (zlib.compress data) = .ok data)
    (isPart : part ++ reader.segments.flatten = writtenBody zlib compress payload)
    (nonempty : ∀ segment ∈ reader.segments, segment ≠ [])
    (ends : reader.eofWithLast = false ∨ reader.segments = []) :
    (readMessage zlib
      (writtenHeader (writtenFlags compress) (writtenBody zlib compress payload).length
        payload.length ++ part) reader).1 = .ok payload := by
  have size_eq := @announcedSize_written (writtenFlags compress) _ payload.length part fits
  have reserved_eq := @reservedSize_written (writtenFlags compress)
    (writtenBody zlib compress payload).length _ part isSmall
  have flags_eq : ((writtenHeader (writtenFlags compress)
      (writtenBody zlib compress payload).length payload.length ++ part).drop 4).headD 0 =
        writtenFlags compress := rfl
  have isVersion : writtenFlags compress &&& tcpProtocol ≠ 0 := by
    cases compress <;> decide
  have isDecoded := @decode_written zlib compress payload inverts
  have isZbxd : (writtenHeader (writtenFlags compress)
      (writtenBody zlib compress payload).length payload.length ++ part).take 4 = zbxd := rfl
  have length_eq := length_writtenHeader (writtenFlags compress)
    (writtenBody zlib compress payload).length payload.length
  have body_eq := @drop_left' _ _ part _ length_eq
  have whole_eq := congrArg List.length isPart
  generalize writtenHeader (writtenFlags compress) (writtenBody zlib compress payload).length
    payload.length = header at *
  rw [length_append] at whole_eq
  have part_eq : (header ++ part).length - headerSize = part.length := by
    rw [length_append, length_eq, Nat.add_sub_cancel_left]
  have isLong : ¬(header ++ part).length < 13 := by
    rw [length_append, length_eq, headerSize]
    omega
  rw [readMessage, if_neg isLong, if_neg (not_not.mpr isZbxd)]
  simp only
  rw [flags_eq, if_neg isVersion, size_eq, if_neg (Nat.not_lt.mpr fits), reserved_eq, part_eq,
    if_neg (by omega), body_eq]
  by_cases isWhole : (writtenBody zlib compress payload).length = part.length
  · have isEnd : reader.segments.flatten = [] := length_eq_zero_iff.mp (by omega)
    rw [if_pos isWhole]
    rw [isEnd, append_nil] at isPart
    rw [isPart]
    exact isDecoded
  · have endsAlone : reader.eofWithLast = false := by
      refine ends.resolve_right fun isDone => isWhole ?_
      rw [isDone, flatten_nil, append_nil] at isPart
      rw [isPart]
    have isRead := bodyLoop_whole _ part reader nonempty endsAlone whole_eq
    rw [isPart] at isRead
    rw [if_neg isWhole]
    generalize bodyLoop (writtenBody zlib compress payload).length part reader = result at *
    obtain ⟨result, reader'⟩ := result
    obtain rfl : result = _ := isRead
    simp only
    rw [if_neg (not_not.mpr rfl)]
    exact isDecoded

/-- What a connection makes of the messages that another one has written.  A reader that returns
the end with the last bytes has to bring the whole message with the header. -/
structure Frames (zlib : Zlib) (compress : Bool) (payload : Bytes) : Prop where
  whole : ∀ pending reader, pending.length ≤ bufferSize →
    (∀ segment ∈ reader.segments, segment ≠ []) →
    pending ++ reader.segments.flatten = write zlib compress payload →
    (reader.eofWithLast = false ∨ (headerLoop pending reader).2.segments = []) →
    (read zlib pending reader).1 = .ok payload
  empty : ∀ eofWithLast, (read zlib [] { segments := [], eofWithLast }).1 = .ok []
  truncated : ∀ pending reader, (∀ segment ∈ reader.segments, segment ≠ []) →
    pending ++ reader.segments.flatten <+: write zlib compress payload →
    pending ++ reader.segments.flatten ≠ write zlib compress payload →
    pending ++ reader.segments.flatten ≠ [] → (read zlib pending reader).1.isOk = false
  longer : ∀ pending reader extra, (∀ segment ∈ reader.segments, segment ≠ []) →
    pending ++ reader.segments.flatten = write zlib compress payload ++ extra →
    (read zlib pending reader).2.segments.flatten.length < extra.length →
    (read zlib pending reader).1.isOk = false

theorem read_empty (zlib : Zlib) (eofWithLast : Bool) :
    (read zlib [] { segments := [], eofWithLast }).1 = .ok [] := by
  have isLoop : headerLoop [] { segments := [], eofWithLast } =
      ([], { segments := [], eofWithLast }) := by
    rw [headerLoop]
    rfl
  rw [read, isLoop]
  rfl

theorem read_whole (inverts : ∀ data, zlib.uncompress (zlib.compress data) = .ok data)
    (isSmall : payload.length ≤ maxRecvDataSize)
    (fits : (writtenBody zlib compress payload).length ≤ maxRecvDataSize)
    (isPending : pending.length ≤ bufferSize)
    (nonempty : ∀ segment ∈ reader.segments, segment ≠ [])
    (isMessage : pending ++ reader.segments.flatten = write zlib compress payload)
    (ends : reader.eofWithLast = false ∨ (headerLoop pending reader).2.segments = []) :
    (read zlib pending reader).1 = .ok payload := by
  obtain ⟨bytes, isAppend, reads, isEnd⟩ := headerLoop_reads pending reader nonempty
  have length_eq := length_writtenHeader (writtenFlags compress)
    (writtenBody zlib compress payload).length payload.length
  rw [← reads.stream_eq, ← append_assoc, ← isAppend, write_eq] at isMessage
  rw [read, if_neg (Nat.not_lt.mpr isPending)]
  have isLong : headerSize ≤ (headerLoop pending reader).1.length := by
    obtain isLong | isDone := isEnd
    · exact isLong
    · rw [isDone, flatten_nil, append_nil] at isMessage
      rw [isMessage, length_append, length_eq]
      omega
  obtain ⟨part, isHeader, isPart⟩ := eq_header_append (length_eq ▸ isLong) isMessage
  rw [isHeader]
  exact readMessage_written isSmall fits inverts isPart (reads.nonempty nonempty)
    (ends.imp_left reads.eofWithLast_eq.trans)

/-- An accepted stream that agrees with a written message has been read to its end. -/
theorem length_of_accepts (fits : (writtenBody zlib compress payload).length ≤ maxRecvDataSize)
    {rest rest' : Bytes} (isHeader : headerSize ≤ s.length)
    (isAnnounced : announcedSize s = s.length - headerSize)
    (same : s ++ rest = write zlib compress payload ++ rest') :
    s.length = (write zlib compress payload).length := by
  have length_eq := length_writtenHeader (writtenFlags compress)
    (writtenBody zlib compress payload).length payload.length
  rw [write_eq, append_assoc] at same
  obtain ⟨part, rfl, -⟩ := eq_header_append (length_eq ▸ isHeader) same
  rw [announcedSize_written fits, length_append, length_eq] at isAnnounced
  rw [write_eq, length_append, length_append, length_eq]
  omega

/-- Written messages are read back whole, and neither less nor more is accepted. -/
theorem read_frames (zlib : Zlib)
    (inverts : ∀ data, zlib.uncompress (zlib.compress data) = .ok data) (compress : Bool)
    (payload : Bytes) (isSmall : payload.length ≤ maxRecvDataSize)
    (fits : (writtenBody zlib compress payload).length ≤ maxRecvDataSize) :
    Frames zlib compress payload where
  whole pending reader isPending nonempty isMessage ends :=
    read_whole inverts isSmall fits isPending nonempty isMessage ends
  empty := read_empty zlib
  truncated := by
    rintro pending reader nonempty ⟨rest, isMessage⟩ isShort isSome
    rw [← Bool.not_eq_true]
    intro isOk
    obtain isNil | ⟨bytes, reads, isHeader, isAnnounced⟩ := read_accepts nonempty isOk
    · exact isSome isNil
    · rw [← reads.stream_eq, ← append_assoc] at isMessage isShort
      have same := isMessage.trans (append_nil _).symm
      rw [append_assoc] at same
      have sameLength := congrArg List.length same
      rw [length_append, length_of_accepts fits isHeader isAnnounced same, append_nil] at sameLength
      have isNil : (read zlib pending reader).2.segments.flatten ++ rest = [] :=
        length_eq_zero_iff.mp (by omega)
      obtain ⟨-, rfl⟩ := append_eq_nil_iff.mp isNil
      rw [append_nil] at isMessage
      exact isShort isMessage
  longer := by
    intro pending reader extra nonempty isMessage isMore
    rw [← Bool.not_eq_true]
    intro isOk
    obtain isNil | ⟨bytes, reads, isHeader, isAnnounced⟩ := read_accepts nonempty isOk
    · rw [isMessage, write_eq] at isNil
      have length_zero := congrArg List.length isNil
      rw [append_assoc, length_append, length_writtenHeader, headerSize, length_nil] at length_zero
      omega
    · rw [← reads.stream_eq, ← append_assoc] at isMessage
      have sameLength := congrArg List.length isMessage
      rw [length_append, length_of_accepts fits isHeader isAnnounced isMessage,
        length_append] at sameLength
      omega

def emptyStream : Bytes :=
  [0x78, 0x9c, 0x01, 0x00, 0x00, 0xff, 0xff, 0x00, 0x00, 0x00, 0x01]

/-- A compression that does to the empty stream what the package does. -/
def zlibOfEmpty : Zlib where
  compress data := if data = [] then emptyStream else 0 :: data
  uncompress data :=
    if data = emptyStream then .ok []
    else match data with
      | 0 :: data => .ok data
      | _ => .error "zlib: invalid header"

theorem zlibOfEmpty_inverts (data : Bytes) :
    zlibOfEmpty.uncompress (zlibOfEmpty.compress data) = .ok data := by
  simp only [zlibOfEmpty]
  by_cases isEmpty : data = []
  · rw [if_pos isEmpty, if_pos rfl, isEmpty]
  · rw [if_neg isEmpty, if_neg (by simp [emptyStream])]
    rfl

theorem read_frames_empty : Frames zlibOfEmpty true [] :=
  read_frames zlibOfEmpty zlibOfEmpty_inverts true [] (Nat.zero_le _) (by decide)

/-- The last byte is returned with `io.EOF` when the body is read. -/
def eofReader : Reader where
  segments := [(write zlibOfEmpty false [1, 2]).take 14, [2]]
  eofWithLast := true

/-- A message whose last bytes come with the end is refused, and the stream of no bytes is not. -/
theorem not_read_frames :
    (¬∀ zlib : Zlib, (∀ data, zlib.uncompress (zlib.compress data) = .ok data) →
      ∀ compress payload, payload.length ≤ maxRecvDataSize →
        (writtenBody zlib compress payload).length ≤ maxRecvDataSize →
        ∀ pending reader, pending.length ≤ 1 → (∀ segment ∈ reader.segments, segment ≠ []) →
          pending ++ reader.segments.flatten = write zlib compress payload →
          (read zlib pending reader).1 = .ok payload) ∧
      ¬∀ zlib : Zlib, (∀ data, zlib.uncompress (zlib.compress data) = .ok data) →
        ∀ compress payload, payload.length ≤ maxRecvDataSize →
          (writtenBody zlib compress payload).length ≤ maxRecvDataSize →
          ∀ pending reader, pending.length ≤ 1 → (∀ segment ∈ reader.segments, segment ≠ []) →
            pending ++ reader.segments.flatten <+: write zlib compress payload →
            pending ++ reader.segments.flatten ≠ write zlib compress payload →
            (read zlib pending reader).1.isOk = false := by
  constructor
  · intro whole
    have isRead := whole zlibOfEmpty zlibOfEmpty_inverts false [1, 2] (by decide) (by decide) []
      eofReader (by decide) (by decide) (by decide)
    have isLoop : headerLoop [] eofReader =
        ((write zlibOfEmpty false [1, 2]).take 14, { segments := [[2]], eofWithLast := true }) := by
      rw [headerLoop, if_pos (by decide)]
      simp only
      rw [dif_neg (by decide), headerLoop, if_neg (by decide)]
      rfl
    have isEof : bodyLoop 2 [1] { segments := [[2]], eofWithLast := true } =
        (.error "EOF", { segments := [], eofWithLast := true }) := by
      rw [bodyLoop]
      rfl
    have isError : readMessage zlibOfEmpty ((write zlibOfEmpty false [1, 2]).take 14)
        { segments := [[2]], eofWithLast := true } =
          (.error "EOF", { segments := [], eofWithLast := true }) := by
      have isAnnounced : announcedSize ((write zlibOfEmpty false [1, 2]).take 14) = 2 := by decide
      have isDropped : ((write zlibOfEmpty false [1, 2]).take 14).drop headerSize = [1] := by decide
      rw [readMessage, if_neg (by decide), if_neg (by decide)]
      simp only
      rw [if_neg (by decide), if_neg (by decide), if_neg (by decide), if_neg (by decide),
        isAnnounced, isDropped, isEof]
    rw [read, if_neg (by decide), isLoop, isError] at isRead
    cases isRead
  · intro truncated
    have isRefused := truncated zlibOfEmpty zlibOfEmpty_inverts false [] (by decide) (by decide) []
      { segments := [], eofWithLast := false } (by decide) (by decide) nil_prefix (by decide)
    rw [read_empty] at isRefused
    cases isRefused

end Zabbix.Comms.Connection
