import Zabbix.Comms.Packets
import Zabbix.Common.Text

/-!
# Receiving lines

`zbx_tcp_recv_line`.  The stream comes in segments, and a read gets what is there of the first one;
the peer has closed the connection after the last segment.  A buffer is the text in it from
`next_line` on, and a write outside the static buffer gives nothing.
-/

namespace Zabbix.Comms.Lines

open Common.Text Receiving List Option

def zbxTcpLineLen : Nat := 64 * 1024

/-- The socket: what the buffer holds from `next_line` on, and the segments that are to come. -/
structure LineSocket where
  nextLine : Option Text
  segments : List Text

/-- `ZBX_TCP_READ` -/
def tcpRead (len : Nat) : List Text → Text × List Text
  | [] => ([], [])
  | segment :: segments =>
    (segment.take len,
      if segment.drop len = [] then segments else segment.drop len :: segments)

/-- A line without the carriage return before its end. -/
def cutReturn (line : Text) : Text :=
  if line.getLast? = some '\r' then line.dropLast else line

/-- `zbx_socket_find_line`: the line, and what is behind it. -/
def socketFindLine (nextLine : Text) : Option (Text × Text) :=
  match nextLine.dropWhile (· ≠ '\n') with
  | [] => none
  | _ :: rest => some (cutReturn (nextLine.takeWhile (· ≠ '\n')), rest)

/-- What the dynamic buffer and `read_bytes` become by the data of one read. -/
def fillBuffer (buffer : Text) (readBytes lineLength : Nat) (data : Text) : Text × Nat :=
  let ptr := data.dropWhile (· ≠ '\n')
  if readBytes + data.length < zbxTcpLineLen ∧ readBytes = lineLength then
    (buffer ++ data, readBytes + data.length)
  else
    let left :=
      if ptr = [] then zbxTcpLineLen - readBytes
      else min (zbxTcpLineLen - readBytes) (data.length - ptr.length)
    -- truncate the line by skipping data until the newline
    (buffer ++ data.take left ++ ptr, readBytes + left + ptr.length)

theorem tcpRead_flatten (len : Nat) (segments : List Text) :
    (tcpRead len segments).1 ++ (tcpRead len segments).2.flatten = segments.flatten := by
  cases segments with
  | nil => rfl
  | cons segment segments =>
    rw [tcpRead]
    split_ifs with isEmpty
    · rw [take_of_length_le (drop_eq_nil_iff.mp isEmpty), flatten_cons]
    · rw [flatten_cons, ← append_assoc, take_append_drop, flatten_cons]

/-- The loop that reads data into the dynamic buffer until a newline has been found. -/
def dynamicLoop (buffer : Text) (readBytes lineLength : Nat) (segments : List Text) :
    Option Text × LineSocket :=
  let data := (tcpRead (zbxStatBufLen - 1) segments).1
  let segments' := (tcpRead (zbxStatBufLen - 1) segments).2
  if _ : data = [] then
    -- socket was closed before newline was found, just return the data we have
    (if readBytes ≠ 0 then some buffer else none,
      { nextLine := some (buffer.drop readBytes), segments := segments' })
  else
    let filled := fillBuffer buffer readBytes lineLength data
    if '\n' ∉ data then dynamicLoop filled.1 filled.2 (lineLength + data.length) segments'
    else
      match socketFindLine filled.1 with
      | some (line, rest) => (some line, { nextLine := some rest, segments := segments' })
      | none => (none, { nextLine := some filled.1, segments := segments' })
termination_by segments.flatten.length
decreasing_by
  have whole := congrArg List.length (tcpRead_flatten (zbxStatBufLen - 1) segments)
  have isLonger := length_pos_iff.mpr ‹¬(tcpRead (zbxStatBufLen - 1) segments).1 = []›
  rw [length_append] at whole
  omega

/-- `zbx_tcp_recv_line`, which is undefined when the data that is kept does not fit. -/
def tcpRecvLine (socket : LineSocket) : Option (Option Text × LineSocket) :=
  match socket.nextLine.bind socketFindLine with
  | some (line, rest) => some (some line, { socket with nextLine := some rest })
  | none =>
    let left := socket.nextLine.getD []
    if zbxStatBufLen < left.length + 1 then none
    else
      -- read more data into static buffer
      let (data, segments) := tcpRead (zbxStatBufLen - left.length - 1) socket.segments
      if data = [] then
        some (if left ≠ [] then some left else none, { nextLine := some [], segments })
      else
        match socketFindLine (left ++ data) with
        | some (line, rest) => some (some line, { nextLine := some rest, segments })
        | none =>
          some (dynamicLoop (left ++ data) (left ++ data).length (left ++ data).length segments)

/-- What one of the successive calls returns. -/
def recvLineAt : Nat → LineSocket → Option (Option Text)
  | 0, socket => (tcpRecvLine socket).map (·.1)
  | call + 1, socket => (tcpRecvLine socket).bind fun (_, socket) => recvLineAt call socket

/-! ## Lines of a stream -/

/-- The lines of a stream, each of which ends with a newline, and the rest behind them. -/
structure IsLines (stream : Text) (lines : List Text) (rest : Text) : Prop where
  stream_eq : stream = (lines.map (· ++ ['\n'])).flatten ++ rest
  lines_noNewline : ∀ line ∈ lines, '\n' ∉ line
  rest_noNewline : '\n' ∉ rest

/-- The rest is a line of its own when there is any. -/
def unterminated (rest : Text) : List Text :=
  if rest = [] then [] else [rest.take zbxTcpLineLen]

/-- Every line without the carriage return before its end, up to the longest length. -/
def expectedLines (lines : List Text) (rest : Text) : List Text :=
  lines.map (fun line => (cutReturn line).take zbxTcpLineLen) ++ unterminated rest

/-- Every line up to the longest length, without a carriage return at its end. -/
def returnedLines (lines : List Text) (rest : Text) : List Text :=
  lines.map (fun line => cutReturn (line.take zbxTcpLineLen)) ++ unterminated rest

/-- What a call takes from a stream. -/
inductive Yields : Text → Option Text → Text → Prop
  | line {line : Text} (noNewline : '\n' ∉ line) (rest : Text) :
      Yields (line ++ '\n' :: rest) (some (cutReturn (line.take zbxTcpLineLen))) rest
  | rest {rest : Text} (noNewline : '\n' ∉ rest) (isRest : rest ≠ []) :
      Yields rest (some (rest.take zbxTcpLineLen)) []
  | closed : Yields [] none []

/-- A socket from which a stream is to be read.  What is kept leaves room in the static buffer. -/
structure Ready (socket : LineSocket) (stream : Text) : Prop where
  pending : socket.nextLine.getD [] ++ socket.segments.flatten = stream
  fits : (socket.nextLine.getD []).length + 1 < zbxStatBufLen
  nonempty : ∀ segment ∈ socket.segments, segment ≠ []

variable {line rest content data buffer stream : Text} {segments : List Text} {len : Nat}

variable (noNewline : '\n' ∉ line)

include noNewline

theorem isOther_of_noNewline :
    ∀ char ∈ line, decide (char ≠ '\n') = true := by
  intro char isIn
  rw [decide_eq_true_eq]
  rintro rfl
  exact noNewline isIn

theorem dropWhile_line (rest : Text) :
    (line ++ '\n' :: rest).dropWhile (· ≠ '\n') = '\n' :: rest := by
  rw [dropWhile_append_of_pos (isOther_of_noNewline noNewline), dropWhile_cons_of_neg (by simp)]

theorem dropWhile_noNewline : line.dropWhile (· ≠ '\n') = [] :=
  dropWhile_eq_nil_iff.mpr (isOther_of_noNewline noNewline)

theorem socketFindLine_line (rest : Text) :
    socketFindLine (line ++ '\n' :: rest) = some (cutReturn line, rest) := by
  rw [socketFindLine, dropWhile_line noNewline]
  simp only
  rw [takeWhile_append_of_pos (isOther_of_noNewline noNewline),
    takeWhile_cons_of_neg (by simp), append_nil]

theorem socketFindLine_noNewline : socketFindLine line = none := by
  rw [socketFindLine, dropWhile_noNewline noNewline]

omit noNewline

/-- A read gets something while there is something, and leaves what it does not get. -/
theorem tcpRead_spec (hasRoom : 0 < len) (nonempty : ∀ segment ∈ segments, segment ≠ []) :
    (tcpRead len segments).1.length ≤ len ∧
      (∀ segment ∈ (tcpRead len segments).2, segment ≠ []) ∧
      ((tcpRead len segments).1 = [] → segments = []) := by
  cases segments with
  | nil => exact ⟨Nat.zero_le _, nofun, fun _ => rfl⟩
  | cons segment segments =>
    obtain ⟨isSegment, nonempty⟩ := forall_mem_cons.mp nonempty
    refine ⟨length_take_le _ _, ?_, fun isEmpty => ?_⟩
    · rw [tcpRead]
      split_ifs with isDone
      · exact nonempty
      · exact forall_mem_cons.mpr ⟨isDone, nonempty⟩
    · obtain isZero | isNil := take_eq_nil_iff.mp isEmpty
      · omega
      · exact absurd isNil isSegment

/-! ## The dynamic buffer -/

/-- The buffer holds what has come of a line, up to the longest length. -/
structure Kept (content buffer : Text) (readBytes lineLength : Nat) : Prop where
  buffer_eq : buffer = content.take zbxTcpLineLen
  readBytes_eq : readBytes = buffer.length
  lineLength_eq : lineLength = content.length

variable {readBytes lineLength : Nat}

theorem take_append_take (content data : Text) (length : Nat) :
    content.take length ++ data.take (length - (content.take length).length) =
      (content ++ data).take length := by
  rw [take_append, length_take]
  congr 2
  omega

variable (kept : Kept content buffer readBytes lineLength)

include kept

theorem Kept.fillBuffer_of_fits
    (fits : readBytes + data.length < zbxTcpLineLen ∧ readBytes = lineLength) :
    fillBuffer buffer readBytes lineLength data =
        (content ++ data, (content ++ data).length) ∧
      (content ++ data).length < zbxTcpLineLen := by
  obtain ⟨rfl, rfl, rfl⟩ := kept
  have whole : content.take zbxTcpLineLen = content := by
    refine take_of_length_le ?_
    rw [← fits.2]
    omega
  rw [fillBuffer, if_pos fits, whole, length_append]
  rw [whole] at fits
  exact ⟨rfl, fits.1⟩

theorem Kept.fillBuffer_line (noNewline : '\n' ∉ line) (rest : Text) :
    (fillBuffer buffer readBytes lineLength (line ++ '\n' :: rest)).1 =
      (content ++ line).take zbxTcpLineLen ++ '\n' :: rest := by
  by_cases fits : readBytes + (line ++ '\n' :: rest).length < zbxTcpLineLen ∧
      readBytes = lineLength
  · obtain ⟨filled, isShort⟩ := kept.fillBuffer_of_fits fits
    have whole : (content ++ line).take zbxTcpLineLen = content ++ line := by
      refine take_of_length_le ?_
      simp only [length_append] at isShort ⊢
      omega
    rw [filled, whole, append_assoc]
  · obtain ⟨rfl, rfl, rfl⟩ := kept
    have length_sub : (line ++ '\n' :: rest).length - ('\n' :: rest).length = line.length := by
      rw [length_append, Nat.add_sub_cancel]
    rw [fillBuffer, if_neg fits, dropWhile_line noNewline, if_neg (cons_ne_nil _ _), length_sub]
    simp only
    rw [← take_take, take_left, take_append_take]

theorem Kept.fillBuffer_more (noNewline : '\n' ∉ data) :
    Kept (content ++ data) (fillBuffer buffer readBytes lineLength data).1
      (fillBuffer buffer readBytes lineLength data).2 (lineLength + data.length) := by
  by_cases fits : readBytes + data.length < zbxTcpLineLen ∧ readBytes = lineLength
  · obtain ⟨filled, isShort⟩ := kept.fillBuffer_of_fits fits
    rw [filled]
    refine ⟨(take_of_length_le isShort.le).symm, rfl, ?_⟩
    rw [kept.lineLength_eq, length_append]
  · obtain ⟨rfl, rfl, rfl⟩ := kept
    rw [fillBuffer, if_neg fits, dropWhile_noNewline noNewline, if_pos rfl]
    simp only
    refine ⟨?_, ?_, ?_⟩
    · rw [append_nil, take_append_take]
    · -- what is missing up to the longest length is there, or nothing is missing
      rw [length_take] at fits ⊢
      simp only [append_nil, length_append, length_take, length_nil]
      omega
    · rw [length_append]

/-- The rest is returned when the socket is closed. -/
theorem Kept.yields_rest (noNewline : '\n' ∉ content) :
    Yields content (if readBytes ≠ 0 then some buffer else none) [] := by
  obtain ⟨rfl, rfl, rfl⟩ := kept
  cases content with
  | nil => exact .closed
  | cons char content =>
    rw [if_pos (by simp [zbxTcpLineLen])]
    exact .rest noNewline (cons_ne_nil _ _)

theorem dynamicLoop_yields
    (noNewline : '\n' ∉ content) (nonempty : ∀ segment ∈ segments, segment ≠ []) :
    ∃ left, Yields (content ++ segments.flatten)
        (dynamicLoop buffer readBytes lineLength segments).1 left ∧
      Ready (dynamicLoop buffer readBytes lineLength segments).2 left := by
  induction remaining : segments.flatten.length using Nat.strong_induction_on
    generalizing content buffer readBytes lineLength segments with
  | _ remaining ih =>
    have read := tcpRead_flatten (zbxStatBufLen - 1) segments
    obtain ⟨isShort, nonempty', closed⟩ :=
      @tcpRead_spec segments (zbxStatBufLen - 1) (by decide) nonempty
    rw [dynamicLoop]
    generalize (tcpRead (zbxStatBufLen - 1) segments).1 = data at *
    generalize (tcpRead (zbxStatBufLen - 1) segments).2 = segments' at *
    simp only
    by_cases isClosed : data = []
    · obtain rfl := closed isClosed
      obtain ⟨-, isEmpty⟩ := append_eq_nil_iff.mp read
      rw [dif_pos isClosed, flatten_nil, append_nil]
      have left_nil : buffer.drop readBytes = [] := by
        rw [kept.readBytes_eq, drop_length]
      refine ⟨[], kept.yields_rest noNewline, ?_, ?_, nonempty'⟩
      · rw [left_nil]
        exact isEmpty
      · rw [left_nil]
        exact (by decide : 0 + 1 < zbxStatBufLen)
    · rw [dif_neg isClosed]
      by_cases isMore : '\n' ∉ data
      · rw [if_pos isMore, ← read, ← append_assoc]
        have noNewline' : '\n' ∉ content ++ data := by
          rw [mem_append, not_or]
          exact ⟨noNewline, isMore⟩
        refine ih segments'.flatten.length ?_ (kept.fillBuffer_more isMore) noNewline'
          nonempty' rfl
        have isRead := length_pos_iff.mpr isClosed
        rw [← remaining, ← read, length_append]
        omega
      · obtain ⟨line, rest, rfl, isFirst⟩ := eq_append_cons_of_mem (not_not.mp isMore)
        have noNewline' : '\n' ∉ content ++ line := by
          rw [mem_append, not_or]
          exact ⟨noNewline, isFirst⟩
        have noNewlineCut : '\n' ∉ (content ++ line).take zbxTcpLineLen :=
          fun isIn => noNewline' (mem_of_mem_take isIn)
        have found := socketFindLine_line noNewlineCut rest
        rw [if_neg isMore, kept.fillBuffer_line isFirst, found]
        refine ⟨rest ++ segments'.flatten, ?_, rfl, ?_, nonempty'⟩
        · rw [← read, append_assoc, cons_append, ← append_assoc]
          exact .line noNewline' _
        · simp only [length_append, length_cons] at isShort
          simp only [getD_some]
          omega

omit kept

theorem staticBuffer_yields {left data : Text} (noNewline : '\n' ∉ left)
    (isShort : (left ++ data).length < zbxStatBufLen) (isData : data ≠ [])
    (nonempty : ∀ segment ∈ segments, segment ≠ []) :
    ∃ result socket' left',
      (match socketFindLine (left ++ data) with
        | some (line, rest) => some (some line, { nextLine := some rest, segments })
        | none => some (dynamicLoop (left ++ data) (left ++ data).length (left ++ data).length
            segments)) = some (result, socket') ∧
      Yields (left ++ data ++ segments.flatten) result left' ∧ Ready socket' left' := by
  have isLess : zbxStatBufLen ≤ zbxTcpLineLen := by decide
  by_cases isMore : '\n' ∈ data
  · obtain ⟨line, rest, rfl, isFirst⟩ := eq_append_cons_of_mem isMore
    have noNewline' : '\n' ∉ left ++ line := by
      rw [mem_append, not_or]
      exact ⟨noNewline, isFirst⟩
    rw [← append_assoc, socketFindLine_line noNewline']
    simp only [length_append, length_cons] at isShort
    have isWhole : (left ++ line).take zbxTcpLineLen = left ++ line := by
      refine take_of_length_le ?_
      rw [length_append]
      omega
    refine ⟨_, _, rest ++ segments.flatten, rfl, ?_, rfl, ?_, nonempty⟩
    · have yields := Yields.line noNewline' (rest ++ segments.flatten)
      rw [isWhole] at yields
      rwa [append_assoc, cons_append]
    · simp only [getD_some]
      omega
  · have noNewline' : '\n' ∉ left ++ data := by
      rw [mem_append, not_or]
      exact ⟨noNewline, isMore⟩
    rw [socketFindLine_noNewline noNewline']
    have kept : Kept (left ++ data) (left ++ data) (left ++ data).length (left ++ data).length :=
      ⟨(take_of_length_le (by omega)).symm, rfl, rfl⟩
    obtain ⟨left', yields, ready⟩ := dynamicLoop_yields kept noNewline' nonempty
    exact ⟨_, _, left', rfl, yields, ready⟩

/-- A call takes one line from a stream, and what is kept fits the static buffer. -/
theorem tcpRecvLine_yields {socket : LineSocket} (ready : Ready socket stream) :
    ∃ result socket' left, tcpRecvLine socket = some (result, socket') ∧
      Yields stream result left ∧ Ready socket' left := by
  obtain ⟨nextLine, segments⟩ := socket
  obtain ⟨rfl, fits, nonempty⟩ := ready
  simp only at fits nonempty ⊢
  have isLess : zbxStatBufLen ≤ zbxTcpLineLen := by decide
  by_cases hasLine : '\n' ∈ nextLine.getD []
  · obtain ⟨line, rest, isText, isFirst⟩ := eq_append_cons_of_mem hasLine
    cases nextLine with
    | none => cases hasLine
    | some text =>
      simp only [getD_some] at isText fits
      subst isText
      rw [tcpRecvLine, bind_some, socketFindLine_line isFirst]
      simp only [length_append, length_cons] at fits
      have isWhole : line.take zbxTcpLineLen = line := take_of_length_le (by omega)
      refine ⟨_, _, rest ++ segments.flatten, rfl, ?_, rfl, ?_, nonempty⟩
      · have yields := Yields.line isFirst (rest ++ segments.flatten)
        rw [isWhole] at yields
        rwa [getD_some, append_assoc, cons_append]
      · simp only [getD_some]
        omega
  · have notFound : nextLine.bind socketFindLine = none := by
      cases nextLine with
      | none => rfl
      | some text => exact socketFindLine_noNewline hasLine
    rw [tcpRecvLine, notFound]
    simp only
    generalize nextLine.getD [] = left at *
    have read := tcpRead_flatten (zbxStatBufLen - left.length - 1) segments
    obtain ⟨isShort, nonempty', closed⟩ :=
      @tcpRead_spec segments (zbxStatBufLen - left.length - 1) (by omega) nonempty
    rw [if_neg (by omega)]
    generalize tcpRead (zbxStatBufLen - left.length - 1) segments = result at *
    obtain ⟨data, segments'⟩ := result
    simp only at read isShort nonempty' closed ⊢
    by_cases isClosed : data = []
    · obtain rfl := closed isClosed
      obtain ⟨-, isEmpty⟩ := append_eq_nil_iff.mp read
      rw [if_pos isClosed]
      refine ⟨_, _, [], rfl, ?_, isEmpty, (by decide : 0 + 1 < zbxStatBufLen), nonempty'⟩
      rw [flatten_nil, append_nil]
      cases left with
      | nil => exact .closed
      | cons char left =>
        rw [if_pos (cons_ne_nil _ _)]
        have isWhole : (char :: left).take zbxTcpLineLen = char :: left :=
          take_of_length_le (by omega)
        have yields := Yields.rest hasLine (cons_ne_nil _ _)
        rwa [isWhole] at yields
    · rw [if_neg isClosed, ← read, ← append_assoc]
      refine staticBuffer_yields hasLine ?_ isClosed nonempty'
      rw [length_append]
      omega

/-! ## Successive calls -/

theorem line_inj {line' rest' : Text} (noNewline : '\n' ∉ line) (noNewline' : '\n' ∉ line')
    (same : line ++ '\n' :: rest = line' ++ '\n' :: rest') : line = line' ∧ rest = rest' := by
  have sameRest := congrArg (dropWhile (· ≠ '\n')) same
  rw [dropWhile_line noNewline, dropWhile_line noNewline'] at sameRest
  obtain rfl := tail_eq_of_cons_eq sameRest
  exact ⟨append_cancel_right same, rfl⟩

variable {result : Option Text} {left : Text} {lines : List Text}

theorem Yields.line_eq (yields : Yields stream result left)
    (isLines : IsLines stream (line :: lines) rest) :
    result = some (cutReturn (line.take zbxTcpLineLen)) ∧ IsLines left lines rest := by
  obtain ⟨stream_eq, noNewlines, rest_noNewline⟩ := isLines
  obtain ⟨noNewline, areLines⟩ := forall_mem_cons.mp noNewlines
  rw [map_cons, flatten_cons, append_assoc, append_assoc, singleton_append] at stream_eq
  cases yields with
  | line noNewline' =>
    obtain ⟨rfl, rfl⟩ := line_inj noNewline' noNewline stream_eq
    exact ⟨rfl, rfl, areLines, rest_noNewline⟩
  | rest noNewline' =>
    rw [stream_eq] at noNewline'
    exact absurd (mem_append_right _ mem_cons_self) noNewline'
  | closed => exact absurd stream_eq.symm (append_ne_nil_of_right_ne_nil _ (cons_ne_nil _ _))

theorem Yields.rest_eq (yields : Yields stream result left) (isLines : IsLines stream [] rest) :
    result = (unterminated rest)[0]? ∧ IsLines left [] [] := by
  obtain ⟨stream_eq, -, noNewline⟩ := isLines
  rw [map_nil, flatten_nil, nil_append] at stream_eq
  subst stream_eq
  cases yields with
  | line => exact absurd (mem_append_right _ mem_cons_self) noNewline
  | rest _ isRest =>
    rw [unterminated, if_neg isRest]
    exact ⟨rfl, rfl, nofun, nofun⟩
  | closed => exact ⟨rfl, rfl, nofun, nofun⟩

theorem recvLineAt_returned (call : Nat) {socket : LineSocket} (ready : Ready socket stream)
    (isLines : IsLines stream lines rest) :
    recvLineAt call socket = some (returnedLines lines rest)[call]? := by
  induction call generalizing socket stream lines rest with
  | zero =>
    obtain ⟨result, socket', left, isResult, yields, -⟩ := tcpRecvLine_yields ready
    rw [recvLineAt, isResult, map_some]
    cases lines with
    | nil => rw [(yields.rest_eq isLines).1, returnedLines, map_nil, nil_append]
    | cons line lines => rw [(yields.line_eq isLines).1, returnedLines, map_cons]; rfl
  | succ call ih =>
    obtain ⟨result, socket', left, isResult, yields, ready'⟩ := tcpRecvLine_yields ready
    rw [recvLineAt, isResult, bind_some]
    cases lines with
    | nil =>
      have isDone : (returnedLines [] rest)[call + 1]? = none := by
        rw [List.getElem?_eq_none_iff, returnedLines, unterminated]
        split_ifs <;> simp
      rw [isDone]
      exact ih ready' (yields.rest_eq isLines).2
    | cons line lines => exact ih ready' (yields.line_eq isLines).2

/-! ## Carriage returns -/

theorem length_cutReturn (line : Text) :
    line.length - 1 ≤ (cutReturn line).length ∧ cutReturn line = line.take (cutReturn line).length := by
  rw [cutReturn]
  split_ifs
  · rw [length_dropLast]
    exact ⟨le_rfl, dropLast_eq_take⟩
  · exact ⟨Nat.sub_le _ _, take_length.symm⟩

theorem cutReturn_take_iff (text : Text) :
    cutReturn (text.take zbxTcpLineLen) = (cutReturn text).take zbxTcpLineLen ↔
      (zbxTcpLineLen < text.length → text[zbxTcpLineLen - 1]? ≠ some '\r') := by
  have isPositive : 0 < zbxTcpLineLen := by decide
  by_cases isLong : zbxTcpLineLen < text.length
  · obtain ⟨isLess, isTake⟩ := length_cutReturn text
    have isCut : (cutReturn text).take zbxTcpLineLen = text.take zbxTcpLineLen := by
      rw [isTake, take_take, Nat.min_eq_left (by omega)]
    have isLast : (text.take zbxTcpLineLen).getLast? = text[zbxTcpLineLen - 1]? := by
      rw [getLast?_eq_getElem?, length_take, Nat.min_eq_left isLong.le,
        getElem?_take_of_lt (by omega)]
    rw [isCut, cutReturn, isLast]
    constructor
    · intro same _ isReturn
      rw [if_pos isReturn] at same
      have sameLength := congrArg List.length same
      rw [length_dropLast, length_take] at sameLength
      omega
    · exact fun isOther => if_neg (isOther isLong)
  · refine iff_of_true ?_ fun isLess => absurd isLess isLong
    have isShort := (length_cutReturn text).2
    rw [take_of_length_le (by omega), take_of_length_le]
    rw [isShort]
    exact (length_take_le' _ _).trans (by omega)

/-- The calls return every line of a stream, and the rest, however the stream comes in, just when
no line is cut behind a carriage return. -/
theorem recvLineAt_iff (lines : List Text) (rest : Text) (segments : List Text)
    (isLines : IsLines segments.flatten lines rest)
    (nonempty : ∀ segment ∈ segments, segment ≠ []) :
    (∀ call, recvLineAt call { nextLine := none, segments } =
        some (expectedLines lines rest)[call]?) ↔
      ∀ text ∈ lines, zbxTcpLineLen < text.length → text[zbxTcpLineLen - 1]? ≠ some '\r' := by
  have ready : Ready { nextLine := none, segments } segments.flatten :=
    ⟨rfl, (by decide : 0 + 1 < zbxStatBufLen), nonempty⟩
  simp only [recvLineAt_returned _ ready isLines, some.injEq, ← List.ext_getElem?_iff,
    returnedLines, expectedLines, append_left_inj, map_inj_left, cutReturn_take_iff]

theorem recvLineAt_iff_lines :
    (∀ call, recvLineAt call { nextLine := none, segments := ["a\r".toList, "\nb".toList] } =
        some (expectedLines ["a\r".toList] "b".toList)[call]?) ↔
      ∀ text ∈ ["a\r".toList], zbxTcpLineLen < text.length →
        text[zbxTcpLineLen - 1]? ≠ some '\r' :=
  recvLineAt_iff ["a\r".toList] "b".toList ["a\r".toList, "\nb".toList]
    ⟨rfl, by decide, by decide⟩ (by decide)

/-- A carriage return at the end of the longest line is lost. -/
theorem not_recvLineAt_cut :
    ¬∀ (lines : List Text) (rest : Text) (segments : List Text),
      IsLines segments.flatten lines rest → (∀ segment ∈ segments, segment ≠ []) →
      ∀ call, recvLineAt call { nextLine := none, segments } =
        some (expectedLines lines rest)[call]? := by
  intro returns
  let line := replicate (zbxTcpLineLen - 1) 'a' ++ ['\r', 'b']
  have isLines : IsLines [line ++ ['\n']].flatten [line] [] := by
    refine ⟨by simp, ?_, nofun⟩
    rw [forall_mem_singleton, mem_append, mem_replicate]
    simp
  have nonempty : ∀ segment ∈ [line ++ ['\n']], segment ≠ [] := by simp
  have ready : Ready { nextLine := none, segments := [line ++ ['\n']] } [line ++ ['\n']].flatten :=
    ⟨rfl, (by decide : 0 + 1 < zbxStatBufLen), nonempty⟩
  have returned := (recvLineAt_returned 0 ready isLines).symm.trans
    (returns [line] [] [line ++ ['\n']] isLines nonempty 0)
  have same := (cutReturn_take_iff line).mp (some.inj (some.inj returned))
  have isLong : zbxTcpLineLen < line.length := by
    rw [length_append, length_replicate]
    decide
  have isLess : (replicate (zbxTcpLineLen - 1) 'a').length ≤ zbxTcpLineLen - 1 :=
    length_replicate.le
  refine same isLong ?_
  rw [getElem?_append_right isLess, length_replicate, Nat.sub_self]
  rfl

end Zabbix.Comms.Lines
