import Zabbix.Library.ByteReader
import Zabbix.Library.Framing

/-!
# IPC sockets

The functions of `ipcservice.c` that move messages over a stream socket.  One
direction of a connection is a `Stream`: the bytes that were written and have not
been read.  What the operating system does is decided outside: each call of
`write` and `read` takes its result from a list, so a transfer may be cut into
pieces in every way.  A call beyond the end of the list would block.

An error other than `EINTR` and `EAGAIN` on writing means that the connection is
gone, and it stays so.  Byte counts are of type `zbx_uint32_t`, so they wrap.
-/

namespace Zabbix.Ipc.Socket

open Library.ByteReader Library.Framing List

/-! ## Machine integers and memory -/

/-- The values of `zbx_uint32_t`. -/
def uint32Bound : Nat := 4294967296

/-- Addition of `zbx_uint32_t`. -/
def add32 (left right : Nat) : Nat :=
  (left + right) % uint32Bound

/-- Subtraction of `zbx_uint32_t`. -/
def sub32 (left right : Nat) : Nat :=
  (left + (uint32Bound - right)) % uint32Bound

theorem add32_eq {left right : Nat} (fits : left + right < uint32Bound) :
    add32 left right = left + right :=
  Nat.mod_eq_of_lt fits

theorem sub32_eq {left right : Nat} (below : right ≤ left) (fits : left < uint32Bound) :
    sub32 left right = left - right := by
  rw [sub32, uint32Bound] at *
  omega

/-- Copy bytes to a place in a block of memory. -/
def memcpyAt (memory : Bytes) (offset : Nat) (source : Bytes) : Bytes :=
  memory.take offset ++ source ++ memory.drop (offset + source.length)

theorem length_memcpyAt {memory source : Bytes} {offset : Nat}
    (inside : offset + source.length ≤ memory.length) :
    (memcpyAt memory offset source).length = memory.length := by
  simp only [memcpyAt, length_append, length_take, length_drop]
  omega

theorem take_memcpyAt {memory source : Bytes} {offset : Nat} (inside : offset ≤ memory.length) :
    (memcpyAt memory offset source).take (offset + source.length) =
      memory.take offset ++ source := by
  apply take_left'
  rw [length_append, length_take_of_le inside]

/-! ## The stream -/

/-- One direction of a connection. -/
structure Stream where
  bytes : Bytes := []
  /-- The end that writes has been closed. -/
  closed : Bool := false
  /-- The end that reads has been closed. -/
  readerClosed : Bool := false
  /-- A write has failed. -/
  broken : Bool := false
deriving DecidableEq

/-- What a call of `write` does. -/
inductive WriteResult where
  | wrote (count : Nat)
  | interrupted
  | wouldBlock
  | failed
deriving DecidableEq

/-- What a call of `read` does. -/
inductive ReadResult where
  | got (count : Nat)
  | interrupted
  | wouldBlock
  | failed
deriving DecidableEq

/-- The results of functions that write: success, the bytes sent, and what remains. -/
structure Written where
  ret : Bool
  sizeSent : Nat
  stream : Stream
  script : List WriteResult

def ipcWriteData : List WriteResult → Bytes → Stream → Written
  | script, [], stream => ⟨true, 0, stream, script⟩
  | [], _ :: _, stream => ⟨true, 0, stream, []⟩
  | .interrupted :: script, byte :: data, stream => ipcWriteData script (byte :: data) stream
  | .wouldBlock :: script, _ :: _, stream => ⟨true, 0, stream, script⟩
  | .failed :: script, _ :: _, stream => ⟨false, 0, { stream with broken := true }, script⟩
  | .wrote count :: script, byte :: data, stream =>
    if stream.closed || stream.readerClosed || stream.broken then
      ⟨false, 0, { stream with broken := true }, script⟩
    else
      let rest := ipcWriteData script (data.drop count)
        { stream with bytes := stream.bytes ++ byte :: data.take count }
      { rest with sizeSent := (data.take count).length + 1 + rest.sizeSent }

/-- The results of functions that read: success, the bytes read, and what remains. -/
structure Read where
  ret : Bool
  bytes : Bytes
  stream : Stream
  script : List ReadResult

def ipcReadData (size : Nat) : List ReadResult → Stream → Read
  | [], stream => ⟨true, [], stream, []⟩
  | .interrupted :: script, stream => ipcReadData size script stream
  | .wouldBlock :: script, stream => ⟨true, [], stream, script⟩
  | .failed :: script, stream => ⟨false, [], stream, script⟩
  | .got count :: script, stream =>
    if stream.bytes = [] then
      ⟨!stream.closed, [], stream, script⟩
    else
      let length := min (count + 1) size
      ⟨true, stream.bytes.take length, { stream with bytes := stream.bytes.drop length }, script⟩

/--
The loop of `ipc_read_data_full`.  Each turn but the last one reads something, so
there are at most `size` of them.
-/
def readDataLoop : Nat → Nat → List ReadResult → Stream → Read
  | 0, _, script, stream => ⟨true, [], stream, script⟩
  | fuel + 1, size, script, stream =>
    if size = 0 then
      ⟨true, [], stream, script⟩
    else
      let chunk := ipcReadData size script stream
      if chunk.ret = false ∨ chunk.bytes = [] then
        chunk
      else
        let rest := readDataLoop fuel (size - chunk.bytes.length) chunk.script chunk.stream
        { rest with bytes := chunk.bytes ++ rest.bytes }

def ipcReadDataFull (size : Nat) (script : List ReadResult) (stream : Stream) : Read :=
  readDataLoop size size script stream

/-! ## Messages -/

structure ZbxIpcMessage where
  code : UInt32
  size : Nat
  data : Bytes
deriving DecidableEq

def headerSize : Nat := 8

def socketBufferSize : Nat := 4096

/-- The two words of a message header, as they are in memory. -/
def headerBytes (code : UInt32) (size : Nat) : Bytes :=
  littleEndian 4 code.toNat ++ littleEndian 4 size

/-- `header[ZBX_IPC_MESSAGE_CODE]` -/
def messageCode (header : Bytes) : UInt32 :=
  UInt32.ofNat (ofLittleEndian (header.take 4))

/-- `header[ZBX_IPC_MESSAGE_SIZE]` -/
def messageSize (header : Bytes) : Nat :=
  ofLittleEndian (header.drop 4)

def encode (message : ZbxIpcMessage) : Bytes :=
  headerBytes message.code message.size ++ message.data

def ipcSocketWriteMessage (message : ZbxIpcMessage) (script : List WriteResult)
    (stream : Stream) : Written :=
  if message.size ≤ socketBufferSize - headerSize then
    ipcWriteData script (headerBytes message.code message.size ++ message.data) stream
  else
    let header := ipcWriteData script (headerBytes message.code message.size) stream
    if header.ret = false ∨ header.sizeSent ≠ headerSize then
      header
    else
      let data := ipcWriteData header.script message.data header.stream
      { data with sizeSent := add32 header.sizeSent data.sizeSent }

/-- The results of `ipc_read_buffer`. -/
structure BufferRead where
  ret : Bool
  header : Bytes
  data : Bytes
  readSize : Nat

/-- The end of `ipc_read_buffer`, after the header: copy data to the message. -/
def readBufferData (header data : Bytes) (rxBytes dataOffset : Nat) (buffer : Bytes)
    (readSize : Nat) : BufferRead :=
  let dataSize := messageSize header
  let copySize := min (sub32 dataSize dataOffset) (buffer.length - readSize)
  { ret := decide (add32 rxBytes (readSize + copySize) = add32 dataSize headerSize)
    header := header
    data := memcpyAt data dataOffset ((buffer.drop readSize).take copySize)
    readSize := readSize + copySize }

def ipcReadBuffer (header data : Bytes) (rxBytes : Nat) (buffer : Bytes) : BufferRead :=
  if rxBytes < headerSize then
    let copySize := min (headerSize - rxBytes) buffer.length
    let header := memcpyAt header rxBytes (buffer.take copySize)
    if rxBytes + copySize < headerSize then
      ⟨false, header, data, copySize⟩
    else if messageSize header = 0 then
      ⟨true, header, [], copySize⟩
    else
      -- the content of a block from `zbx_malloc` is of no importance
      readBufferData header (replicate (messageSize header) 0) rxBytes 0 buffer copySize
  else
    readBufferData header data rxBytes (rxBytes - headerSize) buffer 0

def ipcMessageIsCompleted (header : Bytes) (rxBytes : Nat) : Bool :=
  headerSize ≤ rxBytes && add32 (messageSize header) headerSize == rxBytes

/-- What `ipc_socket_read_message` works on: the socket's buffer, and the message. -/
structure Incoming where
  rxBuffer : Bytes := []
  rxBufferOffset : Nat := 0
  rxHeader : Bytes := replicate 8 0
  rxData : Bytes := []
  rxBytes : Nat := 0
deriving DecidableEq

/-- The bytes of the socket's buffer that have not been parsed. -/
def Incoming.buffered (rx : Incoming) : Bytes :=
  rx.rxBuffer.drop rx.rxBufferOffset

/-- Parse the rest of the socket's buffer. -/
def parseBuffer (rx : Incoming) : Bool × Incoming :=
  let parsed := ipcReadBuffer rx.rxHeader rx.rxData rx.rxBytes rx.buffered
  (parsed.ret,
    { rx with
      rxHeader := parsed.header
      rxData := parsed.data
      rxBufferOffset := rx.rxBufferOffset + parsed.readSize
      rxBytes := add32 rx.rxBytes parsed.readSize })

/-- The results of `ipc_socket_read_message`. -/
structure MessageRead where
  ret : Bool
  rx : Incoming
  stream : Stream
  script : List ReadResult

/-- The size of the data from which a message is read past the socket's buffer. -/
def longDataSize : Nat := socketBufferSize * 3 / 4

/-- The loop of `ipc_socket_read_message`; each turn but the last one reads something. -/
def readMessageLoop : Nat → Incoming → Stream → List ReadResult → Option MessageRead
  | 0, _, _, _ => none
  | fuel + 1, rx, stream, script =>
    let rx := { rx with rxBuffer := [], rxBufferOffset := 0 }
    let offset := rx.rxBytes - headerSize
    let dataSize := sub32 (messageSize rx.rxHeader) offset
    if headerSize < rx.rxBytes ∧ longDataSize < dataSize then
      let direct := ipcReadDataFull dataSize script stream
      some ⟨direct.ret,
        { rx with
          rxData := memcpyAt rx.rxData offset direct.bytes
          rxBytes := add32 rx.rxBytes direct.bytes.length },
        direct.stream, direct.script⟩
    else
      let chunk := ipcReadData socketBufferSize script stream
      if chunk.ret = false then
        some ⟨false, rx, chunk.stream, chunk.script⟩
      else if chunk.bytes = [] then
        some ⟨true, rx, chunk.stream, chunk.script⟩
      else
        let (ret, rx) := parseBuffer { rx with rxBuffer := chunk.bytes }
        if ret then
          some ⟨true, rx, chunk.stream, chunk.script⟩
        else
          readMessageLoop fuel rx chunk.stream chunk.script

def ipcSocketReadMessage (rx : Incoming) (stream : Stream) (script : List ReadResult) :
    Option MessageRead :=
  if rx.rxBufferOffset < rx.rxBuffer.length then
    let (ret, rx) := parseBuffer rx
    if ret then
      some ⟨true, rx, stream, script⟩
    else
      readMessageLoop (stream.bytes.length + 1) rx stream script
  else
    readMessageLoop (stream.bytes.length + 1) rx stream script

end Zabbix.Ipc.Socket
