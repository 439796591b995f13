import Zabbix.Common.Serialize

/-!
# Messages of the preprocessing service

Values, tasks and results pass between processes as messages.  The packing
functions of `preprocessing.c` describe a message as a list of fields, which
`message_pack_data` measures and copies; the unpacking functions read the same
layout field by field.

A null pointer is `none`.  Packing returns nothing if it would read or write
outside its memory, and unpacking if it would read outside the message.
-/

namespace Zabbix.Preprocessing.Messages

open Common.Serialize Library.ByteReader

/-! ## What the messages carry -/

/-- `zbx_timespec_t`. -/
structure ZbxTimespec where
  sec : Int32
  ns : Int32
deriving DecidableEq

/-- `zbx_log_t`. -/
structure ZbxLog where
  value : Option CString
  source : Option CString
  timestamp : Int32
  severity : Int32
  logeventid : Int32
deriving DecidableEq

/-- `AGENT_RESULT`; `dbl` has the bits of the `double`. -/
structure AgentResult where
  lastlogsize : UInt64
  ui64 : UInt64
  dbl : UInt64
  str : Option CString
  text : Option CString
  msg : Option CString
  log : Option ZbxLog
  type : Int32
  mtime : Int32
deriving DecidableEq

/-- `zbx_preproc_item_value_t`; `result` is what `result_ptr` points to. -/
structure ZbxPreprocItemValue where
  itemid : UInt64
  hostid : UInt64
  itemValueType : UInt8
  result : Option AgentResult
  ts : Option ZbxTimespec
  error : Option CString
  itemFlags : UInt8
  state : UInt8
deriving DecidableEq

/-- `zbx_variant_t`. -/
inductive ZbxVariant where
  | none
  | str (data : Option CString)
  | dbl (bits : UInt64)
  | ui64 (data : UInt64)
  | bin (data : BinData)
deriving DecidableEq

/-- The `ZBX_VARIANT_` constants. -/
def ZbxVariant.type : ZbxVariant → UInt8
  | .none => 0
  | .str _ => 1
  | .dbl _ => 2
  | .ui64 _ => 3
  | .bin _ => 4

/-- `zbx_preproc_op_history_t`. -/
structure ZbxPreprocOpHistory where
  index : Int32
  value : ZbxVariant
  ts : ZbxTimespec
deriving DecidableEq

/-- `zbx_preproc_op_t`. -/
structure ZbxPreprocOp where
  type : UInt8
  errorHandler : UInt8
  params : Option CString
  errorHandlerParams : Option CString
deriving DecidableEq

/-- `zbx_preproc_result_t`. -/
structure ZbxPreprocResult where
  value : ZbxVariant
  action : UInt8
  error : Option CString
deriving DecidableEq

/-! ## Packing -/

/-- `zbx_packed_field_t`: memory to copy, or a string with its size in front. -/
inductive ZbxPackedField where
  | raw (value : Bytes) (size : UInt32)
  | string (value : Option CString) (size : UInt32)
deriving DecidableEq

/-- `PACKED_FIELD` with a size that is not zero, which is stored as a `zbx_uint32_t`. -/
def packedField (value : Bytes) (size : Nat) : ZbxPackedField :=
  .raw value (UInt32.ofNat size)

/-- `PACKED_FIELD` with size zero. -/
def packedString (value : Option CString) : ZbxPackedField :=
  .string value 0

def packedUint64 (value : UInt64) : ZbxPackedField :=
  packedField (uint64Bytes value) 8

def packedInt (value : Int32) : ZbxPackedField :=
  packedField (intBytes value) 4

def packedChar (value : UInt8) : ZbxPackedField :=
  packedField (charBytes value) 1

/-- `~(zbx_uint32_t)0`. -/
def maxUint32 : Nat := 2 ^ 32 - 1

/-- The size of a string in memory; zero for a null pointer. -/
def strSize : Option CString → Nat
  | none => 0
  | some text => text.memory.length

/--
`message_pack_data` without a message: the size of the data, and the fields with
the sizes of their strings; `none` if the size would exceed `maxUint32`.
-/
def measureFields : List ZbxPackedField → Nat → Option (Nat × List ZbxPackedField)
  | [], dataSize => some (dataSize, [])
  | field :: rest, dataSize =>
    let measured :=
      match field with
      | .raw value size => (size.toNat, ZbxPackedField.raw value size)
      | .string value _ =>
        (strSize value + 4, ZbxPackedField.string value (UInt32.ofNat (strSize value)))
    if maxUint32 < measured.1 + dataSize then
      none
    else
      (measureFields rest (dataSize + measured.1)).map fun result =>
        (result.1, measured.2 :: result.2)

/-- `count` bytes of the memory at a pointer. -/
def copyFrom (memory : Bytes) (count : Nat) : Option Bytes :=
  if count ≤ memory.length then some (memory.take count) else none

def fieldBytes : ZbxPackedField → Option Bytes
  | .raw value size => copyFrom value size.toNat
  | .string none size => some (littleEndian 4 size.toNat)
  | .string (some text) size =>
    (copyFrom text.memory size.toNat).map (littleEndian 4 size.toNat ++ ·)

/-- `memcpy` into a buffer. -/
def writeAt (buffer : Bytes) (offset : Nat) (bytes : Bytes) : Option Bytes :=
  if offset + bytes.length ≤ buffer.length then
    some (buffer.take offset ++ bytes ++ buffer.drop (offset + bytes.length))
  else
    none

/-- The copying loop of `message_pack_data`. -/
def writeFields : List ZbxPackedField → Bytes → Nat → Option Bytes
  | [], buffer, _ => some buffer
  | field :: rest, buffer, offset =>
    (fieldBytes field).bind fun bytes =>
      (writeAt buffer offset bytes).bind fun written =>
        writeFields rest written (offset + bytes.length)

/-- `zbx_ipc_message_t`, without its code. -/
structure ZbxIpcMessage where
  size : Nat := 0
  data : Bytes := []
deriving DecidableEq

/--
`message_pack_data` for a message: the size of the packed data, or 0 if the
message would exceed 4 GB.  The bytes that `zbx_realloc` adds are zeros here.
-/
def messagePackData (message : ZbxIpcMessage) (fields : List ZbxPackedField) :
    Option (Nat × ZbxIpcMessage) :=
  match measureFields fields 0 with
  | none => some (0, message)
  | some (dataSize, measured) =>
    if dataSize = 0 ∨ maxUint32 - message.size < dataSize then
      some (0, message)
    else
      (writeFields measured (message.data ++ List.replicate dataSize 0) message.size).map
        fun data => (dataSize, ⟨message.size + dataSize, data⟩)

/-- A marker: is there something behind it. -/
def marker {Value : Type} (value : Option Value) : UInt8 :=
  if value.isSome then 1 else 0

def timespecFields (ts : ZbxTimespec) : List ZbxPackedField :=
  [packedInt ts.sec, packedInt ts.ns]

def logFields (log : ZbxLog) : List ZbxPackedField :=
  [packedString log.value, packedString log.source, packedInt log.timestamp,
    packedInt log.severity, packedInt log.logeventid]

def resultFields (result : AgentResult) : List ZbxPackedField :=
  packedUint64 result.lastlogsize :: packedUint64 result.ui64 :: packedUint64 result.dbl ::
    packedString result.str :: packedString result.text :: packedString result.msg ::
    packedInt result.type :: packedInt result.mtime :: packedChar (marker result.log) ::
    result.log.elim [] logFields

/-- The fields of `preprocessor_pack_value`. -/
def itemValueFields (value : ZbxPreprocItemValue) : List ZbxPackedField :=
  packedUint64 value.itemid :: packedUint64 value.hostid :: packedChar value.itemValueType ::
    packedChar value.itemFlags :: packedChar value.state :: packedString value.error ::
    packedChar (marker value.ts) :: (value.ts.elim [] timespecFields ++
      packedChar (marker value.result) :: value.result.elim [] resultFields)

def preprocessorPackValue (message : ZbxIpcMessage) (value : ZbxPreprocItemValue) :
    Option (Nat × ZbxIpcMessage) :=
  messagePackData message (itemValueFields value)

def preprocessorPackVariant (value : ZbxVariant) : List ZbxPackedField :=
  packedChar value.type ::
    match value with
    | .none => []
    | .ui64 data => [packedUint64 data]
    | .dbl bits => [packedUint64 bits]
    | .str data => [packedString data]
    | .bin data => [packedField (binBytes data) (4 + data.bytes.length)]

def opHistoryFields (ophistory : ZbxPreprocOpHistory) : List ZbxPackedField :=
  packedInt ophistory.index :: (preprocessorPackVariant ophistory.value ++
    timespecFields ophistory.ts)

def preprocessorPackHistory (history : List ZbxPreprocOpHistory) : List ZbxPackedField :=
  packedInt (Int32.ofNat history.length) :: history.flatMap opHistoryFields

def preprocessorPackStep (step : ZbxPreprocOp) : List ZbxPackedField :=
  [packedChar step.type, packedString step.params, packedChar step.errorHandler,
    packedString step.errorHandlerParams]

def preprocessorPackSteps (steps : List ZbxPreprocOp) : List ZbxPackedField :=
  packedInt (Int32.ofNat steps.length) :: steps.flatMap preprocessorPackStep

/-- What `zbx_preprocessor_pack_task` is given. -/
structure PreprocessorTask where
  itemid : UInt64
  valueType : UInt8
  ts : Option ZbxTimespec
  value : ZbxVariant
  history : List ZbxPreprocOpHistory
  steps : List ZbxPreprocOp
deriving DecidableEq

def taskFields (task : PreprocessorTask) : List ZbxPackedField :=
  packedUint64 task.itemid :: packedChar task.valueType :: packedChar (marker task.ts) ::
    (task.ts.elim [] timespecFields ++ (preprocessorPackVariant task.value ++
      (preprocessorPackHistory task.history ++ preprocessorPackSteps task.steps)))

/-- `zbx_preprocessor_pack_task`; without a history there are no entries. -/
def zbxPreprocessorPackTask (task : PreprocessorTask) : Option (Nat × ZbxIpcMessage) :=
  messagePackData {} (taskFields task)

/-- What `zbx_preprocessor_pack_result` is given. -/
structure PreprocessorResult where
  value : ZbxVariant
  history : List ZbxPreprocOpHistory
  error : Option CString
deriving DecidableEq

def preprocessorResultFields (result : PreprocessorResult) : List ZbxPackedField :=
  preprocessorPackVariant result.value ++
    (preprocessorPackHistory result.history ++ [packedString result.error])

def zbxPreprocessorPackResult (result : PreprocessorResult) : Option (Nat × ZbxIpcMessage) :=
  messagePackData {} (preprocessorResultFields result)

/-- What `preprocessor_pack_test_request` is given. -/
structure TestRequest where
  valueType : UInt8
  value : Option CString
  ts : ZbxTimespec
  history : List ZbxPreprocOpHistory
  steps : List ZbxPreprocOp
deriving DecidableEq

def testRequestFields (request : TestRequest) : List ZbxPackedField :=
  packedChar request.valueType :: packedString request.value :: (timespecFields request.ts ++
    (preprocessorPackHistory request.history ++ preprocessorPackSteps request.steps))

def preprocessorPackTestRequest (request : TestRequest) : Option (Nat × ZbxIpcMessage) :=
  messagePackData {} (testRequestFields request)

/-- What `zbx_preprocessor_pack_test_result` is given. -/
structure TestResult where
  results : List ZbxPreprocResult
  history : List ZbxPreprocOpHistory
  error : Option CString
deriving DecidableEq

def stepResultFields (result : ZbxPreprocResult) : List ZbxPackedField :=
  preprocessorPackVariant result.value ++ [packedString result.error, packedChar result.action]

def testResultFields (result : TestResult) : List ZbxPackedField :=
  packedInt (Int32.ofNat result.results.length) :: (result.results.flatMap stepResultFields ++
    (preprocessorPackHistory result.history ++ [packedString result.error]))

def zbxPreprocessorPackTestResult (result : TestResult) : Option (Nat × ZbxIpcMessage) :=
  messagePackData {} (testResultFields result)

/-! ## Unpacking -/

/-- The conversion to `int` of a difference of pointers. -/
def toInt (length : Int) : Int :=
  length.bmod (2 ^ 32)

/-- The conversion to `zbx_uint32_t`. -/
def toUint32 (length : Int) : Int :=
  length % 2 ^ 32

def readMarked {Value : Type} (reader : Reader Value) (marker : UInt8) : Reader (Option Value) :=
  if marker ≠ 0 then do
    let value ← reader
    pure (some value)
  else
    pure none

def unpackTimespec : Reader ZbxTimespec := do
  let sec ← zbxDeserializeInt
  let ns ← zbxDeserializeInt
  pure { sec, ns }

def unpackLog : Reader ZbxLog := do
  let value ← zbxDeserializeStr
  let source ← zbxDeserializeStr
  let timestamp ← zbxDeserializeInt
  let severity ← zbxDeserializeInt
  let logeventid ← zbxDeserializeInt
  pure { value, source, timestamp, severity, logeventid }

def unpackAgentResult : Reader AgentResult := do
  let lastlogsize ← zbxDeserializeUint64
  let ui64 ← zbxDeserializeUint64
  let dbl ← zbxDeserializeUint64
  let str ← zbxDeserializeStr
  let text ← zbxDeserializeStr
  let msg ← zbxDeserializeStr
  let type ← zbxDeserializeInt
  let mtime ← zbxDeserializeInt
  let logMarker ← zbxDeserializeChar
  let log ← readMarked unpackLog logMarker
  pure { lastlogsize, ui64, dbl, str, text, msg, log, type, mtime }

/-- The body of `zbx_preprocessor_unpack_value`. -/
def unpackItemValue : Reader ZbxPreprocItemValue := do
  let itemid ← zbxDeserializeUint64
  let hostid ← zbxDeserializeUint64
  let itemValueType ← zbxDeserializeChar
  let itemFlags ← zbxDeserializeChar
  let state ← zbxDeserializeChar
  let error ← zbxDeserializeStr
  let tsMarker ← zbxDeserializeChar
  let ts ← readMarked unpackTimespec tsMarker
  let resultMarker ← zbxDeserializeChar
  let result ← readMarked unpackAgentResult resultMarker
  pure { itemid, hostid, itemValueType, result, ts, error, itemFlags, state }

/-- `zbx_preprocessor_unpack_value`, which returns a `zbx_uint32_t`. -/
def zbxPreprocessorUnpackValue : Reader ZbxPreprocItemValue :=
  narrow toUint32 unpackItemValue

/-- The loop of `preprocessor_add_request` over the values of a message. -/
def unpackValues : Nat → ZbxIpcMessage → Int → Option (List ZbxPreprocItemValue × Int)
  | fuel, message, offset =>
    if offset < message.size then
      match fuel with
      | 0 => none
      | fuel + 1 =>
        (zbxPreprocessorUnpackValue message.data offset).bind fun first =>
          (unpackValues fuel message (toUint32 first.2)).map fun rest =>
            (first.1 :: rest.1, rest.2)
    else
      some ([], offset)

def unpackVariantData (type : UInt8) : Reader ZbxVariant :=
  if type = 3 then do
    let data ← zbxDeserializeUint64
    pure (.ui64 data)
  else if type = 2 then do
    let bits ← zbxDeserializeUint64
    pure (.dbl bits)
  else if type = 1 then do
    let data ← zbxDeserializeStr
    pure (.str data)
  else if type = 4 then do
    let data ← zbxDeserializeBin
    pure (.bin data)
  else
    pure .none

/-- The body of `preprocesser_unpack_variant`. -/
def unpackVariant : Reader ZbxVariant := do
  let type ← zbxDeserializeChar
  unpackVariantData type

/-- `preprocesser_unpack_variant`, which returns an `int`. -/
def preprocesserUnpackVariant : Reader ZbxVariant :=
  narrow toInt unpackVariant

def unpackOpHistory : Reader ZbxPreprocOpHistory := do
  let index ← zbxDeserializeInt
  let value ← preprocesserUnpackVariant
  let ts ← unpackTimespec
  pure { index, value, ts }

/-- The body of `preprocesser_unpack_history`. -/
def unpackHistory : Reader (List ZbxPreprocOpHistory) := do
  let historyNum ← zbxDeserializeInt
  readMany unpackOpHistory historyNum.toInt.toNat

/-- `preprocesser_unpack_history`, which returns an `int`. -/
def preprocesserUnpackHistory : Reader (List ZbxPreprocOpHistory) :=
  narrow toInt unpackHistory

/-- The body of `preprocessor_unpack_step`. -/
def unpackStep : Reader ZbxPreprocOp := do
  let type ← zbxDeserializeChar
  let params ← zbxDeserializeStrPtr
  let errorHandler ← zbxDeserializeChar
  let errorHandlerParams ← zbxDeserializeStrPtr
  pure { type, errorHandler, params, errorHandlerParams }

/-- `preprocessor_unpack_step`, which returns an `int`. -/
def preprocessorUnpackStep : Reader ZbxPreprocOp :=
  narrow toInt unpackStep

/-- `preprocessor_unpack_steps`; nobody uses what it returns. -/
def preprocessorUnpackSteps : Reader (List ZbxPreprocOp) := do
  let stepsNum ← zbxDeserializeInt
  readMany preprocessorUnpackStep stepsNum.toInt.toNat

def zbxPreprocessorUnpackTask : Reader PreprocessorTask := do
  let itemid ← zbxDeserializeUint64
  let valueType ← zbxDeserializeChar
  let tsMarker ← zbxDeserializeChar
  let ts ← readMarked unpackTimespec tsMarker
  let value ← preprocesserUnpackVariant
  let history ← preprocesserUnpackHistory
  let steps ← preprocessorUnpackSteps
  pure { itemid, valueType, ts, value, history, steps }

def zbxPreprocessorUnpackResult : Reader PreprocessorResult := do
  let value ← preprocesserUnpackVariant
  let history ← preprocesserUnpackHistory
  let error ← zbxDeserializeStr
  pure { value, history, error }

def zbxPreprocessorUnpackTestRequest : Reader TestRequest := do
  let valueType ← zbxDeserializeChar
  let value ← zbxDeserializeStr
  let ts ← unpackTimespec
  let history ← preprocesserUnpackHistory
  let steps ← preprocessorUnpackSteps
  pure { valueType, value, ts, history, steps }

def unpackStepResult : Reader ZbxPreprocResult := do
  let value ← preprocesserUnpackVariant
  let error ← zbxDeserializeStr
  let action ← zbxDeserializeChar
  pure { value, action, error }

def zbxPreprocessorUnpackTestResult : Reader TestResult := do
  let resultsNum ← zbxDeserializeInt
  let results ← readMany unpackStepResult resultsNum.toInt.toNat
  let history ← preprocesserUnpackHistory
  let error ← zbxDeserializeStr
  pure { results, history, error }

end Zabbix.Preprocessing.Messages
