import Mathlib.Algebra.Order.BigOperators.Group.List
import Zabbix.Preprocessing.Messages

/-!
# Fields are packed as they are measured

`message_pack_data` measures the fields in one pass and copies them in another.
Both passes agree: the copy fills exactly the space that was measured, behind
the data that the message has already, and if that would be more than 4 GB the
message is left as it was.
-/

namespace Zabbix.Preprocessing.Packing

open Common.Serialize Library.ByteReader Messages List Option

def encodeField : ZbxPackedField → Bytes
  | .raw value size => value.take size.toNat
  | .string value _ => strBytes value

def encodeFields (fields : List ZbxPackedField) : Bytes :=
  fields.flatMap encodeField

@[simp]
theorem encodeFields_nil : encodeFields [] = [] :=
  rfl

@[simp]
theorem encodeFields_cons (field : ZbxPackedField) (rest : List ZbxPackedField) :
    encodeFields (field :: rest) = encodeField field ++ encodeFields rest :=
  rfl

@[simp]
theorem encodeFields_append (first second : List ZbxPackedField) :
    encodeFields (first ++ second) = encodeFields first ++ encodeFields second :=
  flatMap_append

theorem encodeFields_flatMap {Value : Type} (fields : Value → List ZbxPackedField)
    (values : List Value) :
    encodeFields (values.flatMap fields) = values.flatMap fun value => encodeFields (fields value) :=
  flatMap_assoc

/-- A field has the memory that it is said to have. -/
def HasMemory : ZbxPackedField → Prop
  | .raw value size => size.toNat ≤ value.length
  | .string _ _ => True

def withSize : ZbxPackedField → ZbxPackedField
  | .raw value size => .raw value size
  | .string value _ => .string value (UInt32.ofNat (strSize value))

theorem length_strBytes (value : Option CString) : (strBytes value).length = strSize value + 4 := by
  cases value with
  | none => rfl
  | some text =>
    rw [strBytes, length_append, length_littleEndian, strSize, Nat.add_comm]

theorem measureFields_spec {fields : List ZbxPackedField}
    (memory : ∀ field ∈ fields, HasMemory field) {dataSize : Nat} (fits : dataSize ≤ maxUint32) :
    measureFields fields dataSize =
      if maxUint32 < (encodeFields fields).length + dataSize then none
      else some (dataSize + (encodeFields fields).length, fields.map withSize) := by
  induction fields generalizing dataSize with
  | nil => rw [if_neg (by simpa using fits)]; rfl
  | cons field rest ih =>
    rw [forall_mem_cons] at memory
    have measured : measureFields (field :: rest) dataSize =
        if maxUint32 < (encodeField field).length + dataSize then none
        else (measureFields rest (dataSize + (encodeField field).length)).map fun result =>
          (result.1, withSize field :: result.2) := by
      cases field with
      | raw value size => rw [encodeField, length_take_of_le memory.1]; rfl
      | string value size => rw [encodeField, length_strBytes]; rfl
    rw [measured, encodeFields_cons, length_append]
    by_cases exceeds : maxUint32 < (encodeField field).length + dataSize
    · rw [if_pos exceeds, if_pos (by omega)]
    · rw [if_neg exceeds, ih memory.2 (by omega)]
      by_cases later : maxUint32 <
          (encodeFields rest).length + (dataSize + (encodeField field).length)
      · rw [if_pos later, if_pos (by omega), map_none]
      · rw [if_neg later, if_neg (by omega), map_some, map_cons, Nat.add_assoc]

theorem fieldBytes_withSize {field : ZbxPackedField} (memory : HasMemory field)
    (fits : (encodeField field).length ≤ maxUint32) :
    fieldBytes (withSize field) = some (encodeField field) := by
  cases field with
  | raw value size => exact if_pos memory
  | string value size =>
    rw [encodeField, length_strBytes] at fits
    have kept : (UInt32.ofNat (strSize value)).toNat = strSize value := by
      rw [maxUint32] at fits
      rw [UInt32.toNat_ofNat', Nat.mod_eq_of_lt (by omega)]
    cases value with
    | none => rw [withSize, fieldBytes, kept, encodeField, strBytes, strSize]
    | some text =>
      rw [withSize, fieldBytes, kept, strSize, copyFrom, if_pos (Nat.le_refl _),
        take_length, map_some, encodeField, strBytes]

theorem writeAt_append (before space : Bytes) {bytes rest : Bytes}
    (fits : space.length = bytes.length + rest.length) :
    writeAt (before ++ space) before.length bytes =
      some (before ++ bytes ++ space.drop bytes.length) := by
  rw [writeAt, if_pos (by rw [length_append]; omega), take_left, drop_append]
  simp

/-- The copy fills the space behind what is there already. -/
theorem writeFields_spec {fields : List ZbxPackedField}
    (memory : ∀ field ∈ fields, HasMemory field) (before : Bytes) {space : Bytes}
    (fits : space.length = (encodeFields fields).length)
    (bounded : (encodeFields fields).length ≤ maxUint32) :
    writeFields (fields.map withSize) (before ++ space) before.length =
      some (before ++ encodeFields fields) := by
  induction fields generalizing before space with
  | nil =>
    rw [length_eq_zero_iff.mp fits]
    rfl
  | cons field rest ih =>
    rw [forall_mem_cons] at memory
    rw [encodeFields_cons, length_append] at fits bounded
    rw [map_cons, writeFields, fieldBytes_withSize memory.1 (by omega), bind_some,
      writeAt_append before space fits, bind_some, ← length_append,
      ih memory.2 _ _ (by omega), encodeFields_cons, append_assoc]
    rw [length_drop]
    omega

/-- The size of a message is the length of its data, which a `zbx_uint32_t` can express. -/
structure Sized (message : ZbxIpcMessage) : Prop where
  exact : message.size = message.data.length
  bounded : message.size ≤ maxUint32

theorem sized_empty : Sized {} :=
  ⟨rfl, Nat.zero_le _⟩

theorem messagePackData_spec {message : ZbxIpcMessage} (sized : Sized message)
    {fields : List ZbxPackedField} (memory : ∀ field ∈ fields, HasMemory field)
    (nonempty : 0 < (encodeFields fields).length) :
    messagePackData message fields = some
      (if maxUint32 < message.size + (encodeFields fields).length then (0, message)
      else ((encodeFields fields).length,
        ⟨message.size + (encodeFields fields).length, message.data ++ encodeFields fields⟩)) := by
  have bounded := sized.bounded
  rw [messagePackData, measureFields_spec memory (Nat.zero_le _), Nat.add_zero]
  by_cases alone : maxUint32 < (encodeFields fields).length
  · rw [if_pos alone, if_pos (by omega)]
  · rw [if_neg alone]
    dsimp only
    rw [Nat.zero_add]
    by_cases exceeds : maxUint32 < message.size + (encodeFields fields).length
    · rw [if_pos (by omega), if_pos exceeds]
    · rw [if_neg (by omega), if_neg exceeds, sized.exact,
        writeFields_spec memory message.data (by rw [length_replicate]) (by omega),
        map_some]

theorem messagePackData_packed {message after : ZbxIpcMessage} (sized : Sized message)
    {fields : List ZbxPackedField} (memory : ∀ field ∈ fields, HasMemory field)
    (nonempty : 0 < (encodeFields fields).length) {size : Nat}
    (packed : messagePackData message fields = some (size, after)) (accepted : size ≠ 0) :
    size = (encodeFields fields).length ∧ Sized after ∧
      after = ⟨message.size + (encodeFields fields).length,
        message.data ++ encodeFields fields⟩ := by
  rw [messagePackData_spec sized memory nonempty, some.injEq] at packed
  split_ifs at packed with exceeds
  · exact absurd (Prod.mk.inj packed).1.symm accepted
  · obtain ⟨rfl, rfl⟩ := Prod.mk.inj packed
    refine ⟨rfl, ⟨?_, Nat.not_lt.mp exceeds⟩, rfl⟩
    rw [length_append, sized.exact]

end Zabbix.Preprocessing.Packing

/-!
# The unpacking functions read the packed layout

For each group of fields, the function that unpacks it reads what was packed.
A length that passes through an `int` is kept only below 2^31 bytes, so the
results for variants, history and steps depend on their sizes.
-/

namespace Zabbix.Preprocessing.Layout

open Common.Serialize Library.ByteReader Messages Packing List

/-! ## Single fields -/

theorem packedField_size {value : Bytes} {size : Nat} (bounded : size < sizeBound) :
    encodeField (packedField value size) = value.take size := by
  rw [sizeBound] at bounded
  rw [packedField, encodeField, UInt32.toNat_ofNat', Nat.mod_eq_of_lt bounded]

@[simp]
theorem encode_packedUint64 (value : UInt64) : encodeField (packedUint64 value) = uint64Bytes value := by
  rw [packedUint64, packedField_size (by decide)]
  exact take_of_length_le (Nat.le_of_eq (length_littleEndian _ _))

@[simp]
theorem encode_packedInt (value : Int32) : encodeField (packedInt value) = intBytes value := by
  rw [packedInt, packedField_size (by decide)]
  exact take_of_length_le (Nat.le_of_eq (length_littleEndian _ _))

@[simp]
theorem encode_packedChar (value : UInt8) : encodeField (packedChar value) = charBytes value := by
  rw [packedChar, packedField_size (by decide)]
  exact take_of_length_le (Nat.le_of_eq (length_littleEndian _ _))

@[simp]
theorem encode_packedString (value : Option CString) :
    encodeField (packedString value) = strBytes value :=
  rfl

theorem length_binBytes (data : BinData) : (binBytes data).length = 4 + data.bytes.length := by
  rw [binBytes, length_append, length_littleEndian]

theorem encode_packedBin {data : BinData} (bounded : 4 + data.bytes.length < sizeBound) :
    encodeField (packedField (binBytes data) (4 + data.bytes.length)) = binBytes data := by
  rw [packedField_size bounded]
  exact take_of_length_le (Nat.le_of_eq (length_binBytes data))

theorem hasMemory_packedField {value : Bytes} {size : Nat} (isMemory : size ≤ value.length) :
    HasMemory (packedField value size) := by
  rw [packedField, HasMemory, UInt32.toNat_ofNat']
  exact (Nat.mod_le _ _).trans isMemory

@[simp]
theorem hasMemory_packedUint64 (value : UInt64) : HasMemory (packedUint64 value) :=
  hasMemory_packedField (Nat.le_of_eq (length_littleEndian _ _).symm)

@[simp]
theorem hasMemory_packedInt (value : Int32) : HasMemory (packedInt value) :=
  hasMemory_packedField (Nat.le_of_eq (length_littleEndian _ _).symm)

@[simp]
theorem hasMemory_packedChar (value : UInt8) : HasMemory (packedChar value) :=
  hasMemory_packedField (Nat.le_of_eq (length_littleEndian _ _).symm)

@[simp]
theorem hasMemory_packedString (value : Option CString) : HasMemory (packedString value) :=
  trivial

@[simp]
theorem hasMemory_packedBin (data : BinData) :
    HasMemory (packedField (binBytes data) (4 + data.bytes.length)) :=
  hasMemory_packedField (Nat.le_of_eq (length_binBytes data).symm)

/-! ## Values with a marker -/

theorem encodeFields_elim {Value : Type} (fields : Value → List ZbxPackedField)
    (value : Option Value) :
    encodeFields (value.elim [] fields) = value.elim [] fun value => encodeFields (fields value) := by
  cases value with
  | none => rfl
  | some value => rfl

theorem reads_readMarked {Value : Type} {bound : Nat} {reader : Reader Value}
    {encode : Value → Bytes} (reads : ∀ value, Reads bound reader (encode value) value)
    (value : Option Value) :
    Reads bound (readMarked reader (marker value)) (value.elim [] encode) value := by
  cases value with
  | none => exact reads_pure none
  | some value => exact reads_map some (reads value)

theorem reads_timespec (ts : ZbxTimespec) :
    Reads sizeBound unpackTimespec (encodeFields (timespecFields ts)) ts := by
  simp only [timespecFields, encodeFields_cons, encode_packedInt, encodeFields_nil]
  apply reads_bind (reads_int _)
  apply reads_bind (reads_int _)
  exact reads_pure _

theorem reads_log (log : ZbxLog) : Reads sizeBound unpackLog (encodeFields (logFields log)) log := by
  simp only [logFields, encodeFields_cons, encode_packedInt, encode_packedString, encodeFields_nil]
  apply reads_bind (reads_str _)
  apply reads_bind (reads_str _)
  apply reads_bind (reads_int _)
  apply reads_bind (reads_int _)
  apply reads_bind (reads_int _)
  exact reads_pure _

theorem reads_agentResult (result : AgentResult) :
    Reads sizeBound unpackAgentResult (encodeFields (resultFields result)) result := by
  simp only [resultFields, encodeFields_cons, encode_packedUint64, encode_packedInt,
    encode_packedChar, encode_packedString, encodeFields_elim]
  apply reads_bind (reads_uint64 _)
  apply reads_bind (reads_uint64 _)
  apply reads_bind (reads_uint64 _)
  apply reads_bind (reads_str _)
  apply reads_bind (reads_str _)
  apply reads_bind (reads_str _)
  apply reads_bind (reads_int _)
  apply reads_bind (reads_int _)
  apply reads_bind (reads_char _)
  exact reads_map _ (reads_readMarked reads_log result.log)

theorem reads_itemValue (value : ZbxPreprocItemValue) :
    Reads sizeBound unpackItemValue (encodeFields (itemValueFields value)) value := by
  simp only [itemValueFields, encodeFields_cons, encodeFields_append, encode_packedUint64,
    encode_packedChar, encode_packedString, encodeFields_elim]
  apply reads_bind (reads_uint64 _)
  apply reads_bind (reads_uint64 _)
  apply reads_bind (reads_char _)
  apply reads_bind (reads_char _)
  apply reads_bind (reads_char _)
  apply reads_bind (reads_str _)
  apply reads_bind (reads_char _)
  apply reads_bind (reads_readMarked reads_timespec value.ts)
  apply reads_bind (reads_char _)
  exact reads_map _ (reads_readMarked reads_agentResult value.result)

/-! ## Lengths that pass through an `int` -/

/-- The first length that an `int` cannot express. -/
def intBound : Nat := 2 ^ 31

theorem toInt_kept {length : Nat} (fits : length < intBound) : toInt length = length := by
  rw [intBound] at fits
  rw [toInt, Int.bmod_def]
  push_cast
  split_ifs
  · omega
  · omega

theorem toInt_wraps {length : Nat} (large : intBound ≤ length) (bounded : length < sizeBound) :
    toInt length = length - (sizeBound : Nat) := by
  rw [intBound] at large
  rw [sizeBound] at bounded ⊢
  rw [toInt, Int.bmod_def]
  push_cast
  split_ifs
  · omega
  · omega

theorem toUint32_kept {length : Nat} (fits : length < sizeBound) : toUint32 length = length := by
  rw [sizeBound] at fits
  unfold toUint32
  omega

theorem count_kept {count : Nat} (fits : count < intBound) :
    (Int32.ofNat count).toInt.toNat = count := by
  rw [Int32.toInt_ofNat_of_lt fits, Int.toNat_natCast]

/-! ## Lists with their count in front -/

theorem length_flatMap_ge {Value : Type} {encode : Value → Bytes} {values : List Value}
    (wide : ∀ value ∈ values, 2 ≤ (encode value).length) :
    2 * values.length ≤ (values.flatMap encode).length := by
  induction values with
  | nil => exact Nat.zero_le _
  | cons value rest ih =>
    rw [forall_mem_cons] at wide
    have later := ih wide.2
    rw [flatMap_cons, length_append, length_cons]
    omega

def readCounted {Value : Type} (reader : Reader Value) : Reader (List Value) := do
  let count ← zbxDeserializeInt
  readMany reader count.toInt.toNat

section Counted

variable {Value : Type} {reader : Reader Value} {encode : Value → Bytes} {values : List Value}

variable (wide : ∀ value ∈ values, 2 ≤ (encode value).length)

include wide

theorem count_of_length (bounded : (values.flatMap encode).length < sizeBound) :
    (Int32.ofNat values.length).toInt.toNat = values.length := by
  have enough := length_flatMap_ge wide
  apply count_kept
  rw [intBound]
  rw [sizeBound] at bounded
  omega

theorem reads_counted (reads : ∀ value ∈ values, Reads sizeBound reader (encode value) value) :
    Reads sizeBound (readCounted reader)
      (intBytes (Int32.ofNat values.length) ++ values.flatMap encode) values := by
  intro bounded
  rw [length_append] at bounded
  have count := count_of_length wide (by omega)
  have readsAll := reads_readMany reads
  rw [← count] at readsAll
  apply reads_bind (reads_int _) readsAll
  rwa [length_append]

theorem fails_counted (bounded : (values.flatMap encode).length < sizeBound)
    (decided : ∀ value ∈ values, Reads sizeBound reader (encode value) value ∨
      Fails sizeBound reader (encode value))
    (found : ∃ value ∈ values, Fails sizeBound reader (encode value)) :
    Fails sizeBound (readCounted reader)
      (intBytes (Int32.ofNat values.length) ++ values.flatMap encode) := by
  have failsAll := fails_readMany decided found
  rw [← count_of_length wide bounded] at failsAll
  exact fails_bind_right (reads_int _) failsAll

theorem derails_counted
    (bounded : (values.flatMap encode).length < sizeBound) (sinks : Sinks reader)
    (decided : ∀ value ∈ values, Reads sizeBound reader (encode value) value ∨
      Derails sizeBound reader (encode value))
    (found : ∃ value ∈ values, Derails sizeBound reader (encode value)) :
    Derails sizeBound (readCounted reader)
      (intBytes (Int32.ofNat values.length) ++ values.flatMap encode) := by
  have derailsAll := derails_readMany sinks decided found
  rw [← count_of_length wide bounded] at derailsAll
  exact derails_bind_right (reads_int _) derailsAll

end Counted

/-! ## Variants -/

/-- The number of bytes that a variant takes in a message. -/
def variantSize : ZbxVariant → Nat
  | .none => 1
  | .str data => 1 + (strSize data + 4)
  | .dbl _ | .ui64 _ => 1 + 8
  | .bin data => 1 + (4 + data.bytes.length)

/-- The size of the field for binary data is not too large for a `zbx_uint32_t`. -/
def BinFits (value : ZbxVariant) : Prop :=
  ∀ data, value = .bin data → 4 + data.bytes.length < sizeBound

theorem binFits_of_size {value : ZbxVariant} (fits : variantSize value < intBound) :
    BinFits value := by
  rintro data rfl
  rw [variantSize, intBound] at fits
  rw [sizeBound]
  omega

theorem length_charBytes (value : UInt8) : (charBytes value).length = 1 :=
  length_littleEndian _ _

theorem length_intBytes (value : Int32) : (intBytes value).length = 4 :=
  length_littleEndian _ _

theorem length_uint64Bytes (value : UInt64) : (uint64Bytes value).length = 8 :=
  length_littleEndian _ _

theorem length_variant {value : ZbxVariant} (fits : BinFits value) :
    (encodeFields (preprocessorPackVariant value)).length = variantSize value := by
  unfold preprocessorPackVariant
  rw [encodeFields_cons, length_append, encode_packedChar, length_charBytes]
  cases value with
  | none => rfl
  | str data =>
    rw [variantSize, encodeFields_cons, encodeFields_nil, append_nil, encode_packedString,
      length_strBytes]
  | dbl bits =>
    rw [variantSize, encodeFields_cons, encodeFields_nil, append_nil, encode_packedUint64,
      length_uint64Bytes]
  | ui64 data =>
    rw [variantSize, encodeFields_cons, encodeFields_nil, append_nil, encode_packedUint64,
      length_uint64Bytes]
  | bin data =>
    rw [variantSize, encodeFields_cons, encodeFields_nil, append_nil,
      encode_packedBin (fits data rfl), length_binBytes]

theorem reads_variant {value : ZbxVariant} (fits : BinFits value) :
    Reads sizeBound unpackVariant (encodeFields (preprocessorPackVariant value)) value := by
  unfold preprocessorPackVariant
  rw [encodeFields_cons, encode_packedChar]
  apply reads_bind (reads_char _)
  cases value with
  | none => exact reads_pure _
  | str data => exact reads_bind (reads_str data) (reads_pure _)
  | dbl bits =>
    rw [encodeFields_cons, encode_packedUint64]
    exact reads_bind (reads_uint64 bits) (reads_pure _)
  | ui64 data =>
    rw [encodeFields_cons, encode_packedUint64]
    exact reads_bind (reads_uint64 data) (reads_pure _)
  | bin data =>
    rw [encodeFields_cons, encode_packedBin (fits data rfl)]
    exact reads_bind (reads_bin data) (reads_pure _)

theorem reads_unpackVariant {value : ZbxVariant} (fits : variantSize value < intBound) :
    Reads sizeBound preprocesserUnpackVariant (encodeFields (preprocessorPackVariant value))
      value := by
  have binFits := binFits_of_size fits
  apply reads_narrow (reads_variant binFits)
  rw [length_variant binFits, toInt_kept fits]

/-- What follows a variant that is too large is looked for before the message. -/
theorem fails_after_variant {Result : Type} {value : ZbxVariant} (fits : BinFits value)
    (large : intBound ≤ variantSize value) (bounded : variantSize value < sizeBound)
    {next : ZbxVariant → Reader Result} (needs : NeedsData (next value)) (second : Bytes) :
    Fails sizeBound (preprocesserUnpackVariant >>= next)
      (encodeFields (preprocessorPackVariant value) ++ second) := by
  apply fails_narrow_bind (reads_variant fits) _ needs
  rw [length_variant fits]
  exact toInt_wraps large bounded

/-- Binary data that has been read was in the message. -/
theorem yields_variant :
    Yields preprocesserUnpackVariant fun buffer value =>
      ∀ data, value = .bin data → data.bytes.length + 4 ≤ buffer.length := by
  apply yields_narrow
  unfold unpackVariant
  refine yields_bind (yields_trivial _) fun type => ?_
  unfold unpackVariantData
  split_ifs
  · exact yields_bind (yields_trivial _) fun _ => yields_pure fun _ _ _ _ => nofun
  · exact yields_bind (yields_trivial _) fun _ => yields_pure fun _ _ _ _ => nofun
  · exact yields_bind (yields_trivial _) fun _ => yields_pure fun _ _ _ _ => nofun
  · refine yields_bind yields_bin fun read => yields_pure ?_
    intro buffer inside _ data same
    exact ZbxVariant.bin.inj same ▸ inside
  · exact yields_pure fun _ _ _ => nofun

/-! ## History -/

/-- The number of bytes that a history entry takes in a message. -/
def opHistorySize (ophistory : ZbxPreprocOpHistory) : Nat :=
  4 + (variantSize ophistory.value + 8)

/-- The number of bytes that a history takes in a message. -/
def historySize (history : List ZbxPreprocOpHistory) : Nat :=
  4 + (history.map opHistorySize).sum

theorem needsData_timespec : NeedsData unpackTimespec :=
  needsData_bind needsData_int _

theorem needsData_history : NeedsData preprocesserUnpackHistory :=
  needsData_narrow (needsData_bind needsData_int _)

theorem length_timespec (ts : ZbxTimespec) : (encodeFields (timespecFields ts)).length = 8 := by
  simp only [timespecFields, encodeFields_cons, encode_packedInt, encodeFields_nil,
    length_append, length_intBytes, length_nil]

theorem encode_opHistory (ophistory : ZbxPreprocOpHistory) :
    encodeFields (opHistoryFields ophistory) = intBytes ophistory.index ++
      (encodeFields (preprocessorPackVariant ophistory.value) ++
        encodeFields (timespecFields ophistory.ts)) := by
  rw [opHistoryFields, encodeFields_cons, encode_packedInt, encodeFields_append]

theorem encode_history (history : List ZbxPreprocOpHistory) :
    encodeFields (preprocessorPackHistory history) = intBytes (Int32.ofNat history.length) ++
      history.flatMap fun ophistory => encodeFields (opHistoryFields ophistory) := by
  rw [preprocessorPackHistory, encodeFields_cons, encode_packedInt, encodeFields_flatMap]

theorem length_opHistory {ophistory : ZbxPreprocOpHistory} (fits : BinFits ophistory.value) :
    (encodeFields (opHistoryFields ophistory)).length = opHistorySize ophistory := by
  rw [encode_opHistory, length_append, length_append, length_intBytes,
    length_variant fits, length_timespec, opHistorySize]

variable {history : List ZbxPreprocOpHistory}

theorem length_history (fits : ∀ ophistory ∈ history, BinFits ophistory.value) :
    (encodeFields (preprocessorPackHistory history)).length = historySize history := by
  rw [encode_history, length_append, length_intBytes, length_flatMap, historySize]
  congr 2
  exact map_congr_left fun ophistory member => length_opHistory (fits ophistory member)

theorem opHistory_wide (ophistory : ZbxPreprocOpHistory) :
    2 ≤ (encodeFields (opHistoryFields ophistory)).length := by
  rw [encode_opHistory, length_append, length_intBytes]
  omega

theorem opHistorySize_le {ophistory : ZbxPreprocOpHistory} (member : ophistory ∈ history) :
    variantSize ophistory.value < historySize history := by
  have le := single_le_sum (fun _ _ => Nat.zero_le _) _
    (List.mem_map_of_mem (f := opHistorySize) member)
  rw [historySize]
  rw [opHistorySize] at le
  omega

theorem reads_opHistory {ophistory : ZbxPreprocOpHistory}
    (fits : variantSize ophistory.value < intBound) :
    Reads sizeBound unpackOpHistory (encodeFields (opHistoryFields ophistory)) ophistory := by
  rw [encode_opHistory]
  apply reads_bind (reads_int _)
  apply reads_bind (reads_unpackVariant fits)
  exact reads_map _ (reads_timespec _)

theorem fails_opHistory {ophistory : ZbxPreprocOpHistory} (fits : BinFits ophistory.value)
    (large : intBound ≤ variantSize ophistory.value)
    (bounded : variantSize ophistory.value < sizeBound) :
    Fails sizeBound unpackOpHistory (encodeFields (opHistoryFields ophistory)) := by
  rw [encode_opHistory]
  apply fails_bind_right (reads_int _)
  exact fails_after_variant fits large bounded (needsData_bind needsData_timespec _) _

theorem reads_history (fits : ∀ ophistory ∈ history, variantSize ophistory.value < intBound) :
    Reads sizeBound unpackHistory (encodeFields (preprocessorPackHistory history)) history := by
  rw [encode_history]
  exact reads_counted (fun ophistory _ => opHistory_wide ophistory)
    fun ophistory member => reads_opHistory (fits ophistory member)

theorem reads_unpackHistory (fits : historySize history < intBound) :
    Reads sizeBound preprocesserUnpackHistory (encodeFields (preprocessorPackHistory history))
      history := by
  have small (ophistory : ZbxPreprocOpHistory) (member : ophistory ∈ history) :
      variantSize ophistory.value < intBound :=
    (opHistorySize_le member).trans fits
  apply reads_narrow (reads_history small)
  rw [length_history fun ophistory member => binFits_of_size (small ophistory member)]
  exact toInt_kept fits

/-- What follows a history that is too large is looked for before the message. -/
theorem fails_after_history {Result : Type}
    (fits : ∀ ophistory ∈ history, BinFits ophistory.value)
    (large : intBound ≤ historySize history) (bounded : historySize history < sizeBound)
    {next : List ZbxPreprocOpHistory → Reader Result} (needs : ∀ history, NeedsData (next history))
    (second : Bytes) :
    Fails sizeBound (preprocesserUnpackHistory >>= next)
      (encodeFields (preprocessorPackHistory history) ++ second) := by
  have length := length_history fits
  by_cases small : ∀ ophistory ∈ history, variantSize ophistory.value < intBound
  · apply fails_narrow_bind (reads_history small) _ (needs history)
    rw [length]
    exact toInt_wraps large bounded
  · push Not at small
    obtain ⟨ophistory, member, isLarge⟩ := small
    have below (other : ZbxPreprocOpHistory) (isIn : other ∈ history) :
        variantSize other.value < sizeBound :=
      (opHistorySize_le isIn).trans bounded
    apply fails_bind_left
    apply fails_narrow
    rw [encode_history] at length ⊢
    apply fails_counted (fun ophistory _ => opHistory_wide ophistory)
    · rw [length_append] at length
      omega
    · intro other isIn
      by_cases isSmall : variantSize other.value < intBound
      · exact Or.inl (reads_opHistory isSmall)
      · exact Or.inr (fails_opHistory (fits other isIn) (Nat.not_lt.mp isSmall) (below other isIn))
    · exact ⟨ophistory, member,
        fails_opHistory (fits ophistory member) isLarge (below ophistory member)⟩

theorem yields_history :
    Yields preprocesserUnpackHistory fun buffer history => ∀ ophistory ∈ history,
      ∀ data, ophistory.value = .bin data → data.bytes.length + 4 ≤ buffer.length := by
  apply yields_narrow
  unfold unpackHistory
  refine yields_bind (yields_trivial _) fun count => ?_
  have each : Yields unpackOpHistory fun buffer ophistory =>
      ∀ data, ophistory.value = .bin data → data.bytes.length + 4 ≤ buffer.length := by
    unfold unpackOpHistory
    refine yields_bind (yields_trivial _) fun index => yields_bind yields_variant fun value => ?_
    refine yields_bind (yields_trivial _) fun ts => yields_pure ?_
    exact fun buffer _ inside _ => inside
  intro buffer offset history final isRead _
  exact yields_readMany each _ buffer offset history final isRead

/-! ## Steps -/

/-- The number of bytes that a step takes in a message. -/
def stepSize (step : ZbxPreprocOp) : Nat :=
  1 + (strSize step.params + 4 + (1 + (strSize step.errorHandlerParams + 4)))

theorem length_step (step : ZbxPreprocOp) :
    (encodeFields (preprocessorPackStep step)).length = stepSize step := by
  simp only [preprocessorPackStep, encodeFields_cons, encode_packedChar, encode_packedString,
    encodeFields_nil, length_append, length_charBytes, length_strBytes, length_nil,
    stepSize, Nat.add_zero]

theorem encode_steps (steps : List ZbxPreprocOp) :
    encodeFields (preprocessorPackSteps steps) = intBytes (Int32.ofNat steps.length) ++
      steps.flatMap fun step => encodeFields (preprocessorPackStep step) := by
  rw [preprocessorPackSteps, encodeFields_cons, encode_packedInt, encodeFields_flatMap]

theorem step_wide (step : ZbxPreprocOp) : 2 ≤ (encodeFields (preprocessorPackStep step)).length := by
  rw [length_step, stepSize]
  omega

theorem reads_step (step : ZbxPreprocOp) :
    Reads sizeBound unpackStep (encodeFields (preprocessorPackStep step)) step := by
  simp only [preprocessorPackStep, encodeFields_cons, encode_packedChar, encode_packedString,
    encodeFields_nil]
  apply reads_bind (reads_char _)
  apply reads_bind (reads_strPtr _)
  apply reads_bind (reads_char _)
  apply reads_bind (reads_strPtr _)
  exact reads_pure _

theorem reads_unpackStep {step : ZbxPreprocOp} (fits : stepSize step < intBound) :
    Reads sizeBound preprocessorUnpackStep (encodeFields (preprocessorPackStep step)) step := by
  apply reads_narrow (reads_step step)
  rw [length_step, toInt_kept fits]

theorem derails_unpackStep {step : ZbxPreprocOp} (large : intBound ≤ stepSize step)
    (bounded : stepSize step < sizeBound) :
    Derails sizeBound preprocessorUnpackStep (encodeFields (preprocessorPackStep step)) := by
  apply derails_narrow (reads_step step)
  rw [length_step]
  exact toInt_wraps large bounded

theorem needsData_steps : NeedsData preprocessorUnpackSteps :=
  needsData_bind needsData_int _

variable {steps : List ZbxPreprocOp}

theorem reads_steps (fits : ∀ step ∈ steps, stepSize step < intBound) :
    Reads sizeBound preprocessorUnpackSteps (encodeFields (preprocessorPackSteps steps)) steps := by
  rw [encode_steps]
  exact reads_counted (fun step _ => step_wide step)
    fun step member => reads_unpackStep (fits step member)

theorem derails_steps (bounded : (encodeFields (preprocessorPackSteps steps)).length < sizeBound)
    (large : ∃ step ∈ steps, intBound ≤ stepSize step) :
    Derails sizeBound preprocessorUnpackSteps (encodeFields (preprocessorPackSteps steps)) := by
  rw [encode_steps] at bounded ⊢
  rw [length_append] at bounded
  have below (step : ZbxPreprocOp) (member : step ∈ steps) : stepSize step < sizeBound := by
    have le := (sublist_flatten_of_mem (List.mem_map_of_mem
      (f := fun step => encodeFields (preprocessorPackStep step)) member)).length_le
    rw [length_step, ← flatMap_def] at le
    omega
  have sinks : Sinks preprocessorUnpackStep :=
    sinks_of_needsData (needsData_narrow (needsData_bind needsData_char _))
  obtain ⟨step, member, isLarge⟩ := large
  apply derails_counted (fun step _ => step_wide step) (by omega) sinks
  · intro other isIn
    by_cases isSmall : stepSize other < intBound
    · exact Or.inl (reads_unpackStep isSmall)
    · exact Or.inr (derails_unpackStep (Nat.not_lt.mp isSmall) (below other isIn))
  · exact ⟨step, member, derails_unpackStep isLarge (below step member)⟩

end Zabbix.Preprocessing.Layout
