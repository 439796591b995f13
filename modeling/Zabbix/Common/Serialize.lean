import Mathlib.Data.List.TakeWhile
import Zabbix.Library.ByteReader

/-!
# Serialization of values

The macros of `zbxserialize.h`.  A value is copied as its bytes, a string with
its size in front, where the size counts the terminating zero and a null pointer
has size zero.  Values of type `double` are copied bit by bit, so a `double` is
its 64 bits here.
-/

namespace Zabbix.Common.Serialize

open Library.ByteReader List Option

/-- The bytes of a C string up to its terminating zero. -/
@[ext]
structure CString where
  bytes : Bytes
  noNul : 0 ∉ bytes
deriving DecidableEq

def CString.memory (text : CString) : Bytes :=
  text.bytes ++ [0]

/-- The string that begins at a place in memory. -/
def CString.ofMemory (memory : Bytes) : CString where
  bytes := memory.takeWhile (· ≠ 0)
  noNul member := by simpa using mem_takeWhile_imp member

@[simp]
theorem CString.ofMemory_memory (text : CString) (after : Bytes) :
    CString.ofMemory (text.memory ++ after) = text := by
  have kept : ∀ byte ∈ text.bytes, decide (byte ≠ 0) = true := by
    intro byte member
    rw [decide_eq_true_iff]
    rintro rfl
    exact text.noNul member
  apply CString.ext
  change (text.memory ++ after).takeWhile _ = text.bytes
  rw [memory, append_assoc, takeWhile_append_of_pos kept]
  simp

/-- Length prefixed binary data; the length is a `zbx_uint32_t`. -/
@[ext]
structure BinData where
  bytes : Bytes
  bounded : bytes.length < 2 ^ 32
deriving DecidableEq

/-- The data of a length prefix, which is below 2^32, so that nothing is cut off. -/
def BinData.ofBytes (bytes : Bytes) : BinData where
  bytes := bytes.take (2 ^ 32 - 1)
  bounded := by
    rw [length_take]
    omega

theorem BinData.ofBytes_bytes (data : BinData) : BinData.ofBytes data.bytes = data := by
  apply BinData.ext
  apply take_of_length_le
  have bounded := data.bounded
  omega

/-! ## Reading -/

/-- `zbx_deserialize_uint64`; also `zbx_deserialize_double`. -/
def zbxDeserializeUint64 : Reader UInt64 := do
  let bytes ← readBytes 8
  pure (UInt64.ofNat (ofLittleEndian bytes))

def zbxDeserializeInt : Reader Int32 := do
  let bytes ← readBytes 4
  pure (UInt32.ofNat (ofLittleEndian bytes)).toInt32

def zbxDeserializeChar : Reader UInt8 := do
  let bytes ← readBytes 1
  pure (UInt8.ofNat (ofLittleEndian bytes))

def deserializeLength : Reader Nat := do
  let bytes ← readBytes 4
  pure (ofLittleEndian bytes)

/-- A string that is copied with a zero behind it, unless its length is zero. -/
def copyString (valueLen : Nat) : Reader (Option CString) :=
  if 0 < valueLen then do
    let memory ← readBytes valueLen
    pure (some (CString.ofMemory (memory ++ [0])))
  else
    pure none

def zbxDeserializeStr : Reader (Option CString) := do
  let valueLen ← deserializeLength
  copyString valueLen

/-- A string that stays in the buffer, which the offset passes. -/
def pointString (valueLen : Nat) : Reader (Option CString) := fun buffer offset =>
  if 0 < valueLen then
    some (some (CString.ofMemory (buffer.drop offset.toNat)), offset + valueLen)
  else
    some (none, offset)

def zbxDeserializeStrPtr : Reader (Option CString) := do
  let valueLen ← deserializeLength
  pointString valueLen

/-- `zbx_deserialize_bin`; the length itself is a part of what is copied. -/
def zbxDeserializeBin : Reader BinData := do
  let valueLen ← deserializeLength
  let bytes ← readBytes valueLen
  pure (BinData.ofBytes bytes)

/-! ## What is written -/

/-- The bytes of a `zbx_uint64_t` or a `double`. -/
def uint64Bytes (value : UInt64) : Bytes :=
  littleEndian 8 value.toNat

/-- The bytes of an `int`. -/
def intBytes (value : Int32) : Bytes :=
  littleEndian 4 value.toUInt32.toNat

/-- The byte of an `unsigned char`. -/
def charBytes (value : UInt8) : Bytes :=
  littleEndian 1 value.toNat

/-- A string with its size in front. -/
def strBytes : Option CString → Bytes
  | none => littleEndian 4 0
  | some text => littleEndian 4 text.memory.length ++ text.memory

/-- Binary data as a variant keeps it: its length, and the data. -/
def binBytes (data : BinData) : Bytes :=
  littleEndian 4 data.bytes.length ++ data.bytes

variable {bound : Nat}

/-- The first length that a `zbx_uint32_t` cannot express. -/
def sizeBound : Nat := 2 ^ 32

theorem reads_littleEndian {Value : Type} {count value : Nat} {bytes : Bytes}
    (isEncoding : bytes = littleEndian count value) (wrap : Bytes → Value) :
    Reads bound (do let bytes ← readBytes count; pure (wrap bytes)) bytes (wrap bytes) := by
  have reads := @reads_readBytes bound bytes
  rw [isEncoding, length_littleEndian] at reads
  rw [isEncoding]
  exact reads_map wrap reads

theorem reads_uint64 (value : UInt64) :
    Reads bound zbxDeserializeUint64 (uint64Bytes value) value := by
  have reads := @reads_littleEndian bound _ 8 value.toNat _ rfl
    fun bytes => UInt64.ofNat (ofLittleEndian bytes)
  rw [ofLittleEndian_littleEndian (by have := value.toNat_lt; omega), UInt64.ofNat_toNat] at reads
  exact reads

theorem reads_int (value : Int32) : Reads bound zbxDeserializeInt (intBytes value) value := by
  have reads := @reads_littleEndian bound _ 4 value.toUInt32.toNat _ rfl
    fun bytes => (UInt32.ofNat (ofLittleEndian bytes)).toInt32
  rw [ofLittleEndian_littleEndian (by have := value.toUInt32.toNat_lt; omega),
    UInt32.ofNat_toNat, Int32.toInt32_toUInt32] at reads
  exact reads

theorem reads_char (value : UInt8) : Reads bound zbxDeserializeChar (charBytes value) value := by
  have reads := @reads_littleEndian bound _ 1 value.toNat _ rfl
    fun bytes => UInt8.ofNat (ofLittleEndian bytes)
  rw [ofLittleEndian_littleEndian (by have := value.toNat_lt; omega), UInt8.ofNat_toNat] at reads
  exact reads

theorem reads_length {length : Nat} (bounded : length < sizeBound) :
    Reads bound deserializeLength (littleEndian 4 length) length := by
  have reads := @reads_littleEndian bound _ 4 length _ rfl ofLittleEndian
  rw [ofLittleEndian_littleEndian (by rw [sizeBound] at bounded; omega)] at reads
  exact reads

theorem reads_str (value : Option CString) :
    Reads sizeBound zbxDeserializeStr (strBytes value) value := by
  cases value with
  | none =>
    have nothing : Reads sizeBound (copyString 0) [] none := reads_pure none
    exact reads_bind (reads_length (by decide)) nothing
  | some text =>
    intro bounded
    rw [strBytes, length_append, length_littleEndian] at bounded
    apply reads_bind (reads_length (by omega))
    · have positive : 0 < text.memory.length := by simp [CString.memory]
      rw [copyString, if_pos positive]
      have reads := reads_map (fun memory => some (CString.ofMemory (memory ++ [0])))
        (@reads_readBytes sizeBound text.memory)
      rwa [CString.ofMemory_memory] at reads
    · rw [length_append, length_littleEndian]
      exact bounded

theorem reads_strPtr (value : Option CString) :
    Reads sizeBound zbxDeserializeStrPtr (strBytes value) value := by
  cases value with
  | none =>
    have nothing : Reads sizeBound (pointString 0) [] none := reads_pure none
    exact reads_bind (reads_length (by decide)) nothing
  | some text =>
    intro bounded
    rw [strBytes, length_append, length_littleEndian] at bounded
    apply reads_bind (reads_length (by omega))
    · rintro - buffer offset ⟨before, after, rfl, rfl⟩
      have positive : 0 < text.memory.length := by simp [CString.memory]
      rw [pointString, if_pos positive, Int.toNat_natCast, append_assoc, drop_left,
        CString.ofMemory_memory]
    · rw [length_append, length_littleEndian]
      exact bounded

theorem reads_bin (data : BinData) : Reads bound zbxDeserializeBin (binBytes data) data := by
  have reads := reads_map BinData.ofBytes (@reads_readBytes bound data.bytes)
  rw [BinData.ofBytes_bytes] at reads
  apply reads_bind (reads_length data.bounded)
  exact reads

theorem yields_bin :
    Yields zbxDeserializeBin fun buffer data => data.bytes.length + 4 ≤ buffer.length := by
  intro buffer offset data final isRead
  obtain ⟨⟨valueLen, middle⟩, isLength, isData⟩ := bind_eq_some_iff.mp isRead
  obtain ⟨⟨lengthBytes, _⟩, isPrefix, same⟩ := bind_eq_some_iff.mp isLength
  obtain ⟨_, isSlice, same'⟩ := map_eq_some_iff.mp isPrefix
  obtain ⟨rfl, rfl⟩ := Prod.mk.inj same'
  obtain ⟨-, rfl⟩ := Prod.mk.inj (some.inj same)
  obtain ⟨⟨_, _⟩, isBytes, same⟩ := bind_eq_some_iff.mp isData
  obtain ⟨bytes, isSlice', same'⟩ := map_eq_some_iff.mp isBytes
  obtain ⟨rfl, rfl⟩ := Prod.mk.inj same'
  obtain ⟨rfl, -⟩ := Prod.mk.inj (some.inj same)
  have before := slice_bounds isSlice
  have inside := slice_bounds isSlice'
  change (bytes.take _).length + 4 ≤ buffer.length
  rw [length_take]
  dsimp only at inside
  omega

theorem needsData_length : NeedsData deserializeLength :=
  needsData_bind (needsData_readBytes 4) _

theorem needsData_int : NeedsData zbxDeserializeInt :=
  needsData_bind (needsData_readBytes 4) _

theorem needsData_char : NeedsData zbxDeserializeChar :=
  needsData_bind (needsData_readBytes 1) _

theorem needsData_str : NeedsData zbxDeserializeStr :=
  needsData_bind needsData_length _

end Zabbix.Common.Serialize
