import Mathlib.Data.List.Basic
import Mathlib.Tactic.Ring

/-!
# Reading values from a byte buffer

A reader takes a buffer and an offset, and returns a value and the offset after
it, or nothing if it would read outside the buffer.  Offsets are integers,
because an offset that is computed with a machine integer may come out negative.

`Reads` says that a reader decodes an encoding wherever it stands in a buffer,
`Fails` that it leaves the buffer there, and `Derails` that it leaves the buffer
or ends before it.  Each has rules for sequencing, for a reader whose length is
converted to a narrower integer, and for repetition.
Encodings are below a bound, the first length that the format cannot express.
-/

namespace Zabbix.Library.ByteReader

open List Option

abbrev Bytes := List UInt8

/-! ## Numbers as bytes -/

/-- The `count` lowest bytes of a number, the lowest first. -/
def littleEndian : Nat → Nat → Bytes
  | 0, _ => []
  | count + 1, value => UInt8.ofNat value :: littleEndian count (value / 256)

def ofLittleEndian : Bytes → Nat
  | [] => 0
  | byte :: rest => byte.toNat + 256 * ofLittleEndian rest

@[simp]
theorem length_littleEndian (count value : Nat) : (littleEndian count value).length = count := by
  induction count generalizing value with
  | zero => rfl
  | succ count ih => rw [littleEndian, length_cons, ih]

theorem ofLittleEndian_littleEndian {count value : Nat} (bounded : value < 256 ^ count) :
    ofLittleEndian (littleEndian count value) = value := by
  induction count generalizing value with
  | zero =>
    rw [pow_zero] at bounded
    rw [littleEndian, ofLittleEndian]
    omega
  | succ count ih =>
    rw [pow_succ] at bounded
    rw [littleEndian, ofLittleEndian, ih (by omega), UInt8.toNat_ofNat']
    omega

theorem ofLittleEndian_lt (bytes : Bytes) : ofLittleEndian bytes < 256 ^ bytes.length := by
  induction bytes with
  | nil => simp [ofLittleEndian]
  | cons byte rest ih =>
    have := byte.toNat_lt
    rw [ofLittleEndian, length_cons, pow_succ]
    omega

theorem littleEndian_ofLittleEndian (bytes : Bytes) :
    littleEndian bytes.length (ofLittleEndian bytes) = bytes := by
  induction bytes with
  | nil => rfl
  | cons byte rest ih =>
    have := byte.toNat_lt
    have quotient : (byte.toNat + 256 * ofLittleEndian rest) / 256 = ofLittleEndian rest := by
      omega
    have low : UInt8.ofNat (byte.toNat + 256 * ofLittleEndian rest) = byte := by
      apply UInt8.toNat_inj.mp
      rw [UInt8.toNat_ofNat']
      omega
    rw [length_cons, ofLittleEndian, littleEndian, quotient, ih, low]

/-! ## Buffers -/

/-- `count` bytes of a buffer, if they are inside. -/
def slice (buffer : Bytes) (offset : Int) (count : Nat) : Option Bytes :=
  if 0 ≤ offset ∧ offset.toNat + count ≤ buffer.length then
    some ((buffer.drop offset.toNat).take count)
  else
    none

/-- An encoding stands in a buffer at an offset. -/
def Holds (buffer : Bytes) (offset : Int) (encoding : Bytes) : Prop :=
  ∃ before after, buffer = before ++ encoding ++ after ∧ offset = before.length

variable {buffer encoding first second : Bytes} {offset : Int}

theorem holds_self (encoding : Bytes) : Holds encoding 0 encoding :=
  ⟨[], [], by simp, rfl⟩

theorem holds_left (holds : Holds buffer offset (first ++ second)) : Holds buffer offset first := by
  obtain ⟨before, after, rfl, rfl⟩ := holds
  exact ⟨before, second ++ after, by simp, rfl⟩

theorem holds_right (holds : Holds buffer offset (first ++ second)) :
    Holds buffer (offset + first.length) second := by
  obtain ⟨before, after, rfl, rfl⟩ := holds
  exact ⟨before ++ first, after, by simp, by simp⟩

theorem holds_bounds (holds : Holds buffer offset encoding) :
    0 ≤ offset ∧ offset + encoding.length ≤ buffer.length := by
  obtain ⟨before, after, rfl, rfl⟩ := holds
  simp only [length_append]
  omega

theorem slice_holds (holds : Holds buffer offset encoding) :
    slice buffer offset encoding.length = some encoding := by
  obtain ⟨before, after, rfl, rfl⟩ := holds
  rw [slice, if_pos, Int.toNat_natCast, append_assoc, drop_left, take_left]
  simp only [length_append, Int.toNat_natCast]
  omega

theorem slice_negative (negative : offset < 0) (count : Nat) : slice buffer offset count = none :=
  if_neg fun inside => by omega

theorem slice_bounds {count : Nat} {bytes : Bytes} (sliced : slice buffer offset count = some bytes) :
    0 ≤ offset ∧ offset + count ≤ buffer.length ∧ bytes.length = count := by
  unfold slice at sliced
  split_ifs at sliced with inside
  rw [← some.inj sliced, length_take, length_drop]
  omega

/-! ## Readers -/

/-- A reader returns a value and the offset after it. -/
def Reader (Value : Type) : Type :=
  Bytes → Int → Option (Value × Int)

instance : Monad Reader where
  pure value := fun _ offset => some (value, offset)
  bind reader next := fun buffer offset =>
    (reader buffer offset).bind fun result => next result.1 buffer result.2

/-- Read a number of bytes. -/
def readBytes (count : Nat) : Reader Bytes := fun buffer offset =>
  (slice buffer offset count).map fun bytes => (bytes, offset + count)

/-- Advance by the converted length of what has been read. -/
def narrow {Value : Type} (convert : Int → Int) (reader : Reader Value) : Reader Value :=
  fun buffer offset =>
    (reader buffer offset).map fun result => (result.1, offset + convert (result.2 - offset))

/-- Read a number of values one after another. -/
def readMany {Value : Type} (reader : Reader Value) : Nat → Reader (List Value)
  | 0 => pure []
  | count + 1 => do
      let value ← reader
      let rest ← readMany reader count
      pure (value :: rest)

variable {Value Result : Type} {reader : Reader Value} {next : Value → Reader Result}
variable {value : Value} {result : Result} {bound : Nat} {convert : Int → Int}

theorem bind_apply (reader : Reader Value) (next : Value → Reader Result) (buffer : Bytes)
    (offset : Int) :
    (reader >>= next) buffer offset =
      (reader buffer offset).bind fun result => next result.1 buffer result.2 :=
  rfl

/-! ## Readers that decode -/

/-- The reader decodes the encoding to the value, and stops at its end. -/
def Reads (bound : Nat) (reader : Reader Value) (encoding : Bytes) (value : Value) : Prop :=
  encoding.length < bound → ∀ buffer offset, Holds buffer offset encoding →
    reader buffer offset = some (value, offset + encoding.length)

theorem reads_pure (value : Value) : Reads bound (pure value) [] value := by
  intro _ buffer offset _
  change some (value, offset) = some (value, offset + 0)
  rw [add_zero]

theorem reads_bind (readsFirst : Reads bound reader first value)
    (readsSecond : Reads bound (next value) second result) :
    Reads bound (reader >>= next) (first ++ second) result := by
  intro bounded buffer offset holds
  rw [length_append] at bounded
  rw [bind_apply, readsFirst (by omega) buffer offset (holds_left holds), bind_some,
    readsSecond (by omega) buffer _ (holds_right holds), length_append]
  push_cast
  rw [add_assoc]

theorem reads_map (wrap : Value → Result) (reads : Reads bound reader encoding value) :
    Reads bound (do let value ← reader; pure (wrap value)) encoding (wrap value) := by
  have sequenced : Reads bound (reader >>= fun value => pure (wrap value)) (encoding ++ [])
      (wrap value) :=
    reads_bind reads (reads_pure (wrap value))
  rwa [append_nil] at sequenced

theorem reads_readBytes (encoding : Bytes) :
    Reads bound (readBytes encoding.length) encoding encoding := by
  intro _ buffer offset holds
  rw [readBytes, slice_holds holds, map_some]

theorem reads_narrow (reads : Reads bound reader encoding value)
    (kept : convert encoding.length = encoding.length) :
    Reads bound (narrow convert reader) encoding value := by
  intro bounded buffer offset holds
  rw [narrow, reads bounded buffer offset holds, map_some, add_sub_cancel_left, kept]

theorem reads_readMany {encode : Value → Bytes} {values : List Value}
    (reads : ∀ value ∈ values, Reads bound reader (encode value) value) :
    Reads bound (readMany reader values.length) (values.flatMap encode) values := by
  induction values with
  | nil => exact reads_pure []
  | cons value rest ih =>
    rw [forall_mem_cons] at reads
    exact reads_bind reads.1 (reads_map (value :: ·) (ih reads.2))

/-! ## Readers that leave the buffer -/

/-- The reader leaves the buffer where the encoding stands. -/
def Fails (bound : Nat) (reader : Reader Value) (encoding : Bytes) : Prop :=
  ∀ buffer offset, buffer.length < bound → Holds buffer offset encoding →
    reader buffer offset = none

/-- The reader cannot begin before the buffer. -/
def NeedsData (reader : Reader Value) : Prop :=
  ∀ buffer offset, offset < 0 → reader buffer offset = none

theorem needsData_readBytes (count : Nat) : NeedsData (readBytes count) := by
  intro buffer offset negative
  rw [readBytes, slice_negative negative, map_none]

theorem needsData_bind (needs : NeedsData reader) (next : Value → Reader Result) :
    NeedsData (reader >>= next) := by
  intro buffer offset negative
  rw [bind_apply, needs buffer offset negative, bind_none]

theorem needsData_narrow (needs : NeedsData reader) : NeedsData (narrow convert reader) := by
  intro buffer offset negative
  rw [narrow, needs buffer offset negative, map_none]

theorem fails_bind_left (fails : Fails bound reader first) (next : Value → Reader Result)
    (second : Bytes) : Fails bound (reader >>= next) (first ++ second) := by
  intro buffer offset bounded holds
  rw [bind_apply, fails buffer offset bounded (holds_left holds), bind_none]

theorem fails_bind_right (reads : Reads bound reader first value)
    (fails : Fails bound (next value) second) :
    Fails bound (reader >>= next) (first ++ second) := by
  intro buffer offset bounded holds
  have inside := holds_bounds (holds_left holds)
  rw [bind_apply, reads (by omega) buffer offset (holds_left holds), bind_some]
  exact fails buffer _ bounded (holds_right holds)

theorem fails_narrow_bind (reads : Reads bound reader first value)
    (wraps : convert first.length = first.length - bound) (needs : NeedsData (next value))
    (second : Bytes) : Fails bound (narrow convert reader >>= next) (first ++ second) := by
  intro buffer offset bounded holds
  have inside := holds_bounds (holds_left holds)
  rw [bind_apply, narrow, reads (by omega) buffer offset (holds_left holds), map_some,
    bind_some, add_sub_cancel_left, wraps]
  apply needs
  dsimp only
  omega

theorem fails_narrow (fails : Fails bound reader encoding) :
    Fails bound (narrow convert reader) encoding := by
  intro buffer offset bounded holds
  rw [narrow, fails buffer offset bounded holds, map_none]

theorem fails_readMany {encode : Value → Bytes} {values : List Value}
    (decided : ∀ value ∈ values, Reads bound reader (encode value) value ∨
      Fails bound reader (encode value))
    (found : ∃ value ∈ values, Fails bound reader (encode value)) :
    Fails bound (readMany reader values.length) (values.flatMap encode) := by
  induction values with
  | nil =>
    obtain ⟨_, member, -⟩ := found
    exact absurd member not_mem_nil
  | cons value rest ih =>
    rw [forall_mem_cons] at decided
    rcases decided.1 with reads | fails
    · by_cases later : ∃ value ∈ rest, Fails bound reader (encode value)
      · apply fails_bind_right reads
        have failsRest := fails_bind_left (ih decided.2 later)
          (fun rest => pure (value :: rest)) []
        rwa [append_nil] at failsRest
      · obtain ⟨other, member, fails⟩ := found
        rcases mem_cons.mp member with rfl | isLater
        · exact fails_bind_left fails _ _
        · exact absurd ⟨other, isLater, fails⟩ later
    · exact fails_bind_left fails _ _

/-! ## Readers that end before the buffer -/

/-- The reader leaves the buffer, or it ends before the buffer. -/
def Derails (bound : Nat) (reader : Reader Value) (encoding : Bytes) : Prop :=
  ∀ buffer offset, buffer.length < bound → Holds buffer offset encoding →
    ∀ value final, reader buffer offset = some (value, final) → final < 0

/-- The reader does not come back from before the buffer. -/
def Sinks (reader : Reader Value) : Prop :=
  ∀ buffer offset, offset < 0 → ∀ value final, reader buffer offset = some (value, final) →
    final < 0

theorem derails_of_fails (fails : Fails bound reader encoding) : Derails bound reader encoding := by
  intro buffer offset bounded holds value final isRead
  rw [fails buffer offset bounded holds] at isRead
  cases isRead

theorem sinks_of_needsData (needs : NeedsData reader) : Sinks reader := by
  intro buffer offset negative value final isRead
  rw [needs buffer offset negative] at isRead
  cases isRead

theorem sinks_pure (value : Value) : Sinks (pure value) := by
  intro buffer offset negative other final isRead
  obtain ⟨-, rfl⟩ := Prod.mk.inj (some.inj isRead)
  exact negative

theorem sinks_bind (sinks : Sinks reader) (sinksNext : ∀ value, Sinks (next value)) :
    Sinks (reader >>= next) := by
  intro buffer offset negative result final isRead
  rw [bind_apply, bind_eq_some_iff] at isRead
  obtain ⟨⟨value, middle⟩, isFirst, isNext⟩ := isRead
  exact sinksNext value buffer middle (sinks buffer offset negative value middle isFirst)
    result final isNext

theorem sinks_readMany (sinks : Sinks reader) (count : Nat) : Sinks (readMany reader count) := by
  induction count with
  | zero => exact sinks_pure []
  | succ count ih =>
    exact sinks_bind sinks fun value => sinks_bind ih fun rest => sinks_pure _

theorem derails_bind_left (derails : Derails bound reader first)
    (sinks : ∀ value, Sinks (next value)) (second : Bytes) :
    Derails bound (reader >>= next) (first ++ second) := by
  intro buffer offset bounded holds result final isRead
  rw [bind_apply, bind_eq_some_iff] at isRead
  obtain ⟨⟨value, middle⟩, isFirst, isNext⟩ := isRead
  have negative := derails buffer offset bounded (holds_left holds) value middle isFirst
  exact sinks value buffer middle negative result final isNext

theorem derails_bind_right (reads : Reads bound reader first value)
    (derails : Derails bound (next value) second) :
    Derails bound (reader >>= next) (first ++ second) := by
  intro buffer offset bounded holds result final isRead
  have inside := holds_bounds (holds_left holds)
  rw [bind_apply, reads (by omega) buffer offset (holds_left holds), bind_some] at isRead
  exact derails buffer _ bounded (holds_right holds) result final isRead

theorem derails_narrow (reads : Reads bound reader encoding value)
    (wraps : convert encoding.length = encoding.length - bound) :
    Derails bound (narrow convert reader) encoding := by
  intro buffer offset bounded holds other final isRead
  have inside := holds_bounds holds
  rw [narrow, reads (by omega) buffer offset holds, map_some, add_sub_cancel_left, wraps,
    some.injEq, Prod.mk.injEq] at isRead
  omega

theorem derails_readMany {encode : Value → Bytes} {values : List Value} (sinks : Sinks reader)
    (decided : ∀ value ∈ values, Reads bound reader (encode value) value ∨
      Derails bound reader (encode value))
    (found : ∃ value ∈ values, Derails bound reader (encode value)) :
    Derails bound (readMany reader values.length) (values.flatMap encode) := by
  induction values with
  | nil =>
    obtain ⟨_, member, -⟩ := found
    exact absurd member not_mem_nil
  | cons value rest ih =>
    have sinksRest (value : Value) : Sinks (do
        let rest ← readMany reader rest.length
        pure (value :: rest)) :=
      sinks_bind (sinks_readMany sinks _) fun _ => sinks_pure _
    rw [forall_mem_cons] at decided
    rcases decided.1 with reads | derails
    · by_cases later : ∃ value ∈ rest, Derails bound reader (encode value)
      · apply derails_bind_right reads
        have derailsRest := derails_bind_left (ih decided.2 later)
          (fun rest => sinks_pure (value :: rest)) []
        rwa [append_nil] at derailsRest
      · obtain ⟨other, member, derails⟩ := found
        rcases mem_cons.mp member with rfl | isLater
        · exact derails_bind_left derails sinksRest _
        · exact absurd ⟨other, isLater, derails⟩ later
    · exact derails_bind_left derails sinksRest _

/-! ## What any reading yields -/

/-- Whatever the reader returns has the property. -/
def Yields (reader : Reader Value) (property : Bytes → Value → Prop) : Prop :=
  ∀ buffer offset value next, reader buffer offset = some (value, next) → property buffer value

theorem yields_bind {property : Bytes → Value → Prop} {property' : Bytes → Result → Prop}
    (yields : Yields reader property)
    (yieldsNext : ∀ value, Yields (next value) fun buffer result =>
      property buffer value → property' buffer result) :
    Yields (reader >>= next) property' := by
  intro buffer offset result final isRead
  rw [bind_apply, bind_eq_some_iff] at isRead
  obtain ⟨⟨value, middle⟩, isFirst, isNext⟩ := isRead
  exact yieldsNext value buffer middle result final isNext
    (yields buffer offset value middle isFirst)

theorem yields_pure {property : Bytes → Value → Prop} (always : ∀ buffer, property buffer value) :
    Yields (pure value) property := by
  intro buffer offset result final isRead
  obtain ⟨rfl, -⟩ := Prod.mk.inj (some.inj isRead)
  exact always buffer

theorem yields_trivial (reader : Reader Value) : Yields reader fun _ _ => True :=
  fun _ _ _ _ _ => trivial

theorem yields_narrow {property : Bytes → Value → Prop} (yields : Yields reader property) :
    Yields (narrow convert reader) property := by
  intro buffer offset value final isRead
  obtain ⟨⟨_, middle⟩, isFirst, same⟩ := map_eq_some_iff.mp isRead
  obtain ⟨rfl, -⟩ := Prod.mk.inj same
  exact yields buffer offset _ middle isFirst

theorem yields_readMany {property : Bytes → Value → Prop} (yields : Yields reader property)
    (count : Nat) :
    Yields (readMany reader count) fun buffer values => ∀ value ∈ values, property buffer value := by
  induction count with
  | zero => exact yields_pure fun _ _ member => absurd member not_mem_nil
  | succ count ih =>
    rw [readMany]
    refine yields_bind yields fun value => yields_bind ih fun rest => ?_
    apply yields_pure
    intro buffer all one
    exact forall_mem_cons.mpr ⟨one, all⟩

end Zabbix.Library.ByteReader
