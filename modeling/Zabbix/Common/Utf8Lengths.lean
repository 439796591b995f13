import Zabbix.Common.Utf8

/-!
# Lengths of UTF-8 texts

The functions of `str.c` that count characters and bytes.  They look at the first byte of a
character only, so that on a text that is no UTF-8 they may count what is not there.
-/

namespace Zabbix.Common.Utf8Lengths

open Utf8 List

def zbxStrlenUtf8 (text : Bytes) : Nat :=
  text.countP fun byte => !isContinuation byte

/-- `zbx_utf8_char_len`, for the first byte of the text. -/
def zbxUtf8CharLen (lead : UInt8) : Nat :=
  if lead.toNat &&& 0x80 = 0 then 1
  else if lead.toNat &&& 0xe0 = 0xc0 then 2
  else if lead.toNat &&& 0xf0 = 0xe0 then 3
  else if lead.toNat &&& 0xf8 = 0xf0 then 4
  else 0

/-- `zbx_strlen_utf8_nchars`, which stops at a character that is cut. -/
def zbxStrlenUtf8Nchars : Bytes → Nat → Nat
  | [], _ => 0
  | _ :: _, 0 => 0
  | lead :: rest, utf8Maxlen + 1 =>
    let csz := zbxUtf8CharLen lead
    if csz = 0 ∨ rest.length + 1 < csz then 0
    else csz + zbxStrlenUtf8Nchars ((lead :: rest).drop csz) utf8Maxlen

/-- The loop of `zbx_strlen_utf8_nbytes` back to the first byte of a character. -/
def charStart (text : Bytes) : Nat → Nat
  | 0 => 0
  | sz + 1 => if isContinuation (text.getD (sz + 1) 0) then charStart text sz else sz + 1

def zbxStrlenUtf8Nbytes (text : Bytes) (maxlen : Nat) : Nat :=
  if maxlen < text.length then charStart text maxlen else text.length

def zbxCharcountUtf8Nbytes (text : Bytes) (maxlen : Nat) : Nat :=
  zbxStrlenUtf8 (text.take (zbxStrlenUtf8Nbytes text maxlen))

/-- `zbx_strlcpy_utf8` to an offset of a buffer: the text that is then in the buffer, and how many
bytes were copied. -/
def zbxStrlcpyUtf8 (buf : Bytes) (offset : Nat) (src : Bytes) (size : Nat) : Bytes × Nat :=
  let size := zbxStrlenUtf8Nbytes src (size - 1)
  (buf.take offset ++ src.take size, size)

/-! ## Texts of characters -/

def textOf (codes : List Nat) : Bytes :=
  codes.flatMap encode

variable {code : Nat} {codes front back : List Nat}

theorem textOf_append (front back : List Nat) : textOf (front ++ back) = textOf front ++ textOf back :=
  flatMap_append

theorem textOf_eq_nil_iff : textOf codes = [] ↔ codes = [] := by
  rw [textOf, flatMap_eq_nil_iff]
  constructor
  · intro noBytes
    cases codes with
    | nil => rfl
    | cons code codes =>
      have isEmpty := noBytes code mem_cons_self
      rw [encode] at isEmpty
      split_ifs at isEmpty
  · rintro rfl code member
    cases member

theorem charLen_lead : ∀ lead < 256, 0xc0 ≤ lead → lead < 0xf8 →
    (if lead &&& 0x80 = 0 then 1 else if lead &&& 0xe0 = 0xc0 then 2
      else if lead &&& 0xf0 = 0xe0 then 3 else if lead &&& 0xf8 = 0xf0 then 4 else 0) =
        expectingBytes lead + 1 := by
  decide +kernel

theorem encode_spec (isScalar : IsScalar code) :
    ∃ lead conts, encode code = lead :: conts ∧ isContinuation lead = false ∧
      (∀ byte ∈ conts, isContinuation byte = true) ∧ zbxUtf8CharLen lead = conts.length + 1 := by
  by_cases isAscii : code < 0x80
  · have isByte : (UInt8.ofNat code).toNat = code := by
      rw [UInt8.toNat_ofNat']
      omega
    refine ⟨UInt8.ofNat code, [], ?_, ?_, (fun _ member => nomatch member), ?_⟩
    · rw [encode, if_pos isAscii]
    · rw [← Bool.not_eq_true, isContinuation_iff, isByte]
      omega
    · rw [zbxUtf8CharLen, if_pos ((high_eq_zero_iff _).mpr (isByte.symm ▸ isAscii))]
      rfl
  · obtain ⟨lead, conts, isEncoded, starts, length, areConts, -⟩ :=
      encode_eq_cons isScalar (Nat.not_lt.mp isAscii)
    have atMost := length_encode_le code
    rw [isEncoded, length_cons, length] at atMost
    have isShort : lead.toNat < 0xf8 := by
      obtain ⟨-, -, -, five, six⟩ := leads _ lead.toNat_lt
      omega
    refine ⟨lead, conts, isEncoded, ?_, areConts, ?_⟩
    · rw [← Bool.not_eq_true, isContinuation_iff]
      omega
    · rw [length]
      exact charLen_lead _ lead.toNat_lt starts.1 isShort

theorem strlen_textOf (areScalars : ∀ code ∈ codes, IsScalar code) :
    zbxStrlenUtf8 (textOf codes) = codes.length := by
  induction codes with
  | nil => rfl
  | cons code codes ih =>
    obtain ⟨isScalar, areScalars⟩ := forall_mem_cons.mp areScalars
    obtain ⟨lead, conts, isEncoded, isLead, areConts, -⟩ := encode_spec isScalar
    have noStarts : conts.countP (fun byte => !isContinuation byte) = 0 := by
      rw [countP_eq_zero]
      intro byte member
      rw [areConts byte member]
      exact Bool.false_ne_true
    have later := ih areScalars
    rw [zbxStrlenUtf8] at later ⊢
    rw [textOf, flatMap_cons, countP_append, isEncoded, countP_cons, noStarts]
    rw [textOf] at later
    simp [later, isLead, Nat.add_comm]

theorem nchars_textOf (areScalars : ∀ code ∈ codes, IsScalar code) (count : Nat) :
    zbxStrlenUtf8Nchars (textOf codes) count = (textOf (codes.take count)).length := by
  induction count generalizing codes with
  | zero =>
    rw [take_zero]
    cases textOf codes with
    | nil => rfl
    | cons byte rest => rfl
  | succ count ih =>
    cases codes with
    | nil => rfl
    | cons code codes =>
      obtain ⟨isScalar, areScalars⟩ := forall_mem_cons.mp areScalars
      obtain ⟨lead, conts, isEncoded, -, -, isLength⟩ := encode_spec isScalar
      have isText : textOf (code :: codes) = lead :: (conts ++ textOf codes) := by
        rw [textOf, flatMap_cons, isEncoded]
        rfl
      have isWhole : ¬ (conts.length + 1 = 0 ∨
          (conts ++ textOf codes).length + 1 < conts.length + 1) := by
        rw [length_append]
        omega
      rw [isText, zbxStrlenUtf8Nchars]
      simp only [isLength, if_neg isWhole]
      rw [drop_succ_cons, drop_left, ih areScalars, take_succ_cons,
        textOf, textOf, flatMap_cons, isEncoded, length_append, length_cons]

/-- The end of a character is where the next one starts. -/
theorem nbytes_textOf (areScalars : ∀ code ∈ back, IsScalar code) :
    zbxStrlenUtf8Nbytes (textOf (front ++ back)) (textOf front).length =
      (textOf front).length := by
  rw [zbxStrlenUtf8Nbytes, textOf_append, length_append]
  split_ifs with isBefore
  · cases back with
    | nil => exact absurd isBefore (by simp [textOf])
    | cons code back =>
      obtain ⟨lead, conts, isEncoded, isLead, -, -⟩ :=
        encode_spec (areScalars code mem_cons_self)
      have isNext : (textOf front ++ textOf (code :: back)).getD (textOf front).length 0 = lead := by
        rw [getD_eq_getElem?_getD, getElem?_append_right (Nat.le_refl _), Nat.sub_self,
          textOf, flatMap_cons, isEncoded]
        rfl
      generalize isSize : (textOf front).length = size at isNext
      cases size with
      | zero => rfl
      | succ size => rw [charStart, isNext, isLead, if_neg Bool.false_ne_true]
  · cases back with
    | nil => rfl
    | cons code back =>
      obtain ⟨lead, conts, isEncoded, -⟩ := encode_spec (areScalars code mem_cons_self)
      rw [textOf, textOf, flatMap_cons, isEncoded] at isBefore
      simp at isBefore

theorem charcount_textOf (areScalars : ∀ code ∈ front ++ back, IsScalar code) :
    zbxCharcountUtf8Nbytes (textOf (front ++ back)) (textOf front).length = front.length := by
  obtain ⟨areFront, areBack⟩ := forall_mem_append.mp areScalars
  rw [zbxCharcountUtf8Nbytes, nbytes_textOf areBack, textOf_append, take_left,
    strlen_textOf areFront]

/-- Characters are copied behind the text of a buffer. -/
theorem strlcpy_textOf (areScalars : ∀ code ∈ codes, IsScalar code) (buf : Bytes) (count : Nat) :
    zbxStrlcpyUtf8 buf buf.length (textOf codes) (1 + (textOf (codes.take count)).length) =
      (buf ++ textOf (codes.take count), (textOf (codes.take count)).length) := by
  have isSplit := take_append_drop count codes
  have areDropped : ∀ code ∈ codes.drop count, IsScalar code :=
    fun code member => areScalars code (mem_of_mem_drop member)
  have isSize := @nbytes_textOf (codes.take count) (codes.drop count) areDropped
  rw [isSplit] at isSize
  have isTaken : (textOf codes).take (textOf (codes.take count)).length =
      textOf (codes.take count) := by
    have isFront : (textOf (codes.take count ++ codes.drop count)).take
        (textOf (codes.take count)).length = textOf (codes.take count) := by
      rw [textOf_append, take_left]
    rwa [isSplit] at isFront
  rw [zbxStrlcpyUtf8, Nat.add_sub_cancel_left, isSize]
  simp only [take_length, isTaken]

theorem strlcpy_all (areScalars : ∀ code ∈ codes, IsScalar code) (buf : Bytes) :
    zbxStrlcpyUtf8 buf buf.length (textOf codes) ((textOf codes).length + 1) =
      (buf ++ textOf codes, (textOf codes).length) := by
  have copied := strlcpy_textOf areScalars buf codes.length
  rwa [take_length, Nat.add_comm 1] at copied

/-! ## ASCII characters -/

theorem eq_of_mem_encode (isScalar : IsScalar code) {byte : UInt8} (member : byte ∈ encode code)
    (isAscii : byte.toNat < 0x80) : code = byte.toNat := by
  by_cases isSmall : code < 0x80
  · rw [encode, if_pos isSmall, mem_singleton] at member
    rw [member, UInt8.toNat_ofNat']
    omega
  · obtain ⟨lead, conts, isEncoded, starts, -, areConts, -⟩ :=
      encode_eq_cons isScalar (Nat.not_lt.mp isSmall)
    rw [isEncoded, mem_cons] at member
    obtain rfl | isCont := member
    · omega
    · have range := (isContinuation_iff byte).mp (areConts byte isCont)
      omega

theorem encode_ascii {byte : UInt8} (isAscii : byte.toNat < 0x80) :
    encode byte.toNat = [byte] := by
  rw [encode, if_pos isAscii, UInt8.ofNat_toNat]

variable {byte : UInt8} (isAscii : byte.toNat < 0x80)
include isAscii

/-- What is before an ASCII character ends where the byte is. -/
theorem dropWhile_textOf (areScalars : ∀ code ∈ codes, IsScalar code) :
    (textOf codes).dropWhile (· ≠ byte) = textOf (codes.dropWhile (· ≠ byte.toNat)) := by
  induction codes with
  | nil => rfl
  | cons code codes ih =>
    obtain ⟨isScalar, areScalars⟩ := forall_mem_cons.mp areScalars
    by_cases isHere : code = byte.toNat
    · subst isHere
      rw [dropWhile_cons_of_neg (by simp), textOf, flatMap_cons, encode_ascii isAscii,
        singleton_append, dropWhile_cons_of_neg (by simp)]
    · have notIn : ∀ other ∈ encode code, decide (other ≠ byte) = true := by
        intro other member
        rw [decide_eq_true_eq]
        rintro rfl
        exact isHere (eq_of_mem_encode isScalar member isAscii)
      rw [dropWhile_cons_of_pos (by simpa using isHere), ← ih areScalars, textOf,
        flatMap_cons, dropWhile_append_of_pos notIn]
      rfl

theorem getLast?_textOf (front : List Nat) (isScalar : IsScalar code) :
    (textOf (front ++ [code])).getLast? = some byte ↔ code = byte.toNat := by
  obtain ⟨lead, conts, isEncoded, -⟩ := encode_spec isScalar
  have isLast : (textOf (front ++ [code])).getLast? = (encode code).getLast? := by
    rw [textOf_append, textOf, textOf, flatMap_singleton, isEncoded, getLast?_append,
      getLast?_cons, Option.some_or]
  rw [isLast]
  constructor
  · intro isByte
    exact eq_of_mem_encode isScalar (mem_of_getLast? isByte) isAscii
  · rintro rfl
    rw [encode_ascii isAscii]
    rfl

end Zabbix.Common.Utf8Lengths
