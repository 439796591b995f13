import Mathlib.Data.List.TakeWhile

/-!
# UTF-8

The check for UTF-8 and the repair of what is not.  Both read a sequence of bytes by its
first byte, and both take a character for a surrogate when its last 16 bits are those of one.
-/

namespace Zabbix.Common.Utf8

open List

/-- The bytes before the terminating zero. -/
abbrev Bytes := List UInt8

def isContinuation (byte : UInt8) : Bool :=
  byte.toNat &&& 0xc0 = 0x80

/-- The number of bytes that the first byte of a sequence announces. -/
def expectingBytes (lead : Nat) : Nat :=
  if lead &&& 0xe0 = 0xc0 then 1
  else if lead &&& 0xf0 = 0xe0 then 2
  else if lead &&& 0xf8 = 0xf0 then 3
  else if lead &&& 0xfc = 0xf8 then 4
  else if lead &&& 0xfe = 0xfc then 5
  else 0

/-- The loop over continuation bytes: those before the first other byte. -/
def continuations (expecting : Nat) (text : Bytes) : Bytes :=
  (text.take expecting).takeWhile isContinuation

/-- `utf8[0]` and `utf8[1]` of an overlong sequence. -/
def isOverlong (lead second : Nat) : Bool :=
  lead &&& 0xfe = 0xc0 ||
    lead = 0xe0 && second &&& 0x20 = 0 ||
    lead = 0xf0 && second &&& 0x30 = 0 ||
    lead = 0xf8 && second &&& 0x38 = 0 ||
    lead = 0xfc && second &&& 0x3c = 0

/-- The bits of the first byte that belong to the character. -/
def leadBits (lead : Nat) : Nat :=
  if lead &&& 0xe0 = 0xc0 then lead &&& 0x1f
  else if lead &&& 0xf0 = 0xe0 then lead &&& 0x0f
  else if lead &&& 0xf8 = 0xf0 then lead &&& 0x07
  else if lead &&& 0xfc = 0xf8 then lead &&& 0x03
  else if lead &&& 0xfe = 0xfc then lead &&& 0x01
  else 0

/-- The character of a sequence, which has at most 31 bits. -/
def utf32 (lead : UInt8) (conts : Bytes) : Nat :=
  conts.foldl (fun code byte => (code <<< 6) + (byte.toNat &&& 0x3f)) (leadBits lead.toNat)

/-- The checks of a complete sequence. -/
def isValidSequence (lead : UInt8) (conts : Bytes) : Bool :=
  !isOverlong lead.toNat (conts.headD 0).toNat &&
    !(utf32 lead conts > 0x10ffff || utf32 lead conts &&& 0xf800 = 0xd800)

def zbxIsUtf8 : Bytes → Bool
  | [] => true
  | byte :: rest =>
    if byte.toNat &&& 0x80 = 0 then zbxIsUtf8 rest
    else if byte.toNat &&& 0xc0 = 0x80 || byte.toNat &&& 0xfe = 0xfe then false
    else
      let conts := continuations (expectingBytes byte.toNat) rest
      conts.length = expectingBytes byte.toNat && isValidSequence byte conts &&
        zbxIsUtf8 (rest.drop conts.length)
termination_by text => text.length
decreasing_by
  · exact Nat.lt_succ_self _
  · rw [length_drop, length_cons]
    omega

def zbxUtf8ReplaceChar : UInt8 := 0x3f

def zbxReplaceInvalidUtf8 : Bytes → Bytes
  | [] => []
  | byte :: rest =>
    if byte.toNat &&& 0x80 = 0 then byte :: zbxReplaceInvalidUtf8 rest
    else if byte.toNat &&& 0xc0 = 0x80 || byte.toNat &&& 0xfe = 0xfe then
      zbxUtf8ReplaceChar :: zbxReplaceInvalidUtf8 rest
    else
      let conts := continuations (expectingBytes byte.toNat) rest
      if conts.length = expectingBytes byte.toNat && isValidSequence byte conts then
        byte :: (conts ++ zbxReplaceInvalidUtf8 (rest.drop conts.length))
      else zbxUtf8ReplaceChar :: zbxReplaceInvalidUtf8 (rest.drop conts.length)
termination_by text => text.length
decreasing_by
  · exact Nat.lt_succ_self _
  · exact Nat.lt_succ_self _
  · rw [length_drop, length_cons]
    omega
  · rw [length_drop, length_cons]
    omega

/-! ## Well-formed text -/

/-- A Unicode scalar value: no surrogate, and not above U+10FFFF. -/
def IsScalar (code : Nat) : Prop :=
  code < 0xd800 ∨ 0xdfff < code ∧ code ≤ 0x10ffff

/-- The shortest sequence of a scalar value. -/
def encode (code : Nat) : Bytes :=
  if code < 0x80 then [UInt8.ofNat code]
  else if code < 0x800 then [UInt8.ofNat (0xc0 + code / 0x40), UInt8.ofNat (0x80 + code % 0x40)]
  else if code < 0x10000 then
    [UInt8.ofNat (0xe0 + code / 0x1000), UInt8.ofNat (0x80 + code / 0x40 % 0x40),
      UInt8.ofNat (0x80 + code % 0x40)]
  else
    [UInt8.ofNat (0xf0 + code / 0x40000), UInt8.ofNat (0x80 + code / 0x1000 % 0x40),
      UInt8.ofNat (0x80 + code / 0x40 % 0x40), UInt8.ofNat (0x80 + code % 0x40)]

/-- The text is the encoding of the scalar values. -/
def Encodes (codes : List Nat) (text : Bytes) : Prop :=
  (∀ code ∈ codes, IsScalar code) ∧ text = codes.flatMap encode

def WellFormed (text : Bytes) : Prop :=
  ∃ codes, Encodes codes text

/-- A character above U+FFFF whose last 16 bits are those of a surrogate. -/
def resemblesSurrogate (code : Nat) : Bool :=
  0xffff < code && 0xd800 ≤ code % 0x10000 && code % 0x10000 ≤ 0xdfff

/-! ## Masks -/

theorem masks : ∀ byte < 256, (byte &&& 0x80 = 0 ↔ byte < 0x80) ∧
    (byte &&& 0xc0 = 0x80 ↔ 0x80 ≤ byte ∧ byte < 0xc0) ∧
    (byte &&& 0xfe = 0xfe ↔ 0xfe ≤ byte) ∧
    (byte &&& 0xfe = 0xc0 ↔ 0xc0 ≤ byte ∧ byte < 0xc2) ∧
    (0x80 ≤ byte ∧ byte < 0xc0 → byte &&& 0x3f = byte - 0x80 ∧
      (byte &&& 0x20 = 0 ↔ byte < 0xa0) ∧ (byte &&& 0x30 = 0 ↔ byte < 0x90) ∧
      (byte &&& 0x38 = 0 ↔ byte < 0x88) ∧ (byte &&& 0x3c = 0 ↔ byte < 0x84)) := by
  decide +kernel

theorem high_eq_zero_iff (byte : UInt8) : byte.toNat &&& 0x80 = 0 ↔ byte.toNat < 0x80 :=
  (masks _ byte.toNat_lt).1

theorem isContinuation_iff (byte : UInt8) :
    isContinuation byte = true ↔ 0x80 ≤ byte.toNat ∧ byte.toNat < 0xc0 := by
  rw [isContinuation, decide_eq_true_eq]
  exact (masks _ byte.toNat_lt).2.1

theorem low_six (byte : UInt8) (isOne : isContinuation byte = true) :
    byte.toNat &&& 0x3f = byte.toNat - 0x80 :=
  ((masks _ byte.toNat_lt).2.2.2.2 ((isContinuation_iff byte).mp isOne)).1

theorem startsSequence_iff (byte : UInt8) :
    (¬byte.toNat &&& 0x80 = 0 ∧
      ¬(byte.toNat &&& 0xc0 = 0x80 || byte.toNat &&& 0xfe = 0xfe) = true) ↔
        0xc0 ≤ byte.toNat ∧ byte.toNat < 0xfe := by
  obtain ⟨high, continuation, last, -⟩ := masks _ byte.toNat_lt
  rw [high, Bool.or_eq_true, decide_eq_true_eq, decide_eq_true_eq, continuation, last]
  omega

theorem leads : ∀ lead < 256,
    (0xc0 ≤ lead ∧ lead < 0xe0 → expectingBytes lead = 1 ∧ leadBits lead = lead - 0xc0) ∧
    (0xe0 ≤ lead ∧ lead < 0xf0 → expectingBytes lead = 2 ∧ leadBits lead = lead - 0xe0) ∧
    (0xf0 ≤ lead ∧ lead < 0xf8 → expectingBytes lead = 3 ∧ leadBits lead = lead - 0xf0) ∧
    (0xf8 ≤ lead ∧ lead < 0xfc → expectingBytes lead = 4 ∧ leadBits lead = lead - 0xf8) ∧
    (0xfc ≤ lead ∧ lead < 0xfe → expectingBytes lead = 5 ∧ leadBits lead = lead - 0xfc) := by
  decide +kernel

theorem lead_cases (lead : UInt8) (starts : 0xc0 ≤ lead.toNat ∧ lead.toNat < 0xfe) :
    (lead.toNat < 0xe0 ∧ expectingBytes lead.toNat = 1 ∧ leadBits lead.toNat = lead.toNat - 0xc0) ∨
    ((0xe0 ≤ lead.toNat ∧ lead.toNat < 0xf0) ∧ expectingBytes lead.toNat = 2 ∧
      leadBits lead.toNat = lead.toNat - 0xe0) ∨
    ((0xf0 ≤ lead.toNat ∧ lead.toNat < 0xf8) ∧ expectingBytes lead.toNat = 3 ∧
      leadBits lead.toNat = lead.toNat - 0xf0) ∨
    ((0xf8 ≤ lead.toNat ∧ lead.toNat < 0xfc) ∧ expectingBytes lead.toNat = 4 ∧
      leadBits lead.toNat = lead.toNat - 0xf8) ∨
    (0xfc ≤ lead.toNat ∧ expectingBytes lead.toNat = 5 ∧
      leadBits lead.toNat = lead.toNat - 0xfc) := by
  obtain ⟨two, three, four, five, six⟩ := leads _ lead.toNat_lt
  by_cases below2 : lead.toNat < 0xe0
  · exact Or.inl ⟨below2, two ⟨starts.1, below2⟩⟩
  by_cases below3 : lead.toNat < 0xf0
  · exact Or.inr (Or.inl ⟨⟨by omega, below3⟩, three ⟨by omega, below3⟩⟩)
  by_cases below4 : lead.toNat < 0xf8
  · exact Or.inr (Or.inr (Or.inl ⟨⟨by omega, below4⟩, four ⟨by omega, below4⟩⟩))
  by_cases below5 : lead.toNat < 0xfc
  · exact Or.inr (Or.inr (Or.inr (Or.inl
      ⟨⟨by omega, below5⟩, five ⟨by omega, below5⟩⟩)))
  · exact Or.inr (Or.inr (Or.inr (Or.inr
      ⟨by omega, six ⟨by omega, starts.2⟩⟩)))

theorem isOverlong_iff (lead second : UInt8) (isOne : isContinuation second = true) :
    isOverlong lead.toNat second.toNat = true ↔
      (0xc0 ≤ lead.toNat ∧ lead.toNat < 0xc2) ∨ (lead.toNat = 0xe0 ∧ second.toNat < 0xa0) ∨
      (lead.toNat = 0xf0 ∧ second.toNat < 0x90) ∨ (lead.toNat = 0xf8 ∧ second.toNat < 0x88) ∨
      (lead.toNat = 0xfc ∧ second.toNat < 0x84) := by
  obtain ⟨-, -, -, two, -⟩ := masks _ lead.toNat_lt
  obtain ⟨-, three, four, five, six⟩ :=
    (masks _ second.toNat_lt).2.2.2.2 ((isContinuation_iff second).mp isOne)
  simp only [isOverlong, Bool.or_eq_true, Bool.and_eq_true, decide_eq_true_eq,
    two, three, four, five, six, or_assoc]

section Overlong

variable {lead second : UInt8} (isOne : isContinuation second = true)
include isOne

theorem isOverlong_two (range : 0xc0 ≤ lead.toNat ∧ lead.toNat < 0xe0) :
    isOverlong lead.toNat second.toNat = true ↔ lead.toNat < 0xc2 := by
  rw [isOverlong_iff lead second isOne]
  refine ⟨?_, fun low => Or.inl ⟨range.1, low⟩⟩
  rintro (⟨-, low⟩ | ⟨isLead, -⟩ | ⟨isLead, -⟩ | ⟨isLead, -⟩ | ⟨isLead, -⟩) <;> omega

theorem isOverlong_three (range : 0xe0 ≤ lead.toNat ∧ lead.toNat < 0xf0) :
    isOverlong lead.toNat second.toNat = true ↔ lead.toNat = 0xe0 ∧ second.toNat < 0xa0 := by
  rw [isOverlong_iff lead second isOne]
  refine ⟨?_, fun low => Or.inr (Or.inl low)⟩
  rintro (⟨-, isLead⟩ | low | ⟨isLead, -⟩ | ⟨isLead, -⟩ | ⟨isLead, -⟩) <;> omega

theorem isOverlong_four (range : 0xf0 ≤ lead.toNat ∧ lead.toNat < 0xf8) :
    isOverlong lead.toNat second.toNat = true ↔ lead.toNat = 0xf0 ∧ second.toNat < 0x90 := by
  rw [isOverlong_iff lead second isOne]
  refine ⟨?_, fun low => Or.inr (Or.inr (Or.inl low))⟩
  rintro (⟨-, isLead⟩ | ⟨isLead, -⟩ | low | ⟨isLead, -⟩ | ⟨isLead, -⟩) <;> omega

theorem isOverlong_five (range : 0xf8 ≤ lead.toNat ∧ lead.toNat < 0xfc) :
    isOverlong lead.toNat second.toNat = true ↔ lead.toNat = 0xf8 ∧ second.toNat < 0x88 := by
  rw [isOverlong_iff lead second isOne]
  refine ⟨?_, fun low => Or.inr (Or.inr (Or.inr (Or.inl low)))⟩
  rintro (⟨-, isLead⟩ | ⟨isLead, -⟩ | ⟨isLead, -⟩ | low | ⟨isLead, -⟩) <;> omega

theorem isOverlong_six (range : 0xfc ≤ lead.toNat) :
    isOverlong lead.toNat second.toNat = true ↔ lead.toNat = 0xfc ∧ second.toNat < 0x84 := by
  rw [isOverlong_iff lead second isOne]
  refine ⟨?_, fun low => Or.inr (Or.inr (Or.inr (Or.inr low)))⟩
  rintro (⟨-, isLead⟩ | ⟨isLead, -⟩ | ⟨isLead, -⟩ | ⟨isLead, -⟩ | low) <;> omega

end Overlong

theorem surrogate_mask (code : Nat) : code &&& 0xf800 = 0xd800 ↔ code / 0x800 % 0x20 = 0x1b := by
  have shifted : code &&& 0xf800 = ((code >>> 11) &&& 31) <<< 11 := by
    apply Nat.eq_of_testBit_eq
    intro bit
    rw [show 0xf800 = 31 <<< 11 from rfl, Nat.testBit_and, Nat.testBit_shiftLeft,
      Nat.testBit_shiftLeft, Nat.testBit_and, Nat.testBit_shiftRight]
    by_cases low : 11 ≤ bit
    · rw [Nat.add_sub_cancel' low]
      simp [low]
    · simp [low]
  rw [shifted, show 31 = 2 ^ 5 - 1 from rfl, Nat.and_two_pow_sub_one_eq_mod, Nat.shiftLeft_eq,
    Nat.shiftRight_eq_div_pow]
  omega

/-! ## Sequences -/

variable {lead first second third : UInt8} {conts text rest : Bytes} {code : Nat}

theorem ofNat_eq_iff {value : Nat} {byte : UInt8} (small : value < 256) :
    byte = UInt8.ofNat value ↔ byte.toNat = value := by
  rw [← UInt8.toNat_inj, UInt8.toNat_ofNat', Nat.mod_eq_of_lt small]

theorem isValidSequence_iff {shortest : Nat}
    (overlong : isOverlong lead.toNat first.toNat = true ↔
      utf32 lead (first :: conts) < shortest) :
    isValidSequence lead (first :: conts) = true ↔
      shortest ≤ utf32 lead (first :: conts) ∧ utf32 lead (first :: conts) ≤ 0x10ffff ∧
        ¬utf32 lead (first :: conts) / 0x800 % 0x20 = 0x1b := by
  rw [isValidSequence, Bool.and_eq_true, Bool.not_eq_true', Bool.not_eq_true', headD_cons,
    ← Bool.not_eq_true, overlong, Nat.not_lt, ← surrogate_mask, Bool.or_eq_false_iff,
    decide_eq_false_iff_not, decide_eq_false_iff_not, Nat.not_lt]

theorem resemblesSurrogate_iff (code : Nat) :
    resemblesSurrogate code = true ↔ 0xffff < code ∧ code / 0x800 % 0x20 = 0x1b := by
  simp only [resemblesSurrogate, Bool.and_eq_true, decide_eq_true_eq]
  omega

/-- What is said of a sequence by its character: it is accepted when it is the encoding of a
scalar value, unless this resembles a surrogate. -/
def Recognized (lead : UInt8) (conts : Bytes) : Prop :=
  isValidSequence lead conts = true ↔
    IsScalar (utf32 lead conts) ∧ resemblesSurrogate (utf32 lead conts) = false ∧
      lead :: conts = encode (utf32 lead conts)

theorem split_six {high low : Nat} (isCode : code = high * 0x40 + low) (small : low < 0x40) :
    code / 0x40 = high ∧ code % 0x40 = low := by
  omega

theorem recognized_two (isOne : isContinuation first = true)
    (bits : leadBits lead.toNat = lead.toNat - 0xc0)
    (range : 0xc0 ≤ lead.toNat ∧ lead.toNat < 0xe0) : Recognized lead [first] := by
  obtain ⟨low, high⟩ := (isContinuation_iff first).mp isOne
  have isCode : utf32 lead [first] = (lead.toNat - 0xc0) * 0x40 + (first.toNat - 0x80) := by
    simp only [utf32, foldl, bits, low_six _ isOne, Nat.shiftLeft_eq]
  have overlong : isOverlong lead.toNat first.toNat = true ↔ utf32 lead [first] < 0x80 := by
    rw [isOverlong_two isOne range, isCode]
    omega
  rw [Recognized, isValidSequence_iff overlong, ← Bool.not_eq_true, resemblesSurrogate_iff]
  generalize utf32 lead [first] = code at isCode
  obtain ⟨isLead, isFirst⟩ := split_six isCode (by omega)
  constructor
  · rintro ⟨notOverlong, -, -⟩
    refine ⟨Or.inl (by omega), by omega, ?_⟩
    rw [encode, if_neg (by omega), if_pos (by omega), isLead, isFirst,
      Nat.add_sub_cancel' range.1, Nat.add_sub_cancel' low, UInt8.ofNat_toNat, UInt8.ofNat_toNat]
  · rintro ⟨-, -, same⟩
    have shape : 0x80 ≤ code := by
      by_contra small
      rw [encode, if_pos (by omega)] at same
      cases (cons.inj same).2
    omega

theorem recognized_three (areConts : isContinuation first = true ∧ isContinuation second = true)
    (bits : leadBits lead.toNat = lead.toNat - 0xe0)
    (range : 0xe0 ≤ lead.toNat ∧ lead.toNat < 0xf0) : Recognized lead [first, second] := by
  obtain ⟨low1, high1⟩ := (isContinuation_iff first).mp areConts.1
  obtain ⟨low2, high2⟩ := (isContinuation_iff second).mp areConts.2
  have isCode : utf32 lead [first, second] =
      ((lead.toNat - 0xe0) * 0x40 + (first.toNat - 0x80)) * 0x40 + (second.toNat - 0x80) := by
    simp only [utf32, foldl, bits, low_six _ areConts.1, low_six _ areConts.2, Nat.shiftLeft_eq]
  have overlong : isOverlong lead.toNat first.toNat = true ↔
      utf32 lead [first, second] < 0x800 := by
    rw [isOverlong_three areConts.1 range, isCode]
    omega
  rw [Recognized, isValidSequence_iff overlong, ← Bool.not_eq_true, resemblesSurrogate_iff]
  generalize utf32 lead [first, second] = code at isCode
  obtain ⟨isHigh, isSecond⟩ := split_six isCode (by omega)
  obtain ⟨isLead, isFirst⟩ := split_six isHigh (by omega)
  rw [Nat.div_div_eq_div_mul] at isLead
  have isBelow : code < 0x10000 := by omega
  clear isCode
  constructor
  · rintro ⟨notOverlong, -, notSurrogate⟩
    refine ⟨?_, by omega, ?_⟩
    · rw [IsScalar]
      omega
    · rw [encode, if_neg (by omega), if_neg (by omega), if_pos isBelow, isLead, isFirst, isSecond,
        Nat.add_sub_cancel' range.1, Nat.add_sub_cancel' low1, Nat.add_sub_cancel' low2]
      simp only [UInt8.ofNat_toNat]
  · rintro ⟨scalar, -, same⟩
    have shape : 0x800 ≤ code := by
      by_contra small
      rw [encode] at same
      split_ifs at same
      · cases (cons.inj same).2
      · cases (cons.inj (cons.inj same).2).2
      all_goals omega
    rw [IsScalar] at scalar
    omega

theorem recognized_four (areConts : isContinuation first = true ∧ isContinuation second = true ∧
      isContinuation third = true) (bits : leadBits lead.toNat = lead.toNat - 0xf0)
    (range : 0xf0 ≤ lead.toNat ∧ lead.toNat < 0xf8) : Recognized lead [first, second, third] := by
  obtain ⟨low1, high1⟩ := (isContinuation_iff first).mp areConts.1
  obtain ⟨low2, high2⟩ := (isContinuation_iff second).mp areConts.2.1
  obtain ⟨low3, high3⟩ := (isContinuation_iff third).mp areConts.2.2
  have isCode : utf32 lead [first, second, third] =
      (((lead.toNat - 0xf0) * 0x40 + (first.toNat - 0x80)) * 0x40 + (second.toNat - 0x80)) * 0x40 +
        (third.toNat - 0x80) := by
    simp only [utf32, foldl, bits, low_six _ areConts.1, low_six _ areConts.2.1,
      low_six _ areConts.2.2, Nat.shiftLeft_eq]
  have overlong : isOverlong lead.toNat first.toNat = true ↔
      utf32 lead [first, second, third] < 0x10000 := by
    rw [isOverlong_four areConts.1 range, isCode]
    omega
  rw [Recognized, isValidSequence_iff overlong, ← Bool.not_eq_true, resemblesSurrogate_iff]
  generalize utf32 lead [first, second, third] = code at isCode
  obtain ⟨isHigher, isThird⟩ := split_six isCode (by omega)
  obtain ⟨isHigh, isSecond⟩ := split_six isHigher (by omega)
  obtain ⟨isLead, isFirst⟩ := split_six isHigh (by omega)
  rw [Nat.div_div_eq_div_mul] at isFirst
  rw [Nat.div_div_eq_div_mul, Nat.div_div_eq_div_mul] at isLead
  clear isCode isHigher isHigh
  constructor
  · rintro ⟨notOverlong, notBeyond, notSurrogate⟩
    refine ⟨Or.inr ⟨by omega, notBeyond⟩, fun isSurrogate => notSurrogate isSurrogate.2, ?_⟩
    rw [encode, if_neg (by omega), if_neg (by omega), if_neg (by omega), isLead, isFirst, isSecond,
      isThird, Nat.add_sub_cancel' range.1, Nat.add_sub_cancel' low1, Nat.add_sub_cancel' low2,
      Nat.add_sub_cancel' low3]
    simp only [UInt8.ofNat_toNat]
  · rintro ⟨scalar, plain, same⟩
    have shape : 0x10000 ≤ code := by
      by_contra small
      rw [encode] at same
      split_ifs at same
      · cases (cons.inj same).2
      · cases (cons.inj (cons.inj same).2).2
      · cases (cons.inj (cons.inj (cons.inj same).2).2).2
      · omega
    refine ⟨shape, ?_, fun isSurrogate => plain ⟨by omega, isSurrogate⟩⟩
    rw [IsScalar] at scalar
    omega

theorem length_encode_le (code : Nat) : (encode code).length ≤ 4 := by
  rw [encode]
  split_ifs <;> simp

theorem recognized_long (isLong : 4 ≤ conts.length)
    (isInvalid : isValidSequence lead conts = false) : Recognized lead conts := by
  refine iff_of_false (by rw [isInvalid]; exact Bool.false_ne_true) ?_
  rintro ⟨-, -, same⟩
  have lengths := congrArg List.length same
  have atMost := length_encode_le (utf32 lead conts)
  rw [length_cons] at lengths
  omega

theorem isValidSequence_of_far (isFar : 0x10ffff < utf32 lead (first :: conts) ∨
    isOverlong lead.toNat first.toNat = true) : isValidSequence lead (first :: conts) = false := by
  rw [isValidSequence, headD_cons]
  obtain isBeyond | isOverlong := isFar
  · rw [decide_eq_true isBeyond, Bool.true_or, Bool.not_true, Bool.and_false]
  · rw [isOverlong, Bool.not_true, Bool.false_and]

theorem isValidSequence_five {fourth : UInt8}
    (areConts : ∀ byte ∈ [first, second, third, fourth], isContinuation byte = true)
    (bits : leadBits lead.toNat = lead.toNat - 0xf8) (range : 0xf8 ≤ lead.toNat ∧ lead.toNat < 0xfc) :
    isValidSequence lead [first, second, third, fourth] = false := by
  simp only [forall_mem_cons] at areConts
  obtain ⟨one, two, three, four, -⟩ := areConts
  obtain ⟨low1, high1⟩ := (isContinuation_iff first).mp one
  have isCode : utf32 lead [first, second, third, fourth] =
      ((((lead.toNat - 0xf8) * 0x40 + (first.toNat - 0x80)) * 0x40 + (second.toNat - 0x80)) * 0x40 +
        (third.toNat - 0x80)) * 0x40 + (fourth.toNat - 0x80) := by
    simp only [utf32, foldl, bits, low_six _ one, low_six _ two, low_six _ three,
      low_six _ four, Nat.shiftLeft_eq]
  have isFar : 0x10ffff < utf32 lead [first, second, third, fourth] ∨
      isOverlong lead.toNat first.toNat = true := by
    rw [isOverlong_five one range, isCode]
    omega
  exact isValidSequence_of_far isFar

theorem isValidSequence_six {fourth fifth : UInt8}
    (areConts : ∀ byte ∈ [first, second, third, fourth, fifth], isContinuation byte = true)
    (bits : leadBits lead.toNat = lead.toNat - 0xfc) (range : 0xfc ≤ lead.toNat) :
    isValidSequence lead [first, second, third, fourth, fifth] = false := by
  simp only [forall_mem_cons] at areConts
  obtain ⟨one, two, three, four, five, -⟩ := areConts
  obtain ⟨low1, high1⟩ := (isContinuation_iff first).mp one
  have isCode : utf32 lead [first, second, third, fourth, fifth] =
      (((((lead.toNat - 0xfc) * 0x40 + (first.toNat - 0x80)) * 0x40 + (second.toNat - 0x80)) *
        0x40 + (third.toNat - 0x80)) * 0x40 + (fourth.toNat - 0x80)) * 0x40 +
          (fifth.toNat - 0x80) := by
    simp only [utf32, foldl, bits, low_six _ one, low_six _ two, low_six _ three,
      low_six _ four, low_six _ five, Nat.shiftLeft_eq]
  have isFar : 0x10ffff < utf32 lead [first, second, third, fourth, fifth] ∨
      isOverlong lead.toNat first.toNat = true := by
    rw [isOverlong_six one range, isCode]
    omega
  exact isValidSequence_of_far isFar

theorem recognized_of_complete (starts : 0xc0 ≤ lead.toNat ∧ lead.toNat < 0xfe)
    (complete : conts.length = expectingBytes lead.toNat)
    (areConts : ∀ byte ∈ conts, isContinuation byte = true) : Recognized lead conts := by
  obtain ⟨high, count, bits⟩ | ⟨range, count, bits⟩ | ⟨range, count, bits⟩ |
    ⟨range, count, bits⟩ | ⟨low, count, bits⟩ := lead_cases lead starts
  · obtain ⟨first, rfl⟩ := length_eq_one_iff.mp (complete.trans count)
    exact recognized_two (areConts _ mem_cons_self) bits ⟨starts.1, high⟩
  · match conts, complete.trans count with
    | [first, second], _ =>
      simp only [forall_mem_cons] at areConts
      exact recognized_three ⟨areConts.1, areConts.2.1⟩ bits range
  · match conts, complete.trans count with
    | [first, second, third], _ =>
      simp only [forall_mem_cons] at areConts
      exact recognized_four ⟨areConts.1, areConts.2.1, areConts.2.2.1⟩ bits range
  · have isFour := complete.trans count
    refine recognized_long (by omega) ?_
    match conts, isFour with
    | [first, second, third, fourth], _ => exact isValidSequence_five areConts bits range
  · have isFive := complete.trans count
    refine recognized_long (by omega) ?_
    match conts, isFive with
    | [first, second, third, fourth, fifth], _ => exact isValidSequence_six areConts bits low

theorem toNat_ofNat {value : Nat} (small : value < 256) : (UInt8.ofNat value).toNat = value :=
  (ofNat_eq_iff small).mp rfl

theorem isContinuation_ofNat {value : Nat} (small : value < 0x40) :
    isContinuation (UInt8.ofNat (0x80 + value)) = true ∧
      (UInt8.ofNat (0x80 + value)).toNat &&& 0x3f = value := by
  have isValue := toNat_ofNat (show 0x80 + value < 256 by omega)
  have isOne : isContinuation (UInt8.ofNat (0x80 + value)) = true := by
    rw [isContinuation_iff, isValue]
    omega
  refine ⟨isOne, ?_⟩
  rw [low_six _ isOne, isValue]
  omega

theorem encode_eq_cons (scalar : IsScalar code) (notAscii : 0x80 ≤ code) :
    ∃ lead conts, encode code = lead :: conts ∧ (0xc0 ≤ lead.toNat ∧ lead.toNat < 0xfe) ∧
      conts.length = expectingBytes lead.toNat ∧ (∀ byte ∈ conts, isContinuation byte = true) ∧
      utf32 lead conts = code := by
  rw [IsScalar] at scalar
  have sixBits (value : Nat) := isContinuation_ofNat (Nat.mod_lt value (show 0 < 0x40 by decide))
  by_cases two : code < 0x800
  · have isLead := toNat_ofNat (show 0xc0 + code / 0x40 < 256 by omega)
    obtain ⟨count, bits⟩ := (leads (0xc0 + code / 0x40) (by omega)).1 (by omega)
    refine ⟨_, _, by rw [encode, if_neg (by omega), if_pos two], by omega, ?_, ?_, ?_⟩
    · rw [isLead, count]
      rfl
    · exact forall_mem_cons.mpr ⟨(sixBits _).1, forall_mem_nil _⟩
    · simp only [utf32, foldl, isLead, bits, sixBits, Nat.shiftLeft_eq]
      omega
  by_cases three : code < 0x10000
  · have isLead := toNat_ofNat (show 0xe0 + code / 0x1000 < 256 by omega)
    obtain ⟨count, bits⟩ := (leads (0xe0 + code / 0x1000) (by omega)).2.1 (by omega)
    refine ⟨_, _, by rw [encode, if_neg (by omega), if_neg two, if_pos three], by omega, ?_, ?_, ?_⟩
    · rw [isLead, count]
      rfl
    · exact forall_mem_cons.mpr ⟨(sixBits _).1, forall_mem_cons.mpr
        ⟨(sixBits _).1, forall_mem_nil _⟩⟩
    · simp only [utf32, foldl, isLead, bits, sixBits, Nat.shiftLeft_eq]
      omega
  · have isLead := toNat_ofNat (show 0xf0 + code / 0x40000 < 256 by omega)
    obtain ⟨count, bits⟩ := (leads (0xf0 + code / 0x40000) (by omega)).2.2.1 (by omega)
    refine ⟨_, _, by rw [encode, if_neg (by omega), if_neg two, if_neg three], by omega, ?_, ?_, ?_⟩
    · rw [isLead, count]
      rfl
    · exact forall_mem_cons.mpr ⟨(sixBits _).1, forall_mem_cons.mpr ⟨(sixBits _).1,
        forall_mem_cons.mpr ⟨(sixBits _).1, forall_mem_nil _⟩⟩⟩
    · simp only [utf32, foldl, isLead, bits, sixBits, Nat.shiftLeft_eq]
      omega

/-! ## The check -/

/-- The loop reads all bytes of a complete sequence. -/
theorem continuations_append (areConts : ∀ byte ∈ conts, isContinuation byte = true)
    (rest : Bytes) : continuations conts.length (conts ++ rest) = conts := by
  rw [continuations, take_left]
  exact takeWhile_eq_self_iff.mpr areConts

theorem mem_continuations (expecting : Nat) (text : Bytes) :
    ∀ byte ∈ continuations expecting text, isContinuation byte = true :=
  fun _ member => mem_takeWhile_imp member

theorem continuations_append_drop (expecting : Nat) (text : Bytes) :
    continuations expecting text ++ text.drop (continuations expecting text).length = text := by
  obtain ⟨later, split⟩ := ( takeWhile_prefix isContinuation).trans
    ( take_prefix expecting text)
  change continuations expecting text ++ later = text at split
  generalize continuations expecting text = conts at split
  rw [← split, drop_left]

theorem zbxIsUtf8_encode (scalar : IsScalar code) (rest : Bytes) :
    zbxIsUtf8 (encode code ++ rest) = (!resemblesSurrogate code && zbxIsUtf8 rest) := by
  by_cases isAscii : code < 0x80
  · have isByte := toNat_ofNat (show code < 256 by omega)
    have plain : resemblesSurrogate code = false := by
      rw [← Bool.not_eq_true, resemblesSurrogate_iff]
      omega
    have low : (UInt8.ofNat code).toNat &&& 0x80 = 0 := by
      rw [high_eq_zero_iff, isByte]
      exact isAscii
    rw [encode, if_pos isAscii, singleton_append, zbxIsUtf8, if_pos low, plain]
    rfl
  · obtain ⟨lead, conts, shape, starts, complete, areConts, isCode⟩ :=
      encode_eq_cons scalar (by omega)
    have recognized := recognized_of_complete starts complete areConts
    rw [Recognized, isCode, ← shape] at recognized
    obtain ⟨notAscii, notInvalid⟩ := (startsSequence_iff lead).mpr starts
    rw [shape, cons_append, zbxIsUtf8, if_neg notAscii, if_neg notInvalid, ← complete]
    simp only [continuations_append areConts, drop_left, decide_true, Bool.true_and]
    congr 1
    rw [Bool.eq_iff_iff, recognized, Bool.not_eq_true']
    exact ⟨fun holds => holds.2.1, fun plain => ⟨scalar, plain, rfl⟩⟩

theorem zbxIsUtf8_flatMap {codes : List Nat} (scalars : ∀ code ∈ codes, IsScalar code) :
    zbxIsUtf8 (codes.flatMap encode) = codes.all fun code => !resemblesSurrogate code := by
  induction codes with
  | nil =>
    rw [flatMap_nil, zbxIsUtf8]
    rfl
  | cons code codes ih =>
    obtain ⟨atFirst, others⟩ := forall_mem_cons.mp scalars
    rw [flatMap_cons, zbxIsUtf8_encode atFirst, ih others]
    rfl

theorem encodes_of_valid (starts : 0xc0 ≤ lead.toNat ∧ lead.toNat < 0xfe)
    (valid : ((continuations (expectingBytes lead.toNat) text).length = expectingBytes lead.toNat &&
      isValidSequence lead (continuations (expectingBytes lead.toNat) text)) = true) :
    ∃ code, IsScalar code ∧ resemblesSurrogate code = false ∧
      lead :: continuations (expectingBytes lead.toNat) text = encode code := by
  rw [Bool.and_eq_true, decide_eq_true_eq] at valid
  exact ⟨_, (recognized_of_complete starts valid.1 (mem_continuations _ _)).mp valid.2⟩

theorem encodes_of_zbxIsUtf8 (accepted : zbxIsUtf8 text = true) :
    ∃ codes, Encodes codes text ∧ ∀ code ∈ codes, resemblesSurrogate code = false := by
  fun_induction zbxIsUtf8 text with
  | case1 => exact ⟨[], ⟨forall_mem_nil _, rfl⟩, forall_mem_nil _⟩
  | case2 byte rest low ih =>
    obtain ⟨codes, ⟨scalars, rfl⟩, plain⟩ := ih accepted
    have isAscii := (high_eq_zero_iff byte).mp low
    refine ⟨byte.toNat :: codes, ⟨forall_mem_cons.mpr ⟨Or.inl (by omega), scalars⟩, ?_⟩,
      forall_mem_cons.mpr ⟨?_, plain⟩⟩
    · rw [flatMap_cons, encode, if_pos isAscii, UInt8.ofNat_toNat]
      rfl
    · rw [← Bool.not_eq_true, resemblesSurrogate_iff]
      omega
  | case3 => cases accepted
  | case4 byte rest notAscii notInvalid conts ih =>
    rw [Bool.and_eq_true] at accepted
    have starts := (startsSequence_iff byte).mp ⟨notAscii, notInvalid⟩
    obtain ⟨code, scalar, plain, shape⟩ := encodes_of_valid starts accepted.1
    obtain ⟨codes, ⟨scalars, isRest⟩, others⟩ := ih accepted.2
    refine ⟨code :: codes, ⟨forall_mem_cons.mpr ⟨scalar, scalars⟩, ?_⟩,
      forall_mem_cons.mpr ⟨plain, others⟩⟩
    rw [flatMap_cons, ← shape, ← isRest, cons_append, continuations_append_drop]

/-! ## The repair -/

theorem zbxReplaceInvalidUtf8_of_accepted (accepted : zbxIsUtf8 text = true) :
    zbxReplaceInvalidUtf8 text = text := by
  fun_induction zbxIsUtf8 text with
  | case1 => rw [zbxReplaceInvalidUtf8]
  | case2 byte rest low ih => rw [zbxReplaceInvalidUtf8, if_pos low, ih accepted]
  | case3 => cases accepted
  | case4 byte rest notAscii notInvalid conts ih =>
    rw [Bool.and_eq_true] at accepted
    rw [zbxReplaceInvalidUtf8, if_neg notAscii, if_neg notInvalid]
    simp only [accepted.1, if_true, ih accepted.2, conts, continuations_append_drop]

theorem zbxIsUtf8_zbxReplaceInvalidUtf8 (text : Bytes) :
    zbxIsUtf8 (zbxReplaceInvalidUtf8 text) = true := by
  have replaced (rest : Bytes) :
      zbxIsUtf8 (zbxUtf8ReplaceChar :: rest) = zbxIsUtf8 rest := by
    rw [zbxIsUtf8, if_pos (by decide)]
  fun_induction zbxReplaceInvalidUtf8 text with
  | case1 => rw [zbxIsUtf8]
  | case2 byte rest low ih => rw [zbxIsUtf8, if_pos low, ih]
  | case3 byte rest _ _ ih => rw [replaced, ih]
  | case4 byte rest notAscii notInvalid conts valid ih =>
    have starts := (startsSequence_iff byte).mp ⟨notAscii, notInvalid⟩
    obtain ⟨code, scalar, plain, shape⟩ := encodes_of_valid starts valid
    rw [← cons_append, shape, zbxIsUtf8_encode scalar, plain, ih]
    rfl
  | case5 byte rest _ _ conts _ ih => rw [replaced, ih]

theorem length_zbxReplaceInvalidUtf8_le (text : Bytes) :
    (zbxReplaceInvalidUtf8 text).length ≤ text.length := by
  fun_induction zbxReplaceInvalidUtf8 text with
  | case1 => exact Nat.le_refl _
  | case2 byte rest _ ih => exact Nat.succ_le_succ ih
  | case3 byte rest _ _ ih => exact Nat.succ_le_succ ih
  | case4 byte rest _ _ conts _ ih =>
    have lengths := congrArg List.length
      (continuations_append_drop (expectingBytes byte.toNat) rest)
    rw [length_append] at lengths
    rw [length_cons, length_cons, length_append, ← lengths]
    exact Nat.succ_le_succ (Nat.add_le_add_left ih _)
  | case5 byte rest _ _ conts _ ih =>
    rw [length_drop] at ih
    rw [length_cons, length_cons]
    omega

/-- What is claimed of a text. -/
def Utf8Correct (text : Bytes) : Prop :=
  (zbxIsUtf8 text = true ↔ WellFormed text) ∧
    (zbxReplaceInvalidUtf8 text).length ≤ text.length ∧
    zbxIsUtf8 (zbxReplaceInvalidUtf8 text) = true ∧
    (WellFormed text → zbxReplaceInvalidUtf8 text = text) ∧
    zbxReplaceInvalidUtf8 (zbxReplaceInvalidUtf8 text) = zbxReplaceInvalidUtf8 text

/-- Well-formed text with a character that resembles a surrogate is rejected. -/
theorem utf8Correct_iff (text : Bytes) :
    Utf8Correct text ↔
      ¬∃ codes, Encodes codes text ∧ ∃ code ∈ codes, resemblesSurrogate code = true := by
  have repaired := zbxIsUtf8_zbxReplaceInvalidUtf8 text
  constructor
  · rintro ⟨isExact, -, -, -, -⟩ ⟨codes, encodes, code, member, resembles⟩
    have accepted := isExact.mpr ⟨codes, encodes⟩
    rw [encodes.2, zbxIsUtf8_flatMap encodes.1, List.all_eq_true] at accepted
    have plain := accepted code member
    rw [resembles] at plain
    cases plain
  · intro plain
    have accepts : WellFormed text → zbxIsUtf8 text = true := by
      rintro ⟨codes, scalars, rfl⟩
      rw [zbxIsUtf8_flatMap scalars, List.all_eq_true]
      intro code member
      rw [Bool.not_eq_true', ← Bool.not_eq_true]
      exact fun resembles => plain ⟨codes, ⟨scalars, rfl⟩, code, member, resembles⟩
    refine ⟨⟨fun accepted => ?_, accepts⟩, length_zbxReplaceInvalidUtf8_le text, repaired,
      fun wellFormed => zbxReplaceInvalidUtf8_of_accepted (accepts wellFormed),
      zbxReplaceInvalidUtf8_of_accepted repaired⟩
    obtain ⟨codes, encodes, -⟩ := encodes_of_zbxIsUtf8 accepted
    exact ⟨codes, encodes⟩

/-- U+1D800 is rejected. -/
theorem zbxIsUtf8_rejects_character : ¬∀ text, Utf8Correct text := by
  intro correct
  have scalars : ∀ code ∈ [0x1d800], IsScalar code := by
    rw [forall_mem_singleton]
    exact Or.inr (by decide)
  have accepted := (correct ([0x1d800].flatMap encode)).1.mpr ⟨_, scalars, rfl⟩
  rw [zbxIsUtf8_flatMap scalars] at accepted
  exact absurd accepted (by decide)

end Zabbix.Common.Utf8
