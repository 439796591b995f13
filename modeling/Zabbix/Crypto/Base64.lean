import Mathlib.Tactic.IntervalCases
import Zabbix.Common.Serialize
import Zabbix.Library.Cells

/-!
# Base64

`base64.c` of `zbxcrypto`.  The encoder writes into allocated memory, where a write outside gives no
result; the decoder reads the bytes of a C string up to its terminating zero.
-/

namespace Zabbix.Crypto.Base64

open Common.Serialize Library.Cells Library.ByteReader List Option

/-- `ZBX_MAX_B64_LEN` -/
def maxB64Len : Nat := 16 * 1024

def isBase64 (c : UInt8) : Bool :=
  ('A'.toUInt8 ≤ c && c ≤ 'Z'.toUInt8) || ('a'.toUInt8 ≤ c && c ≤ 'z'.toUInt8) ||
    ('0'.toUInt8 ≤ c && c ≤ '9'.toUInt8) || c == '+'.toUInt8 || c == '/'.toUInt8 ||
    c == '='.toUInt8

def base64Set : Bytes :=
  "ABCDEFGHIJKLMNOPQRSTUVWXYZabcdefghijklmnopqrstuvwxyz0123456789+/".toList.map Char.toUInt8

def charBase64Encode (uc : UInt8) : UInt8 :=
  base64Set.getD uc.toNat 0

def charBase64Decode (c : UInt8) : UInt8 :=
  if 'A'.toUInt8 ≤ c ∧ c ≤ 'Z'.toUInt8 then c - 'A'.toUInt8
  else if 'a'.toUInt8 ≤ c ∧ c ≤ 'z'.toUInt8 then c - 'a'.toUInt8 + 26
  else if '0'.toUInt8 ≤ c ∧ c ≤ '9'.toUInt8 then c - '0'.toUInt8 + 52
  else if c = '+'.toUInt8 then 62
  else 63

/-! ## The encoder -/

/-- The four characters of a turn; the second and the third byte may be missing. -/
def encodeGroup (from1 : UInt8) (from2 from3 : Option UInt8) : Bytes :=
  let to1 := (from1 >>> 2) &&& 0x3f
  let to2 := ((from1 &&& 0x3) <<< 4) ||| (from2.getD 0 >>> 4)
  let to3 := ((from2.getD 0 &&& 0xf) <<< 2) ||| (from3.getD 0 >>> 6)
  let to4 := from3.getD 0 &&& 0x3f
  [charBase64Encode to1, charBase64Encode to2,
    if from2.isSome then charBase64Encode to3 else '='.toUInt8,
    if from3.isSome then charBase64Encode to4 else '='.toUInt8]

/-- Characters are written one after another. -/
def writeChars (cells : Cells UInt8) (pos : Nat) : Bytes → Option (Cells UInt8)
  | [] => some cells
  | char :: chars => (write cells pos char).bind (writeChars · (pos + 1) chars)

/-- The loop, with the bytes from `p_str[i]` on, and the place of `p` after `p_b64str`. -/
def encodeLoop (start p : Nat) (cells : Cells UInt8) : Bytes → Option (Cells UInt8 × Nat)
  | [] => some (cells, p)
  | from1 :: str =>
    if p > maxB64Len - 5 then some (cells, p)
    else
      (writeChars cells (start + p) (encodeGroup from1 str[0]? str[1]?)).bind fun cells =>
        encodeLoop start (p + 4) cells (str.drop 2)
  termination_by str => str.length
  decreasing_by
    rw [length_drop, length_cons]
    omega

/-- The given bytes are all that are to be encoded; `start` is the place of `p_b64str`. -/
def strBase64Encode (str : Bytes) (start : Nat) (cells : Cells UInt8) : Option (Cells UInt8) :=
  if str.length = 0 then some cells
  else (encodeLoop start 0 cells str).bind fun (cells, p) => write cells (start + p) 0

def cPerBlock : Nat := (maxB64Len - 1) / 4 * 3

def bPerBlock : Nat := cPerBlock / 3 * 4

/-- The loop over the full blocks and the code after it, from `pc` and `pc_r` on. -/
def encodeBlocks (bytesLeft : Nat) (pc : Bytes) (pcR : Nat) (cells : Cells UInt8) :
    Nat → Option (Cells UInt8)
  | 0 =>
    if 0 ≠ bytesLeft then
      (strBase64Encode (pc.take bytesLeft) pcR cells).bind fun cells =>
        write cells (pcR + (bytesLeft + 2) / 3 * 4) 0
    else write cells pcR 0
  | fullBlockNum + 1 =>
    (strBase64Encode (pc.take cPerBlock) pcR cells).bind fun cells =>
      encodeBlocks bytesLeft (pc.drop cPerBlock) (pcR + bPerBlock) cells fullBlockNum

def strBase64EncodeDyn (str : Bytes) : Option (Cells UInt8) :=
  encodeBlocks (str.length % cPerBlock) str 0 (resize [] ((str.length + 2) / 3 * 4 + 1))
    (str.length / cPerBlock)

/-! ## The decoder -/

/-- What was written to `p_str`, and `*p_out_size` -/
structure Output where
  str : Bytes := []
  outSize : Nat := 0
deriving DecidableEq

/-- A byte is written if it is available; the loop is left, with an error, if the buffer is full. -/
def store (maxsize : Nat) (available : Bool) (out : Output) (byte : UInt8) :
    Except Output Output :=
  if available then
    let out : Output := { str := out.str ++ [byte], outSize := out.outSize + 1 }
    if out.outSize = maxsize then .error out else .ok out
  else .ok out

/-- A block is decoded; `chars` are the characters of `from` up to `lasti`, and the others are `A`. -/
def decodeBlock (maxsize : Nat) (chars : Bytes) (out : Output) : Except Output Output := do
  let char := fun j => chars.getD j 'A'.toUInt8
  let byte := fun j => charBase64Decode (char j)
  let lasti : Int := chars.length - 1
  let out ← store maxsize (1 ≤ lasti) out ((byte 0 <<< 2) ||| (byte 1 >>> 4))
  let out ← store maxsize (2 ≤ lasti ∧ '='.toUInt8 ≠ char 2) out
    (((byte 1 &&& 0xf) <<< 4) ||| (byte 2 >>> 2))
  store maxsize (3 = lasti ∧ '='.toUInt8 ≠ char 3) out (((byte 2 &&& 0x3) <<< 6) ||| byte 3)

/-- The loop; `i` is the number of characters that `from` has. -/
def decodeLoop (maxsize : Nat) (chars : Bytes) (out : Output) : Bytes → Output
  | [] =>
    if chars = [] then out
    else
      match decodeBlock maxsize chars out with
      | .error out | .ok out => out
  | char :: text =>
    if isBase64 char = false then decodeLoop maxsize chars out text
    else if chars.length < 3 then decodeLoop maxsize (chars ++ [char]) out text
    else
      match decodeBlock maxsize (chars ++ [char]) out with
      | .error out => out
      | .ok out => decodeLoop maxsize [] out text

def strBase64Decode (text : CString) (maxsize : Nat) : Output :=
  decodeLoop maxsize [] {} text.bytes

/-! ## What is encoded -/

/-- The characters of the groups one after another. -/
def encodeText : Bytes → Bytes
  | [] => []
  | from1 :: str => encodeGroup from1 str[0]? str[1]? ++ encodeText (str.drop 2)
  termination_by str => str.length
  decreasing_by
    rw [length_drop, length_cons]
    omega

theorem length_encodeText (str : Bytes) : (encodeText str).length = (str.length + 2) / 3 * 4 := by
  induction str using encodeText.induct with
  | case1 => simp [encodeText]
  | case2 from1 str ih =>
    rw [encodeText, length_append, ih, length_drop, length_cons]
    simp only [encodeGroup, length_cons, length_nil]
    omega

theorem encodeText_append {str : Bytes} (isWhole : str.length % 3 = 0) (rest : Bytes) :
    encodeText (str ++ rest) = encodeText str ++ encodeText rest := by
  induction str using encodeText.induct with
  | case1 => simp [encodeText]
  | case2 from1 str ih =>
    match str with
    | [] | [_] => simp at isWhole
    | from2 :: from3 :: str =>
      have isRest := ih (by simp only [length_cons, drop] at isWhole ⊢; omega)
      rw [cons_append, encodeText, encodeText, append_assoc]
      simpa using isRest

variable {before old after : Cells UInt8} {str : Bytes}

theorem writeChars_eq {chars : Bytes} (isOld : old.length = chars.length) :
    writeChars (before ++ (old ++ after)) before.length chars =
      some (before ++ (chars.map some ++ after)) := by
  induction chars generalizing before old with
  | nil =>
    obtain rfl := length_eq_zero_iff.mp isOld
    rfl
  | cons char chars ih =>
    obtain ⟨cell, old, rfl⟩ := exists_cons_of_length_eq_add_one isOld
    have isRest := @ih (before ++ [some char]) old (by simpa using isOld)
    rw [writeChars, cons_append, write_append, bind_some]
    simpa using isRest

/-- The guard of the loop lets as many characters pass as there are in a full block. -/
theorem encodeLoop_eq {start p : Nat} (isPlace : start + p = before.length)
    (fits : p + (encodeText str).length ≤ maxB64Len - 4)
    (isOld : old.length = (encodeText str).length) :
    encodeLoop start p (before ++ (old ++ after)) str =
      some (before ++ ((encodeText str).map some ++ after), p + (encodeText str).length) := by
  induction str using encodeText.induct generalizing before old p with
  | case1 =>
    obtain rfl : old = [] := length_eq_zero_iff.mp (by simpa [encodeText] using isOld)
    rw [encodeLoop]
    simp [encodeText]
  | case2 from1 str ih =>
    rw [encodeText, length_append] at fits isOld ⊢
    generalize isGroup : encodeGroup from1 str[0]? str[1]? = group at fits isOld ⊢
    have isFour : group.length = 4 := by rw [← isGroup, encodeGroup]; rfl
    have passes : ¬ p > maxB64Len - 5 := by
      rw [maxB64Len] at fits ⊢
      omega
    have isWritten := @writeChars_eq before (old.take 4) (old.drop 4 ++ after) group
      (by rw [length_take]; omega)
    have isRest := @ih (before ++ group.map some) (old.drop 4) (p + 4)
      (by rw [length_append, length_map]; omega) (by omega)
      (by rw [length_drop]; omega)
    rw [← append_assoc (old.take 4), take_append_drop] at isWritten
    rw [encodeLoop, if_neg passes, isGroup, isPlace, isWritten, bind_some,
      ← append_assoc, isRest, isFour, append_assoc, Nat.add_assoc, map_append,
      append_assoc]

theorem strBase64Encode_eq (nonempty : str ≠ []) (fits : str.length ≤ cPerBlock)
    (isOld : old.length = (encodeText str).length) {cell : Option UInt8} :
    strBase64Encode str before.length (before ++ (old ++ cell :: after)) =
      some (before ++ ((encodeText str).map some ++ some 0 :: after)) := by
  have isLength := length_encodeText str
  have notEmpty : str.length ≠ 0 := mt length_eq_zero_iff.mp nonempty
  have isLoop := @encodeLoop_eq before old (cell :: after) str before.length 0 rfl
    (by rw [cPerBlock, maxB64Len] at fits; rw [maxB64Len]; omega) isOld
  have isEnd := @write_append _ (before ++ (encodeText str).map some) after 0 cell
  rw [length_append, length_map, append_assoc, append_assoc] at isEnd
  rw [strBase64Encode, if_neg notEmpty, isLoop, bind_some, Nat.zero_add]
  exact isEnd

theorem exists_append {α : Type*} {list : List α} {first rest : Nat}
    (isLength : list.length = first + rest) :
    ∃ front back, list = front ++ back ∧ front.length = first ∧ back.length = rest := by
  refine ⟨list.take first, list.drop first, (take_append_drop first list).symm, ?_, ?_⟩
  · rw [length_take]
    omega
  · rw [length_drop]
    omega

theorem encodeBlocks_eq {bytesLeft fullBlockNum : Nat}
    (isLength : str.length = cPerBlock * fullBlockNum + bytesLeft) (isLeft : bytesLeft < cPerBlock)
    (isOld : old.length = (encodeText str).length + 1) :
    encodeBlocks bytesLeft str before.length (before ++ old) fullBlockNum =
      some (before ++ ((encodeText str).map some ++ [some 0])) := by
  induction fullBlockNum generalizing str before old with
  | zero =>
    rw [Nat.mul_zero, Nat.zero_add] at isLength
    obtain ⟨old, last, rfl, isText, isLast⟩ := exists_append isOld
    obtain ⟨cell, rfl⟩ := length_eq_one_iff.mp isLast
    have isEnd := fun cell => @write_append _ (before ++ (encodeText str).map some) [] 0 cell
    simp only [length_append, length_map, append_assoc] at isEnd
    rw [encodeBlocks]
    by_cases isEmpty : str = []
    · subst isEmpty
      obtain rfl : old = [] := length_eq_zero_iff.mp (by simpa [encodeText] using isText)
      rw [if_neg (by simp [← isLength])]
      simpa [encodeText] using isEnd cell
    · have notZero : 0 ≠ bytesLeft := by
        rw [← isLength]
        exact Ne.symm (mt length_eq_zero_iff.mp isEmpty)
      rw [if_pos notZero, ← isLength, take_length,
        strBase64Encode_eq isEmpty (by omega) isText, bind_some, ← length_encodeText]
      exact isEnd (some 0)
  | succ fullBlockNum ih =>
    rw [Nat.mul_succ, Nat.add_right_comm, Nat.add_comm _ cPerBlock] at isLength
    obtain ⟨first, rest, rfl, isFirst, isRest⟩ := exists_append isLength
    have isWhole : first.length % 3 = 0 := by rw [isFirst]; rfl
    have isBlock : (encodeText first).length = bPerBlock := by
      rw [length_encodeText, isFirst]
      rfl
    rw [encodeText_append isWhole, length_append, Nat.add_assoc] at isOld
    obtain ⟨old, others, rfl, isText, isOthers⟩ := exists_append isOld
    obtain ⟨cell, others, rfl⟩ := exists_cons_of_length_eq_add_one isOthers
    have nonempty : first ≠ [] := length_pos_iff.mp (by rw [isFirst]; decide)
    have isNext := @ih (before ++ (encodeText first).map some) (some 0 :: others) rest isRest
      (by simpa using isOthers)
    rw [length_append, length_map, isBlock, append_assoc, append_assoc] at isNext
    rw [encodeBlocks, ← isFirst, take_left, drop_left,
      strBase64Encode_eq nonempty (by omega) isText, bind_some, isNext,
      encodeText_append isWhole, map_append, append_assoc]

/-- The memory is filled with the text and a zero, whatever the number of blocks. -/
theorem strBase64EncodeDyn_eq (str : Bytes) :
    strBase64EncodeDyn str = some ((encodeText str).map some ++ [some 0]) := by
  refine @encodeBlocks_eq [] _ str _ _ (Nat.div_add_mod _ _).symm (Nat.mod_lt _ (by decide)) ?_
  simp [length_encodeText]

/-! ## What is decoded -/

/-- A byte has only its low six bits. -/
abbrev IsSextet (uc : UInt8) : Prop := uc &&& 0x3f = uc

/-- Six bits come back from their character, which is not the padding. -/
theorem charBase64Encode_spec {uc : UInt8} (isSextet : IsSextet uc) :
    charBase64Decode (charBase64Encode uc) = uc ∧ '='.toUInt8 ≠ charBase64Encode uc ∧
      isBase64 (charBase64Encode uc) = true := by
  have checked : ∀ value < 64, charBase64Decode (charBase64Encode (UInt8.ofNat value)) =
      UInt8.ofNat value ∧ '='.toUInt8 ≠ charBase64Encode (UInt8.ofNat value) ∧
        isBase64 (charBase64Encode (UInt8.ofNat value)) = true := by
    decide +kernel
  have isLess : uc.toNat < 64 := by
    rw [← isSextet, UInt8.toNat_and]
    exact Nat.and_lt_two_pow uc.toNat (by decide : _ < 2 ^ 6)
  simpa using checked uc.toNat isLess

theorem isSextet_group (from1 from2 from3 : UInt8) :
    IsSextet ((from1 >>> 2) &&& 0x3f) ∧
      IsSextet (((from1 &&& 0x3) <<< 4) ||| (from2 >>> 4)) ∧
      IsSextet (((from2 &&& 0xf) <<< 2) ||| (from3 >>> 6)) ∧ IsSextet (from3 &&& 0x3f) := by
  refine ⟨?_, ?_, ?_, ?_⟩
  all_goals
    apply UInt8.toBitVec_inj.mp
    ext i isBit
    interval_cases i <;> simp

/-- The bytes of a group are put together from its values. -/
theorem joined (from1 from2 from3 : UInt8) :
    (((from1 >>> 2) &&& 0x3f) <<< 2) ||| ((((from1 &&& 0x3) <<< 4) ||| (from2 >>> 4)) >>> 4) =
        from1 ∧
      (((((from1 &&& 0x3) <<< 4) ||| (from2 >>> 4)) &&& 0xf) <<< 4) |||
        ((((from2 &&& 0xf) <<< 2) ||| (from3 >>> 6)) >>> 2) = from2 ∧
      (((((from2 &&& 0xf) <<< 2) ||| (from3 >>> 6)) &&& 0x3) <<< 6) ||| (from3 &&& 0x3f) =
        from3 := by
  refine ⟨?_, ?_, ?_⟩
  all_goals
    apply UInt8.toBitVec_inj.mp
    ext i isBit
    interval_cases i <;> simp

/-- Bytes that were written and counted. -/
def Output.of (bytes : Bytes) : Output := ⟨bytes, bytes.length⟩

variable {maxsize : Nat} {bytes : Bytes}

theorem store_of {byte : UInt8} (fits : bytes.length + 1 < maxsize) :
    store maxsize true (Output.of bytes) byte = .ok (Output.of (bytes ++ [byte])) := by
  have notFull : bytes.length + 1 ≠ maxsize := by omega
  simp [store, Output.of, notFull]

@[simp]
theorem store_false (out : Output) (byte : UInt8) : store maxsize false out byte = .ok out := rfl

theorem decodeBlock_group {from1 : UInt8} {from2 from3 : Option UInt8}
    (isSecond : from2 = none → from3 = none)
    (fits : bytes.length + (from1 :: (from2.toList ++ from3.toList)).length < maxsize) :
    decodeBlock maxsize (encodeGroup from1 from2 from3) (Output.of bytes) =
      .ok (Output.of (bytes ++ from1 :: (from2.toList ++ from3.toList))) := by
  have isJoined := joined from1 (from2.getD 0) (from3.getD 0)
  obtain ⟨six1, six2, six3, six4⟩ := isSextet_group from1 (from2.getD 0) (from3.getD 0)
  obtain ⟨is1, -, -⟩ := charBase64Encode_spec six1
  obtain ⟨is2, -, -⟩ := charBase64Encode_spec six2
  obtain ⟨is3, not3, -⟩ := charBase64Encode_spec six3
  obtain ⟨is4, not4, -⟩ := charBase64Encode_spec six4
  clear six1 six2 six3 six4
  simp only [length_cons, length_append] at fits
  have isStored := @store_of maxsize bytes from1 (by omega)
  match from2, from3 with
  | none, none => simp_all [decodeBlock, encodeGroup, bind, Except.bind]
  | some from2, none =>
    have isStored2 := @store_of maxsize (bytes ++ [from1]) from2 (by simpa using fits)
    simp_all [decodeBlock, encodeGroup, bind, Except.bind]
  | some from2, some from3 =>
    simp only [toList_some, length_singleton] at fits
    have isStored2 := @store_of maxsize (bytes ++ [from1]) from2 (by simp; omega)
    have isStored3 := @store_of maxsize (bytes ++ [from1, from2]) from3 (by simp; omega)
    simp_all [decodeBlock, encodeGroup, bind, Except.bind]
  | none, some from3 => simp at isSecond

theorem decodeLoop_filter (chars text : Bytes) (out : Output) :
    decodeLoop maxsize chars out (text.filter isBase64) = decodeLoop maxsize chars out text := by
  induction text generalizing chars out with
  | nil => rfl
  | cons char text ih =>
    by_cases isChar : isBase64 char = true
    · rw [filter_cons_of_pos isChar]
      simp only [decodeLoop, isChar, ih]
    · rw [filter_cons_of_neg isChar, ih, decodeLoop,
        if_pos (Bool.eq_false_iff.mpr isChar)]

theorem isBase64_group (from1 : UInt8) (from2 from3 : Option UInt8) :
    ∀ char ∈ encodeGroup from1 from2 from3, isBase64 char = true := by
  obtain ⟨six1, six2, six3, six4⟩ := isSextet_group from1 (from2.getD 0) (from3.getD 0)
  have padding : isBase64 '='.toUInt8 = true := by decide
  intro char member
  simp only [encodeGroup, mem_cons, not_mem_nil, or_false] at member
  rcases member with rfl | rfl | rfl | rfl
  · exact (charBase64Encode_spec six1).2.2
  · exact (charBase64Encode_spec six2).2.2
  · split_ifs
    · exact (charBase64Encode_spec six3).2.2
    · exact padding
  · split_ifs
    · exact (charBase64Encode_spec six4).2.2
    · exact padding

theorem isBase64_encodeText (str : Bytes) : ∀ char ∈ encodeText str, isBase64 char = true := by
  induction str using encodeText.induct with
  | case1 => simp [encodeText]
  | case2 from1 str ih =>
    rw [encodeText, forall_mem_append]
    exact ⟨isBase64_group from1 str[0]? str[1]?, ih⟩

theorem decodeLoop_encodeText {str : Bytes} (fits : bytes.length + str.length < maxsize) :
    decodeLoop maxsize [] (Output.of bytes) (encodeText str) = Output.of (bytes ++ str) := by
  induction str using encodeText.induct generalizing bytes with
  | case1 => simp [encodeText, decodeLoop]
  | case2 from1 str ih =>
    have isStr : str = str[0]?.toList ++ (str[1]?.toList ++ str.drop 2) := by
      rcases str with _ | ⟨from2, _ | ⟨from3, str⟩⟩ <;> rfl
    have isSecond : str[0]? = none → str[1]? = none := by
      rw [List.getElem?_eq_none_iff, List.getElem?_eq_none_iff]
      omega
    have isLength := congrArg length isStr
    simp only [length_append, length_cons] at isLength fits
    have isBlock := @decodeBlock_group maxsize bytes from1 str[0]? str[1]? isSecond
      (by simp only [length_append, length_cons]; omega)
    have areChars := isBase64_group from1 str[0]? str[1]?
    have isRest := @ih (bytes ++ from1 :: (str[0]?.toList ++ str[1]?.toList))
      (by simp only [length_append, length_cons]; omega)
    rw [encodeText]
    generalize isGroup : encodeGroup from1 str[0]? str[1]? = group at isBlock areChars ⊢
    obtain ⟨c1, c2, c3, c4, rfl⟩ : ∃ c1 c2 c3 c4, group = [c1, c2, c3, c4] :=
      ⟨_, _, _, _, isGroup.symm⟩
    simp only [mem_cons, not_mem_nil, or_false, forall_eq_or_imp, forall_eq] at areChars
    obtain ⟨char1, char2, char3, char4⟩ := areChars
    simp only [decodeLoop, cons_append, nil_append, char1, char2, char3, char4, isBlock,
      Bool.true_eq_false, if_false, length_nil, length_cons, isRest]
    conv_rhs => rw [isStr]
    simp

/-! ## What is written -/

/-- What was written is counted and fits, with room for another byte while the loop goes on. -/
def Kept (maxsize : Nat) : Except Output Output → Prop
  | .ok out => out.outSize = out.str.length ∧ out.outSize < maxsize
  | .error out => out.outSize = out.str.length ∧ out.outSize ≤ maxsize

theorem Kept.bind {step : Except Output Output} {next : Output → Except Output Output}
    (isKept : Kept maxsize step)
    (areKept : ∀ out, Kept maxsize (.ok out) → Kept maxsize (next out)) :
    Kept maxsize (step >>= next) := by
  cases step with
  | ok out => exact areKept out isKept
  | error out => exact isKept

theorem store_kept {out : Output} (isKept : Kept maxsize (.ok out)) (available : Bool)
    (byte : UInt8) : Kept maxsize (store maxsize available out byte) := by
  obtain ⟨isSize, isLess⟩ := isKept
  simp only [store]
  split_ifs with isAvailable isFull
  · exact ⟨by simp [isSize], isFull.le⟩
  · exact ⟨by simp [isSize], Nat.lt_of_le_of_ne isLess isFull⟩
  · exact ⟨isSize, isLess⟩

theorem decodeBlock_kept {out : Output} (isKept : Kept maxsize (.ok out)) (chars : Bytes) :
    Kept maxsize (decodeBlock maxsize chars out) :=
  (store_kept isKept _ _).bind fun _ isKept =>
    (store_kept isKept _ _).bind fun _ isKept => store_kept isKept _ _

theorem decodeLoop_kept {out : Output} (isKept : Kept maxsize (.ok out)) (chars text : Bytes) :
    Kept maxsize (.error (decodeLoop maxsize chars out text)) := by
  have isWritten := fun {out : Output} (isKept : Kept maxsize (.ok out)) =>
    (⟨isKept.1, isKept.2.le⟩ : Kept maxsize (.error out))
  induction text generalizing chars out with
  | nil =>
    have isBlock := decodeBlock_kept isKept chars
    rw [decodeLoop]
    split_ifs
    · exact isWritten isKept
    · cases isDecoded : decodeBlock maxsize chars out with
      | ok out => exact isWritten (isDecoded ▸ isBlock)
      | error out => exact isDecoded ▸ isBlock
  | cons char text ih =>
    have isBlock := decodeBlock_kept isKept (chars ++ [char])
    rw [decodeLoop]
    split_ifs
    · exact ih isKept chars
    · exact ih isKept (chars ++ [char])
    · cases isDecoded : decodeBlock maxsize (chars ++ [char]) out with
      | ok out => exact ih (isDecoded ▸ isBlock) []
      | error out => exact isDecoded ▸ isBlock

/-- The memory begins with the text and its terminating zero. -/
def HasText (cells : Cells UInt8) (text : CString) : Prop :=
  ∃ rest, cells = text.memory.map some ++ rest

/-- The text has the same characters of the alphabet, with others anywhere between them. -/
def IsInserted (text other : CString) : Prop :=
  other.bytes.filter isBase64 = text.bytes

/--
Bytes come back from their text, also with other characters in it; and the decoder writes no more
bytes than it may, whatever the text is.
-/
theorem strBase64Decode_encode :
    (∀ str : Bytes, ∃ cells text, strBase64EncodeDyn str = some cells ∧ HasText cells text ∧
      (∀ char ∈ text.bytes, isBase64 char = true) ∧
      ∀ (other : CString) (maxsize : Nat), IsInserted text other → str.length + 1 ≤ maxsize →
        strBase64Decode other maxsize = { str, outSize := str.length }) ∧
    ∀ (text : CString) (maxsize : Nat), 0 < maxsize →
      (strBase64Decode text maxsize).str.length ≤ maxsize := by
  refine ⟨fun str => ?_, fun text maxsize positive => ?_⟩
  · have areChars := isBase64_encodeText str
    have noNul : 0 ∉ encodeText str := fun member => absurd (areChars 0 member) (by decide)
    refine ⟨_, ⟨encodeText str, noNul⟩, strBase64EncodeDyn_eq str, ⟨[], by simp [CString.memory]⟩,
      areChars, fun other maxsize isInserted fits => ?_⟩
    rw [strBase64Decode, ← decodeLoop_filter, isInserted]
    exact decodeLoop_encodeText (by simpa [Nat.succ_le_iff] using fits)
  · obtain ⟨isSize, isLess⟩ := @decodeLoop_kept maxsize {} ⟨rfl, positive⟩ [] text.bytes
    exact isSize ▸ isLess

/-- Four bytes are two groups; a line break is put before their text. -/
theorem strBase64Decode_sample :
    (∃ cells text other, strBase64EncodeDyn [77, 97, 110, 46] = some cells ∧ HasText cells text ∧
      other.bytes = 10 :: text.bytes ∧ strBase64Decode other 5 = ⟨[77, 97, 110, 46], 4⟩) ∧
    (strBase64Decode ⟨[77, 97, 110, 46], by decide⟩ 2).str.length ≤ 2 := by
  obtain ⟨isRoundTrip, isBounded⟩ := strBase64Decode_encode
  obtain ⟨cells, text, isEncoded, hasText, areChars, isDecoded⟩ := isRoundTrip [77, 97, 110, 46]
  have isInserted : IsInserted text ⟨10 :: text.bytes, by simpa using text.noNul⟩ :=
    (filter_cons_of_neg (by decide)).trans (filter_eq_self.mpr areChars)
  exact ⟨⟨cells, text, _, isEncoded, hasText, rfl, isDecoded _ 5 isInserted (by decide)⟩,
    isBounded _ 2 (by decide)⟩

end Zabbix.Crypto.Base64
