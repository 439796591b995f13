import Zabbix.Common.Utf8Lengths

/-!
# Item keys that are too long

`zbx_truncate_itemkey` of `str.c`.  A key is cut within its name or within its parameters, such
that the bracket stays closed.  Parameters of five characters may themselves be cut after a name of
four.
-/

namespace Zabbix.ItemKey.Truncation

open Common.Utf8 Common.Utf8Lengths List Option

def zbxSuffix : Bytes := [0x2e, 0x2e, 0x2e]

def zbxBsuffix : Bytes := [0x5b, 0x2e, 0x2e, 0x2e, 0x5d]

def leftBracket : UInt8 := 0x5b

def rightBracket : UInt8 := 0x5d

/-- The part for parameters that are not longer than `ZBX_BSUFFIX`. -/
def truncateName (key bracketL : Bytes) (keyCharCount paramCharCount charMax bufLen : Nat) :
    Option Bytes :=
  if charMax < paramCharCount + zbxSuffix.length then none
  else
    let keyByteCount := 1 + zbxStrlenUtf8Nchars key (charMax - paramCharCount - zbxSuffix.length)
    -- the number of characters before the bracket, not of those from it on
    let paramByteCount := 1 + zbxStrlenUtf8Nchars bracketL keyCharCount
    if bufLen < keyByteCount + zbxSuffix.length + paramByteCount - 1 then none
    else
      let (buf, keyByteCount) := zbxStrlcpyUtf8 [] 0 key keyByteCount
      let (buf, suffixByteCount) :=
        zbxStrlcpyUtf8 buf keyByteCount zbxSuffix (zbxSuffix.length + 1)
      let (buf, _) :=
        zbxStrlcpyUtf8 buf (keyByteCount + suffixByteCount) bracketL paramByteCount
      some buf

/-- The part for names that leave no place for `ZBX_BSUFFIX`. -/
def truncateBoth (key : Bytes) (charMax bufLen : Nat) : Option Bytes :=
  if charMax ≤ zbxSuffix.length + zbxBsuffix.length then none
  else
    let keyByteCount :=
      1 + zbxStrlenUtf8Nchars key (charMax - zbxSuffix.length - zbxBsuffix.length)
    if bufLen < keyByteCount + zbxSuffix.length + zbxBsuffix.length then none
    else
      let (buf, keyByteCount) := zbxStrlcpyUtf8 [] 0 key keyByteCount
      let (buf, suffixByteCount) :=
        zbxStrlcpyUtf8 buf keyByteCount zbxSuffix (zbxSuffix.length + 1)
      let (buf, _) :=
        zbxStrlcpyUtf8 buf (keyByteCount + suffixByteCount) zbxBsuffix (zbxBsuffix.length + 1)
      some buf

def truncateEnd (key : Bytes) (isBracket charMax bufLen : Nat) : Option Bytes :=
  let keyByteCount := 1 + zbxStrlenUtf8Nchars key (charMax - (zbxSuffix.length + isBracket))
  if bufLen < keyByteCount + zbxSuffix.length + isBracket then none
  else
    let (buf, keyByteCount) := zbxStrlcpyUtf8 [] 0 key keyByteCount
    let (buf, _) := zbxStrlcpyUtf8 buf keyByteCount zbxSuffix (zbxSuffix.length + 1)
    if isBracket ≠ 0 then
      let (buf, _) := zbxStrlcpyUtf8 buf (keyByteCount + zbxSuffix.length) [rightBracket] 2
      some buf
    else some buf

/-- `zbx_truncate_itemkey`: the text in the buffer, or `none` where the key itself is returned. -/
def zbxTruncateItemkey (key : Bytes) (charMax bufLen : Nat) : Option Bytes :=
  let keyCharTotal := zbxStrlenUtf8 key
  if keyCharTotal ≤ charMax then none
  else
    let bracketL := key.dropWhile (· ≠ leftBracket)
    let isBracket := if bracketL = [] then 0 else 1
    if charMax < zbxSuffix.length + 2 * isBracket then none
    else if isBracket ≠ 0 then
      let keyCharCount := zbxCharcountUtf8Nbytes key (key.length - bracketL.length)
      let paramCharCount := keyCharTotal - keyCharCount
      if paramCharCount ≤ zbxBsuffix.length then
        truncateName key bracketL keyCharCount paramCharCount charMax bufLen
      else if charMax < keyCharCount + zbxBsuffix.length then truncateBoth key charMax bufLen
      else truncateEnd key isBracket charMax bufLen
    else truncateEnd key isBracket charMax bufLen

/-! ## The text in the buffer -/

/-- The characters of `ZBX_SUFFIX`. -/
def suffixCodes : List Nat := [0x2e, 0x2e, 0x2e]

/-- The characters of `ZBX_BSUFFIX`. -/
def bsuffixCodes : List Nat := [0x5b, 0x2e, 0x2e, 0x2e, 0x5d]

/-- The first characters of a key, the suffix and an ending. -/
def laidOut (codes : List Nat) (count : Nat) (ending : List Nat) : List Nat :=
  codes.take count ++ suffixCodes ++ ending

/-- Characters in a buffer that has place for their text. -/
def place (bufLen : Nat) (codes : List Nat) : Option Bytes :=
  if bufLen < (textOf codes).length + 1 then none else some (textOf codes)

variable {codes front params ending : List Nat} {charMax bufLen : Nat}

theorem textOf_suffixCodes : textOf suffixCodes = zbxSuffix := by decide

theorem textOf_bsuffixCodes : textOf bsuffixCodes = zbxBsuffix := by decide

theorem isScalar_ascii {code : Nat} (isAscii : code < 0x80) : IsScalar code := by
  rw [IsScalar]
  omega

theorem suffix_scalars : ∀ code ∈ suffixCodes, IsScalar code := by
  intro code member
  refine isScalar_ascii ?_
  revert code
  decide

theorem bsuffix_scalars : ∀ code ∈ bsuffixCodes, IsScalar code := by
  intro code member
  refine isScalar_ascii ?_
  revert code
  decide

theorem length_laidOut (codes : List Nat) (count : Nat) (ending : List Nat) :
    (textOf (laidOut codes count ending)).length =
      (textOf (codes.take count)).length + 3 + (textOf ending).length := by
  rw [laidOut, textOf_append, textOf_append, length_append, length_append, textOf_suffixCodes]
  rfl

/-- The first two copies. -/
theorem copy_suffix (areScalars : ∀ code ∈ codes, IsScalar code) (count : Nat) :
    zbxStrlcpyUtf8 [] 0 (textOf codes) (1 + (textOf (codes.take count)).length) =
        (textOf (codes.take count), (textOf (codes.take count)).length) ∧
      zbxStrlcpyUtf8 (textOf (codes.take count)) (textOf (codes.take count)).length zbxSuffix
          (zbxSuffix.length + 1) =
        (textOf (codes.take count ++ suffixCodes), 3) := by
  have copied := strlcpy_textOf areScalars [] count
  have appended := strlcpy_all suffix_scalars (textOf (codes.take count))
  rw [textOf_suffixCodes] at appended
  rw [textOf_append, textOf_suffixCodes]
  exact ⟨copied, appended⟩

theorem length_suffixed (codes : List Nat) (count : Nat) :
    (textOf (codes.take count)).length + 3 =
      (textOf (codes.take count ++ suffixCodes)).length := by
  rw [textOf_append, length_append, textOf_suffixCodes]
  rfl

theorem place_laidOut (codes : List Nat) (count : Nat) (ending : List Nat) :
    place bufLen (laidOut codes count ending) =
      if bufLen < (textOf (codes.take count)).length + 3 + (textOf ending).length + 1 then none
      else some (textOf (codes.take count ++ suffixCodes) ++ textOf ending) := by
  rw [place, length_laidOut, laidOut, textOf_append]

theorem truncateName_eq (areScalars : ∀ code ∈ front ++ params, IsScalar code) :
    truncateName (textOf (front ++ params)) (textOf params) front.length params.length charMax
        bufLen =
      if charMax < params.length + 3 then none
      else place bufLen (laidOut (front ++ params) (charMax - params.length - 3)
        (params.take front.length)) := by
  have areParams : ∀ code ∈ params, IsScalar code :=
    fun code member => areScalars code (mem_append_right _ member)
  obtain ⟨copied, appended⟩ := copy_suffix areScalars (charMax - params.length - 3)
  have isEnding := strlcpy_textOf areParams
    (textOf ((front ++ params).take (charMax - params.length - 3) ++ suffixCodes)) front.length
  have isSuffix : zbxSuffix.length = 3 := rfl
  rw [isSuffix] at appended
  rw [truncateName, place_laidOut]
  simp only [isSuffix, nchars_textOf areScalars, nchars_textOf areParams, copied, appended,
    length_suffixed, isEnding]
  refine if_congr Iff.rfl rfl (if_congr ?_ rfl rfl)
  rw [← length_suffixed]
  omega

theorem truncateBoth_eq (areScalars : ∀ code ∈ codes, IsScalar code) :
    truncateBoth (textOf codes) charMax bufLen =
      if charMax ≤ 8 then none
      else place bufLen (laidOut codes (charMax - 3 - 5) bsuffixCodes) := by
  obtain ⟨copied, appended⟩ := copy_suffix areScalars (charMax - 3 - 5)
  have isEnding := strlcpy_all bsuffix_scalars
    (textOf (codes.take (charMax - 3 - 5) ++ suffixCodes))
  have isSuffix : zbxSuffix.length = 3 := rfl
  have isBsuffix : zbxBsuffix.length = 5 := rfl
  rw [isSuffix] at appended
  rw [textOf_bsuffixCodes, isBsuffix] at isEnding
  rw [truncateBoth, place_laidOut]
  simp only [isSuffix, isBsuffix, nchars_textOf areScalars, copied, appended, length_suffixed,
    textOf_bsuffixCodes, isEnding]
  refine if_congr Iff.rfl rfl (if_congr ?_ rfl rfl)
  rw [← length_suffixed]
  omega

/-- The ending of a key that is cut at its end. -/
def closing (isBracket : Nat) : List Nat :=
  if isBracket = 0 then [] else [0x5d]

theorem closing_scalars : ∀ code ∈ closing 1, IsScalar code := by
  intro code member
  rw [mem_singleton.mp member]
  exact isScalar_ascii (by decide)

theorem truncateEnd_eq (areScalars : ∀ code ∈ codes, IsScalar code) {isBracket : Nat}
    (isFlag : isBracket ≤ 1) :
    truncateEnd (textOf codes) isBracket charMax bufLen =
      place bufLen (laidOut codes (charMax - (3 + isBracket)) (closing isBracket)) := by
  obtain ⟨copied, appended⟩ := copy_suffix areScalars (charMax - (3 + isBracket))
  have isSuffix : zbxSuffix.length = 3 := rfl
  rw [isSuffix] at appended
  rw [truncateEnd, place_laidOut]
  simp only [isSuffix, nchars_textOf areScalars, copied, appended, length_suffixed]
  obtain rfl | rfl : isBracket = 0 ∨ isBracket = 1 := by omega
  · have isNothing : textOf (closing 0) = [] := rfl
    rw [isNothing, append_nil]
    refine if_congr ?_ rfl rfl
    rw [← length_suffixed, length_nil]
    omega
  · have isRight : textOf (closing 1) = [rightBracket] := by decide
    have isEnding := strlcpy_all closing_scalars
      (textOf (codes.take (charMax - (3 + 1)) ++ suffixCodes))
    rw [isRight] at isEnding ⊢
    have isCopied := congrArg (fun copied : Bytes × Nat => some copied.1) isEnding
    refine if_congr ?_ rfl ((if_pos (by decide)).trans isCopied)
    rw [← length_suffixed, length_singleton]
    omega

/-! ## What fits -/

/-- The key itself, or a text that fits in the buffer and has no more characters than asked for: it
starts like the key, and its ending closes the bracket of a key that is closed. -/
def Fits (key : Bytes) (charMax bufLen : Nat) : Option Bytes → Prop
  | none => True
  | some text => text.length + 1 ≤ bufLen ∧ (∃ codes, Encodes codes text ∧ codes.length ≤ charMax) ∧
      ∃ start ending, text = start ++ zbxSuffix ++ ending ∧ start <+: key ∧
        (leftBracket ∉ key → ending = []) ∧
        (leftBracket ∈ key → key.getLast? = some rightBracket → ending.getLast? = some rightBracket)

/-- The name of the key has four characters, and its parameters have five that are closed by the
last one only.  The key is cut to eight characters, for which the buffer has place. -/
def CutsParams (front params : List Nat) (charMax bufLen : Nat) : Prop :=
  front.length = 4 ∧ charMax = 8 ∧ ∃ first second third,
    params = [0x5b, first, second, third, 0x5d] ∧ third ≠ 0x5d ∧
      (textOf [0x5b, first, second, third]).length + 4 ≤ bufLen

theorem fits_place (areScalars : ∀ code ∈ codes, IsScalar code) {count : Nat}
    (areEnding : ∀ code ∈ ending, IsScalar code) (few : count + 3 + ending.length ≤ charMax)
    (noBracket : leftBracket ∉ textOf codes → ending = [])
    (closes : leftBracket ∈ textOf codes → (textOf codes).getLast? = some rightBracket →
      (textOf ending).getLast? = some rightBracket) :
    Fits (textOf codes) charMax bufLen (place bufLen (laidOut codes count ending)) := by
  rw [place]
  split_ifs with isShort
  · trivial
  · refine ⟨Nat.not_lt.mp isShort, ⟨laidOut codes count ending, ⟨?_, rfl⟩, ?_⟩,
      textOf (codes.take count), textOf ending, ?_, ?_, fun notIn => ?_, closes⟩
    · intro code member
      rw [laidOut, mem_append, mem_append] at member
      obtain (isTaken | isSuffix) | isEnding := member
      · exact areScalars code (mem_of_mem_take isTaken)
      · exact suffix_scalars code isSuffix
      · exact areEnding code isEnding
    · rw [laidOut, length_append, length_append, length_take]
      change min count codes.length + 3 + ending.length ≤ charMax
      omega
    · rw [laidOut, textOf_append, textOf_append, textOf_suffixCodes]
    · have isSplit := textOf_append (codes.take count) (codes.drop count)
      rw [take_append_drop] at isSplit
      exact ⟨_, isSplit.symm⟩
    · rw [noBracket notIn]
      rfl

/-- The key as its name and its parameters, which start with a bracket. -/
theorem truncate_eq (areScalars : ∀ code ∈ front ++ params, IsScalar code)
    (notFront : 0x5b ∉ front) (isParams : params = [] ∨ params.head? = some 0x5b) :
    zbxTruncateItemkey (textOf (front ++ params)) charMax bufLen =
      if (front ++ params).length ≤ charMax then none
      else if params = [] then
        if charMax < 3 then none
        else place bufLen (laidOut (front ++ params) (charMax - (3 + 0)) (closing 0))
      else if charMax < 5 then none
      else if params.length ≤ 5 then
        if charMax < params.length + 3 then none
        else place bufLen (laidOut (front ++ params) (charMax - params.length - 3)
          (params.take front.length))
      else if charMax < front.length + 5 then
        if charMax ≤ 8 then none
        else place bufLen (laidOut (front ++ params) (charMax - 3 - 5) bsuffixCodes)
      else place bufLen (laidOut (front ++ params) (charMax - (3 + 1)) (closing 1)) := by
  have isAscii : leftBracket.toNat < 0x80 := by decide
  have isBracketL : (textOf (front ++ params)).dropWhile (· ≠ leftBracket) = textOf params := by
    have areFront : ∀ code ∈ front, decide (code ≠ leftBracket.toNat) = true := by
      intro code member
      rw [decide_eq_true_eq]
      rintro rfl
      exact notFront member
    rw [dropWhile_textOf isAscii areScalars, dropWhile_append_of_pos areFront]
    cases params with
    | nil => rfl
    | cons code params =>
      obtain rfl : code = 0x5b := by simpa using isParams
      rw [dropWhile_cons_of_neg (by decide)]
  have isName : (textOf (front ++ params)).length - (textOf params).length =
      (textOf front).length := by
    rw [textOf_append, length_append, Nat.add_sub_cancel_right]
  have isCount : (front ++ params).length - front.length = params.length := by
    rw [length_append, Nat.add_sub_cancel_left]
  have isSuffix : zbxSuffix.length = 3 := rfl
  have isBsuffix : zbxBsuffix.length = 5 := rfl
  rw [zbxTruncateItemkey]
  simp only [strlen_textOf areScalars, isBracketL, isName, charcount_textOf areScalars, isCount,
    isSuffix, isBsuffix, textOf_eq_nil_iff, truncateName_eq areScalars, truncateBoth_eq areScalars]
  refine if_congr Iff.rfl rfl ?_
  by_cases noParams : params = []
  · simp only [if_pos noParams, truncateEnd_eq areScalars (Nat.zero_le 1)]
    rfl
  · simp only [if_neg noParams, truncateEnd_eq areScalars (Nat.le_refl 1)]
    rfl

theorem mem_leftBracket (front : List Nat) (isHead : params.head? = some 0x5b) :
    leftBracket ∈ textOf (front ++ params) := by
  have member : 0x5b ∈ front ++ params :=
    mem_append_right _ (mem_of_head? isHead)
  exact mem_flatMap.mpr ⟨0x5b, member, by decide⟩

theorem notMem_leftBracket (areScalars : ∀ code ∈ front, IsScalar code) (notFront : 0x5b ∉ front) :
    leftBracket ∉ textOf front := by
  intro member
  obtain ⟨code, isCode, isByte⟩ := mem_flatMap.mp member
  obtain rfl : code = 0x5b := eq_of_mem_encode (areScalars code isCode) isByte (by decide)
  exact notFront isCode

theorem getLast?_textOf_append (front : List Nat) (hasParams : params ≠ []) :
    (textOf (front ++ params)).getLast? = (textOf params).getLast? := by
  have notNil : textOf params ≠ [] := fun isNil => hasParams (textOf_eq_nil_iff.mp isNil)
  rw [textOf_append, getLast?_append, getLast?_eq_some_getLast notNil, some_or]

theorem fits_name (areScalars : ∀ code ∈ front ++ params, IsScalar code)
    (isHead : params.head? = some 0x5b) (hasPlace : params.length + 3 ≤ charMax)
    (isCovered : params.length ≤ front.length) :
    Fits (textOf (front ++ params)) charMax bufLen
      (place bufLen (laidOut (front ++ params) (charMax - params.length - 3)
        (params.take front.length))) := by
  have hasParams : params ≠ [] := fun isNil => by rw [isNil] at isHead; cases isHead
  rw [take_of_length_le isCovered]
  refine fits_place areScalars (fun code member => areScalars code (mem_append_right _ member))
    (by omega) (fun notIn => absurd (mem_leftBracket front isHead) notIn) fun _ isClosed => ?_
  rw [← getLast?_textOf_append front hasParams, isClosed]

theorem fits_cut_iff {first second third fourth : Nat}
    (areScalars : ∀ code ∈ front ++ [0x5b, first, second, third, fourth], IsScalar code)
    (isFour : front.length = 4) :
    Fits (textOf (front ++ [0x5b, first, second, third, fourth])) 8 bufLen
        (place bufLen (laidOut (front ++ [0x5b, first, second, third, fourth]) 0
          [0x5b, first, second, third])) ↔
      ¬ CutsParams front [0x5b, first, second, third, fourth] 8 bufLen := by
  have isThird : IsScalar third := areScalars third (by simp)
  have isFourth : IsScalar fourth := areScalars fourth (by simp)
  have isAscii : rightBracket.toNat < 0x80 := by decide
  have isBracket := @mem_leftBracket [0x5b, first, second, third, fourth] front rfl
  have closed_iff : (textOf (front ++ [0x5b, first, second, third, fourth])).getLast? =
      some rightBracket ↔ fourth = 0x5d := by
    have isLast := getLast?_textOf isAscii (front ++ [0x5b, first, second, third]) isFourth
    rwa [append_assoc] at isLast
  have ending_iff : (textOf [0x5b, first, second, third]).getLast? = some rightBracket ↔
      third = 0x5d :=
    getLast?_textOf isAscii [0x5b, first, second] isThird
  by_cases cuts : CutsParams front [0x5b, first, second, third, fourth] 8 bufLen
  · refine iff_of_false (fun fits => ?_) fun notCuts => notCuts cuts
    obtain ⟨-, -, _, _, _, same, notClosed, room⟩ := cuts
    obtain ⟨rfl, rfl, rfl, rfl⟩ : _ ∧ _ ∧ _ ∧ fourth = 0x5d := by simpa using same
    rw [place_laidOut, if_neg (by rw [take_zero]; change ¬ bufLen < 0 + 3 + _ + 1; omega)]
      at fits
    obtain ⟨-, -, start, ending, isText, -, -, closes⟩ := fits
    have isClosed := closes isBracket (closed_iff.mpr rfl)
    have isLast := congrArg getLast? isText
    have notNil : textOf [0x5b, first, second, third] ≠ [] :=
      fun isNil => by cases textOf_eq_nil_iff.mp isNil
    rw [getLast?_append, getLast?_append, isClosed, some_or,
      getLast?_eq_some_getLast notNil, some_or,
      ← getLast?_eq_some_getLast notNil] at isLast
    exact notClosed (ending_iff.mp isLast)
  · refine iff_of_true ?_ cuts
    by_cases room : (textOf [0x5b, first, second, third]).length + 4 ≤ bufLen
    · refine fits_place areScalars (fun code member => areScalars code ?_) (Nat.le_succ _)
        (fun notIn => absurd isBracket notIn) fun _ isClosed => ?_
      · exact mem_append_right _ (mem_of_mem_take (i := 4) member)
      · obtain rfl := closed_iff.mp isClosed
        rw [ending_iff]
        by_contra notClosed
        exact cuts ⟨isFour, rfl, first, second, third, rfl, notClosed, room⟩
    · rw [place_laidOut, if_pos (by rw [take_zero]; change bufLen < 0 + 3 + _ + 1; omega)]
      trivial

theorem fits_short_iff (areScalars : ∀ code ∈ front ++ params, IsScalar code)
    (isHead : params.head? = some 0x5b) (isLong : charMax < (front ++ params).length)
    (isShort : params.length ≤ 5) (hasPlace : params.length + 3 ≤ charMax) :
    Fits (textOf (front ++ params)) charMax bufLen
        (place bufLen (laidOut (front ++ params) (charMax - params.length - 3)
          (params.take front.length))) ↔
      ¬ CutsParams front params charMax bufLen := by
  rw [length_append] at isLong
  by_cases isCovered : params.length ≤ front.length
  · refine iff_of_true (fits_name areScalars isHead hasPlace isCovered) ?_
    rintro ⟨isFour, -, first, second, third, rfl, -⟩
    rw [isFour] at isCovered
    exact absurd isCovered (by decide : ¬ 5 ≤ 4)
  · have isFour : front.length = 4 := by omega
    have isFive : params.length = 5 := by omega
    obtain rfl : charMax = 8 := by omega
    match params, isFive, isHead with
    | [bracket, first, second, third, fourth], _, isHead =>
      obtain rfl : bracket = 0x5b := some.inj isHead
      rw [isFour]
      exact fits_cut_iff areScalars isFour

theorem CutsParams.not_of_length (isOther : front.length = 4 → charMax = 8 → params.length ≠ 5) :
    ¬ CutsParams front params charMax bufLen := by
  rintro ⟨isFour, isEight, first, second, third, rfl, -⟩
  exact isOther isFour isEight rfl

theorem fits_split_iff (areScalars : ∀ code ∈ front ++ params, IsScalar code)
    (notFront : 0x5b ∉ front) (isParams : params = [] ∨ params.head? = some 0x5b) :
    Fits (textOf (front ++ params)) charMax bufLen
        (zbxTruncateItemkey (textOf (front ++ params)) charMax bufLen) ↔
      ¬ CutsParams front params charMax bufLen := by
  rw [truncate_eq areScalars notFront isParams, length_append]
  split_ifs with isShort noParams isTiny isTiny isFew isTiny isNamed isTiny
  · exact iff_of_true trivial (CutsParams.not_of_length fun _ _ _ => by omega)
  · exact iff_of_true trivial (CutsParams.not_of_length fun _ _ _ => by omega)
  · refine iff_of_true ?_ (CutsParams.not_of_length fun _ _ isFive => ?_)
    · subst noParams
      rw [append_nil] at areScalars ⊢
      exact fits_place areScalars (fun _ member => nomatch member)
        (by change charMax - (3 + 0) + 3 + 0 ≤ charMax; omega) (fun _ => rfl)
        fun isIn => absurd isIn (notMem_leftBracket areScalars notFront)
    · rw [noParams] at isFive
      cases isFive
  · exact iff_of_true trivial (CutsParams.not_of_length fun _ _ _ => by omega)
  · exact iff_of_true trivial (CutsParams.not_of_length fun _ _ _ => by omega)
  · exact fits_short_iff areScalars (isParams.resolve_left noParams)
      (by rw [length_append]; omega) isFew (Nat.not_lt.mp isTiny)
  · exact iff_of_true trivial (CutsParams.not_of_length fun _ _ _ => by omega)
  · refine iff_of_true (fits_place areScalars bsuffix_scalars ?_ ?_ fun _ _ => by decide)
      (CutsParams.not_of_length fun _ _ _ => by omega)
    · change charMax - 3 - 5 + 3 + 5 ≤ charMax
      omega
    · exact fun notIn => absurd (mem_leftBracket front (isParams.resolve_left noParams)) notIn
  · refine iff_of_true (fits_place areScalars closing_scalars ?_ ?_ fun _ _ => by decide)
      (CutsParams.not_of_length fun _ _ _ => by omega)
    · change charMax - (3 + 1) + 3 + 1 ≤ charMax
      omega
    · exact fun notIn => absurd (mem_leftBracket front (isParams.resolve_left noParams)) notIn

/-- A key of characters is returned or cut to a text that fits, except where its parameters are
cut with its name. -/
theorem fits_zbxTruncateItemkey_iff {codes : List Nat} {key : Bytes} (isKey : Encodes codes key)
    (charMax bufLen : Nat) :
    Fits key charMax bufLen (zbxTruncateItemkey key charMax bufLen) ↔
      ¬ CutsParams (codes.takeWhile (· ≠ 0x5b)) (codes.dropWhile (· ≠ 0x5b)) charMax bufLen := by
  obtain ⟨areScalars, rfl⟩ := isKey
  have isSplit := @takeWhile_append_dropWhile _ (fun code => decide (code ≠ 0x5b)) codes
  have notFront : 0x5b ∉ codes.takeWhile (· ≠ 0x5b) :=
    fun member => by simpa using mem_takeWhile_imp member
  have isParams : codes.dropWhile (· ≠ 0x5b) = [] ∨
      (codes.dropWhile (· ≠ 0x5b)).head? = some 0x5b := by
    cases isDropped : codes.dropWhile (· ≠ 0x5b) with
    | nil => exact Or.inl rfl
    | cons code params =>
      have isHead := head?_dropWhile_not (fun code => decide (code ≠ 0x5b)) codes
      rw [isDropped] at isHead
      exact Or.inr (congrArg some (by simpa using isHead))
  have isIff := @fits_split_iff (codes.takeWhile (· ≠ 0x5b)) (codes.dropWhile (· ≠ 0x5b)) charMax
    bufLen (isSplit.symm ▸ areScalars) notFront isParams
  rwa [isSplit] at isIff

/-- A name of six characters, the first of three bytes, is cut to its first character. -/
theorem fits_zbxTruncateItemkey_name :
    zbxTruncateItemkey (textOf [0x20ac, 0x62, 0x63, 0x64, 0x65, 0x66, 0x5b, 0x67, 0x5d]) 7 20 =
        some (textOf [0x20ac, 0x2e, 0x2e, 0x2e, 0x5b, 0x67, 0x5d]) ∧
      Fits (textOf [0x20ac, 0x62, 0x63, 0x64, 0x65, 0x66, 0x5b, 0x67, 0x5d]) 7 20
        (zbxTruncateItemkey (textOf [0x20ac, 0x62, 0x63, 0x64, 0x65, 0x66, 0x5b, 0x67, 0x5d]) 7
          20) := by
  have isKey : Encodes [0x20ac, 0x62, 0x63, 0x64, 0x65, 0x66, 0x5b, 0x67, 0x5d]
      (textOf [0x20ac, 0x62, 0x63, 0x64, 0x65, 0x66, 0x5b, 0x67, 0x5d]) := by
    refine ⟨?_, rfl⟩
    unfold IsScalar
    decide
  refine ⟨by decide, (fits_zbxTruncateItemkey_iff isKey 7 20).mpr ?_⟩
  rintro ⟨isFour, -⟩
  exact absurd isFour (by decide)

/-- The last character of `abcd[efg]` is not that of `...[efg`. -/
theorem not_fits_fourCharacters :
    ¬ Fits [0x61, 0x62, 0x63, 0x64, 0x5b, 0x65, 0x66, 0x67, 0x5d] 8 64
      (zbxTruncateItemkey [0x61, 0x62, 0x63, 0x64, 0x5b, 0x65, 0x66, 0x67, 0x5d] 8 64) := by
  have isText : zbxTruncateItemkey [0x61, 0x62, 0x63, 0x64, 0x5b, 0x65, 0x66, 0x67, 0x5d] 8 64 =
      some [0x2e, 0x2e, 0x2e, 0x5b, 0x65, 0x66, 0x67] := by decide
  rw [isText]
  rintro ⟨-, -, start, ending, same, -, -, closes⟩
  have isLast := congrArg getLast? same
  rw [getLast?_append, closes (by decide) (by decide), some_or] at isLast
  exact absurd isLast (by decide)

end Zabbix.ItemKey.Truncation
