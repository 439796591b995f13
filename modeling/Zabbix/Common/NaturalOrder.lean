import Mathlib.Data.List.Infix
import Mathlib.Data.List.Lex
import Mathlib.Data.Prod.Lex
import Mathlib.Tactic.IntervalCases
import Zabbix.Common.Text

/-!
# Natural string order

`zbx_strcmp_natural` compares runs of digits as numbers and other characters by their codes.
Behind equal numbers it goes on after the character that follows them, so that this character
is never compared.  The order is that of a key which leaves it out.
-/

namespace Zabbix.Common.NaturalOrder

open Text List

/-- What an `int` keeps of a value. -/
def toInt (value : Int) : Int :=
  value.bmod (2 ^ 32)

/-- The value of a signed `char`. -/
def charValue (c : Char) : Int :=
  Int.bmod c.toNat 256

/-- `*s` -/
def charAt (text : Text) : Int :=
  charValue (text.headD '\x00')

def readDigits (value : Int) : Text → Int × Text
  | [] => (value, [])
  | c :: rest =>
    if c.isDigit then readDigits (toInt (value * 10 + charValue c - charValue '0')) rest
    else (value, c :: rest)

theorem length_readDigits_le (value : Int) (text : Text) :
    (readDigits value text).2.length ≤ text.length := by
  induction text generalizing value with
  | nil => exact Nat.le_refl _
  | cons c rest ih =>
    rw [readDigits]
    split_ifs
    · exact Nat.le_succ_of_le (ih _)
    · exact Nat.le_refl _

def zbxStrcmpNatural (s1 s2 : Text) : Int :=
  match s1, s2 with
  | c1 :: rest1, c2 :: rest2 =>
    if !c1.isDigit || !c2.isDigit then
      let ret := charValue c1 - charValue c2
      if ret ≠ 0 then ret else zbxStrcmpNatural rest1 rest2
    else
      let number1 := readDigits 0 (c1 :: rest1)
      let number2 := readDigits 0 (c2 :: rest2)
      let ret := toInt (number1.1 - number2.1)
      if ret ≠ 0 then ret
      else if number1.2 = [] ∨ number2.2 = [] then charAt number1.2 - charAt number2.2
      -- the loop steps over the characters after the numbers
      else zbxStrcmpNatural number1.2.tail number2.2.tail
  | s1, s2 => charAt s1 - charAt s2
termination_by s1.length
decreasing_by
  · exact Nat.lt_succ_self _
  · have atMost := length_readDigits_le 0 (c1 :: rest1)
    rw [length_tail]
    have : 0 < (c1 :: rest1).length := Nat.succ_pos _
    omega

/-! ## The key of a text -/

def addDigit (value : Nat) (c : Char) : Nat :=
  10 * value + (c.toNat - 48)

/-- The values that are compared in turn.  Numbers are all in the place of the digit `0` among
the characters, and the character after a number is left out.  The number that is being read
comes with the text. -/
def key : Option Nat → Text → List (ℕ ×ₗ ℕ)
  | none, [] => []
  | some value, [] => [toLex (48, value)]
  | none, c :: rest =>
    if c.isDigit then key (some (addDigit 0 c)) rest else toLex (c.toNat, 0) :: key none rest
  | some value, c :: rest =>
    if c.isDigit then key (some (addDigit value c)) rest
    else toLex (48, value) :: toLex (0, 0) :: key none rest

/-- What follows the number in a key. -/
def keyAfter : Text → List (ℕ ×ₗ ℕ)
  | [] => []
  | _ :: rest => toLex (0, 0) :: key none rest

def digitsAfter (value : Nat) (digits : Text) : Nat :=
  digits.foldl addDigit value

/-- ASCII text whose digit runs fit into an `int`. -/
structure IsNatural (text : Text) : Prop where
  isAscii : ∀ c ∈ text, 0 < c.toNat ∧ c.toNat < 128
  fits : ∀ run, run <:+: text → (∀ c ∈ run, c.isDigit = true) → digitsAfter 0 run < 2 ^ 31

variable {text rest run s1 s2 : Text} {c : Char} {value : Nat}

theorem IsNatural.suffix (natural : IsNatural text) (isSuffix : rest <:+ text) :
    IsNatural rest where
  isAscii c member := natural.isAscii c (isSuffix.subset member)
  fits run isInfix := natural.fits run (isInfix.trans isSuffix.isInfix)

theorem isDigit_iff : c.isDigit = true ↔ 48 ≤ c.toNat ∧ c.toNat ≤ 57 := by
  simp only [Char.isDigit, Bool.and_eq_true, decide_eq_true_eq, ge_iff_le, UInt32.le_iff_toNat_le]
  rfl

theorem charValue_of_lt (isAscii : c.toNat < 128) : charValue c = c.toNat := by
  unfold charValue
  exact Int.bmod_eq_of_le_mul_two (by omega) (by omega)

theorem le_digitsAfter (value : Nat) (digits : Text) : value ≤ digitsAfter value digits := by
  induction digits generalizing value with
  | nil => exact Nat.le_refl _
  | cons c digits ih =>
    have step : value ≤ addDigit value c := by
      rw [addDigit]
      omega
    exact step.trans (ih _)

theorem readDigits_run (areDigits : ∀ c ∈ run, c.isDigit = true)
    (stops : ∀ c ∈ rest.head?, c.isDigit = false) (fits : digitsAfter value run < 2 ^ 31) :
    readDigits value (run ++ rest) = (↑(digitsAfter value run), rest) := by
  induction run generalizing value with
  | nil =>
    cases rest with
    | nil => rfl
    | cons c rest =>
      rw [nil_append, readDigits, if_neg (by simp [stops c rfl])]
      rfl
  | cons c run ih =>
    obtain ⟨isDigit, others⟩ := forall_mem_cons.mp areDigits
    obtain ⟨low, high⟩ := isDigit_iff.mp isDigit
    have step : digitsAfter (addDigit value c) run < 2 ^ 31 := fits
    have small := Nat.lt_of_le_of_lt (le_digitsAfter (addDigit value c) run) step
    have same : toInt (↑value * 10 + charValue c - charValue '0') = ↑(addDigit value c) := by
      rw [charValue_of_lt (by omega), charValue_of_lt (by decide), toInt]
      rw [addDigit] at small ⊢
      have zero : '0'.toNat = 48 := rfl
      rw [zero, Int.bmod_eq_of_le (by omega) (by omega)]
      omega
    rw [cons_append, readDigits, if_pos isDigit, same, ih others step]
    rfl

theorem key_run (areDigits : ∀ c ∈ run, c.isDigit = true)
    (stops : ∀ c ∈ rest.head?, c.isDigit = false) :
    key (some value) (run ++ rest) = toLex (48, digitsAfter value run) :: keyAfter rest := by
  induction run generalizing value with
  | nil =>
    cases rest with
    | nil => rfl
    | cons c rest =>
      rw [nil_append, key, if_neg (by simp [stops c rfl])]
      rfl
  | cons c run ih =>
    obtain ⟨isDigit, others⟩ := forall_mem_cons.mp areDigits
    rw [cons_append, key, if_pos isDigit, ih others]
    rfl

theorem key_cons_of_digit (isDigit : c.isDigit = true) :
    key none (c :: rest) = key (some 0) (c :: rest) := by
  rw [key, key, if_pos isDigit, if_pos isDigit]

theorem key_cons_of_not_digit (notDigit : c.isDigit = false) :
    key none (c :: rest) = toLex (c.toNat, 0) :: key none rest := by
  rw [key, if_neg (by simp [notDigit])]

theorem exists_number (natural : IsNatural (c :: rest)) (isDigit : c.isDigit = true) :
    ∃ (number : Nat) (after : Text), after <:+ rest ∧ readDigits 0 (c :: rest) = (↑number, after) ∧
      number < 2 ^ 31 ∧ key none (c :: rest) = toLex (48, number) :: keyAfter after := by
  have split := takeWhile_append_dropWhile (p := Char.isDigit) (l := c :: rest)
  have areDigits : ∀ digit ∈ (c :: rest).takeWhile Char.isDigit, digit.isDigit = true :=
    fun _ member => mem_takeWhile_imp member
  have stops : ∀ first ∈ ((c :: rest).dropWhile Char.isDigit).head?, first.isDigit = false := by
    intro first isFirst
    have notDigit := head?_dropWhile_not Char.isDigit (c :: rest)
    rw [isFirst] at notDigit
    simpa using notDigit
  have fits := natural.fits _ ( takeWhile_prefix Char.isDigit).isInfix areDigits
  refine ⟨digitsAfter 0 ((c :: rest).takeWhile Char.isDigit),
    (c :: rest).dropWhile Char.isDigit, ?_, ?_, fits, ?_⟩
  · rw [dropWhile_cons_of_pos isDigit]
    exact dropWhile_suffix _
  · have read := readDigits_run areDigits stops fits
    rwa [split] at read
  · have read : key (some 0) _ = _ := key_run areDigits stops
    rwa [split, ← key_cons_of_digit isDigit] at read

/-! ## Comparing keys -/

/-- The sign of a result is the order of two keys. -/
def Compares (ret : Int) (first second : List (ℕ ×ₗ ℕ)) : Prop :=
  (ret < 0 ↔ first < second) ∧ (0 < ret ↔ second < first)

variable {ret : Int} {first second : List (ℕ ×ₗ ℕ)} {left right : ℕ ×ₗ ℕ}

theorem Compares.eq_zero_iff (compares : Compares ret first second) :
    ret = 0 ↔ first = second := by
  constructor
  · rintro rfl
    obtain less | same | greater := lt_trichotomy first second
    · exact absurd (compares.1.mpr less) (by decide)
    · exact same
    · exact absurd (compares.2.mpr greater) (by decide)
  · rintro rfl
    have notLess : ¬ret < 0 := fun less => lt_irrefl _ (compares.1.mp less)
    have notGreater : ¬0 < ret := fun greater => lt_irrefl _ (compares.2.mp greater)
    omega

theorem compares_heads (less : ret < 0 ↔ left < right) (greater : 0 < ret ↔ right < left)
    (different : ret ≠ 0) : Compares ret (left :: first) (right :: second) := by
  have notSame : left ≠ right := by
    rintro rfl
    obtain below | above := Int.lt_or_gt_of_ne different
    · exact lt_irrefl _ (less.mp below)
    · exact lt_irrefl _ (greater.mp above)
  rw [Compares, cons_lt_cons_iff, cons_lt_cons_iff, less, greater]
  simp [notSame, notSame.symm]

theorem compares_tails (compares : Compares ret first second) :
    Compares ret (left :: first) (left :: second) := by
  rw [Compares, cons_lt_cons_iff, cons_lt_cons_iff, compares.1, compares.2]
  simp

theorem compares_nil_left (isAscii : 0 < c.toNat ∧ c.toNat < 128) :
    Compares (charAt [] - charAt (c :: rest)) [] (left :: second) := by
  have isZero : charAt [] = 0 := by decide
  have isValue : charAt (c :: rest) = charValue c := rfl
  rw [Compares, isZero, isValue, charValue_of_lt isAscii.2]
  exact ⟨iff_of_true (by omega) (nil_lt_cons _ _), iff_of_false (by omega) (not_lt_nil _)⟩

theorem Compares.symm (compares : Compares ret first second) : Compares (-ret) second first := by
  have less := compares.1
  have greater := compares.2
  exact ⟨by rw [← greater]; omega, by rw [← less]; omega⟩

theorem compares_nil_right (isAscii : 0 < c.toNat ∧ c.toNat < 128) :
    Compares (charAt (c :: rest) - charAt []) (left :: first) [] := by
  have compares : Compares (charAt [] - charAt (c :: rest)) [] (left :: first) :=
    compares_nil_left isAscii
  have swapped := compares.symm
  rwa [Int.neg_sub] at swapped

theorem compares_mixed {c1 c2 : Char} {n1 n2 : Nat} (isAscii1 : c1.toNat < 128)
    (isAscii2 : c2.toNat < 128)
    (place1 : c1.isDigit = false ∧ left = toLex (c1.toNat, 0) ∨
      c1.isDigit = true ∧ left = toLex (48, n1))
    (place2 : c2.isDigit = false ∧ right = toLex (c2.toNat, 0) ∨
      c2.isDigit = true ∧ right = toLex (48, n2))
    (notBoth : ¬(c1.isDigit = true ∧ c2.isDigit = true))
    (different : charValue c1 - charValue c2 ≠ 0) :
    Compares (charValue c1 - charValue c2) (left :: first) (right :: second) := by
  rw [charValue_of_lt isAscii1, charValue_of_lt isAscii2] at different ⊢
  have outside {c : Char} (notDigit : c.isDigit = false) : c.toNat < 48 ∨ 57 < c.toNat := by
    by_contra inside
    rw [not_or, not_lt, not_lt] at inside
    exact Bool.false_ne_true (notDigit.symm.trans (isDigit_iff.mpr inside))
  obtain ⟨notDigit1, rfl⟩ | ⟨isDigit1, rfl⟩ := place1
  · obtain ⟨notDigit2, rfl⟩ | ⟨isDigit2, rfl⟩ := place2
    · refine compares_heads ?_ ?_ different
      all_goals
        rw [Prod.Lex.toLex_lt_toLex]
        omega
    · have apart := outside notDigit1
      have inside := isDigit_iff.mp isDigit2
      refine compares_heads ?_ ?_ different
      all_goals
        rw [Prod.Lex.toLex_lt_toLex]
        omega
  · obtain ⟨notDigit2, rfl⟩ | ⟨isDigit2, rfl⟩ := place2
    · have apart := outside notDigit2
      have inside := isDigit_iff.mp isDigit1
      refine compares_heads ?_ ?_ different
      all_goals
        rw [Prod.Lex.toLex_lt_toLex]
        omega
    · exact absurd ⟨isDigit1, isDigit2⟩ notBoth

/-- The key of a text starts where the text does. -/
theorem exists_place (natural : IsNatural (c :: rest)) : ∃ left later number,
    key none (c :: rest) = left :: later ∧
      (c.isDigit = false ∧ left = toLex (c.toNat, 0) ∨
        c.isDigit = true ∧ left = toLex (48, number)) := by
  cases isDigit : c.isDigit with
  | false => exact ⟨_, _, 0, key_cons_of_not_digit isDigit, Or.inl ⟨rfl, rfl⟩⟩
  | true =>
    obtain ⟨number, after, -, -, -, isKey⟩ := exists_number natural isDigit
    exact ⟨_, _, number, isKey, Or.inr ⟨rfl, rfl⟩⟩

theorem toInt_sub {n1 n2 : Nat} (small1 : n1 < 2 ^ 31) (small2 : n2 < 2 ^ 31) :
    toInt (↑n1 - ↑n2) = ↑n1 - ↑n2 := by
  unfold toInt
  exact Int.bmod_eq_of_le_mul_two (by omega) (by omega)

theorem both_digits {c1 c2 : Char} (both : ¬(!c1.isDigit || !c2.isDigit) = true) :
    c1.isDigit = true ∧ c2.isDigit = true := by
  rw [Bool.not_eq_true, Bool.or_eq_false_iff, Bool.not_eq_false', Bool.not_eq_false'] at both
  exact both

theorem exists_numbers {c1 c2 : Char} {rest1 rest2 : Text} (natural1 : IsNatural (c1 :: rest1))
    (natural2 : IsNatural (c2 :: rest2)) (both : ¬(!c1.isDigit || !c2.isDigit) = true) :
    ∃ (n1 n2 : Nat) (after1 after2 : Text), after1 <:+ rest1 ∧ after2 <:+ rest2 ∧
      (readDigits 0 (c1 :: rest1)).2 = after1 ∧ (readDigits 0 (c2 :: rest2)).2 = after2 ∧
      toInt ((readDigits 0 (c1 :: rest1)).1 - (readDigits 0 (c2 :: rest2)).1) = ↑n1 - ↑n2 ∧
      key none (c1 :: rest1) = toLex (48, n1) :: keyAfter after1 ∧
      key none (c2 :: rest2) = toLex (48, n2) :: keyAfter after2 := by
  obtain ⟨isDigit1, isDigit2⟩ := both_digits both
  obtain ⟨n1, after1, suffix1, read1, small1, isKey1⟩ := exists_number natural1 isDigit1
  obtain ⟨n2, after2, suffix2, read2, small2, isKey2⟩ := exists_number natural2 isDigit2
  refine ⟨n1, n2, after1, after2, suffix1, suffix2, ?_, ?_, ?_, isKey1, isKey2⟩
  · rw [read1]
  · rw [read2]
  · rw [read1, read2]
    exact toInt_sub small1 small2

theorem zbxStrcmpNatural_compares (natural1 : IsNatural s1) (natural2 : IsNatural s2) :
    Compares (zbxStrcmpNatural s1 s2) (key none s1) (key none s2) := by
  fun_induction zbxStrcmpNatural s1 s2 with
  | case1 c1 rest1 c2 rest2 notBoth ret different =>
    obtain ⟨left, first, n1, isKey1, place1⟩ := exists_place natural1
    obtain ⟨right, second, n2, isKey2, place2⟩ := exists_place natural2
    rw [isKey1, isKey2]
    refine compares_mixed (natural1.isAscii c1 mem_cons_self).2
      (natural2.isAscii c2 mem_cons_self).2 place1 place2 ?_ different
    rintro ⟨isDigit1, isDigit2⟩
    rw [isDigit1, isDigit2] at notBoth
    exact Bool.false_ne_true notBoth
  | case2 c1 rest1 c2 rest2 notBoth ret same ih =>
    have sameValue : c1.toNat = c2.toNat := by
      have isZero : charValue c1 - charValue c2 = 0 := not_not.mp same
      rw [charValue_of_lt (natural1.isAscii c1 mem_cons_self).2,
        charValue_of_lt (natural2.isAscii c2 mem_cons_self).2] at isZero
      omega
    obtain rfl := Char.toNat_inj.mp sameValue
    rw [Bool.or_self, Bool.not_eq_true'] at notBoth
    rw [key_cons_of_not_digit notBoth, key_cons_of_not_digit notBoth]
    exact compares_tails (ih (natural1.suffix (suffix_cons _ _))
      (natural2.suffix (suffix_cons _ _)))
  | case3 c1 rest1 c2 rest2 both number1 number2 ret different =>
    obtain ⟨n1, n2, after1, after2, -, -, -, -, isRet, isKey1, isKey2⟩ :=
      exists_numbers natural1 natural2 both
    change ret = ↑n1 - ↑n2 at isRet
    rw [isRet] at different ⊢
    rw [isKey1, isKey2]
    refine compares_heads ?_ ?_ different
    all_goals
      rw [Prod.Lex.toLex_lt_toLex]
      omega
  | case4 c1 rest1 c2 rest2 both number1 number2 ret same ends =>
    obtain ⟨n1, n2, after1, after2, suffix1, suffix2, isAfter1, isAfter2, isRet, isKey1, isKey2⟩ :=
      exists_numbers natural1 natural2 both
    change ret = ↑n1 - ↑n2 at isRet
    change number1.2 = after1 at isAfter1
    change number2.2 = after2 at isAfter2
    obtain rfl : n1 = n2 := by omega
    rw [isAfter1, isAfter2] at ends ⊢
    rw [isKey1, isKey2]
    refine compares_tails ?_
    cases after1 with
    | nil =>
      cases after2 with
      | nil => exact ⟨iff_of_false (by decide) (lt_irrefl _),
          iff_of_false (by decide) (lt_irrefl _)⟩
      | cons c after2 =>
        exact compares_nil_left
          (natural2.isAscii c (mem_cons_of_mem _ (suffix2.subset mem_cons_self)))
    | cons c after1 =>
      obtain rfl := ends.resolve_left (cons_ne_nil _ _)
      exact compares_nil_right
        (natural1.isAscii c (mem_cons_of_mem _ (suffix1.subset mem_cons_self)))
  | case5 c1 rest1 c2 rest2 both number1 number2 ret same ends ih =>
    obtain ⟨n1, n2, after1, after2, suffix1, suffix2, isAfter1, isAfter2, isRet, isKey1, isKey2⟩ :=
      exists_numbers natural1 natural2 both
    change ret = ↑n1 - ↑n2 at isRet
    change number1.2 = after1 at isAfter1
    change number2.2 = after2 at isAfter2
    obtain rfl : n1 = n2 := by omega
    rw [isAfter1, isAfter2] at ends ih ⊢
    rw [isKey1, isKey2]
    refine compares_tails ?_
    cases after1 with
    | nil => exact absurd (Or.inl rfl) ends
    | cons skipped1 after1 =>
      cases after2 with
      | nil => exact absurd (Or.inr rfl) ends
      | cons skipped2 after2 =>
        have atRest1 := (suffix_cons skipped1 after1).trans suffix1
        have atRest2 := (suffix_cons skipped2 after2).trans suffix2
        exact compares_tails (ih (natural1.suffix (atRest1.trans (suffix_cons _ _)))
          (natural2.suffix (atRest2.trans (suffix_cons _ _))))
  | case6 s1 s2 ends =>
    cases s1 with
    | nil =>
      cases s2 with
      | nil => exact ⟨iff_of_false (by decide) (lt_irrefl _),
          iff_of_false (by decide) (lt_irrefl _)⟩
      | cons c2 rest2 =>
        obtain ⟨right, second, n2, isKey2, -⟩ := exists_place natural2
        rw [isKey2]
        exact compares_nil_left (natural2.isAscii c2 mem_cons_self)
    | cons c1 rest1 =>
      cases s2 with
      | nil =>
        obtain ⟨left, first, n1, isKey1, -⟩ := exists_place natural1
        rw [isKey1]
        exact compares_nil_right (natural1.isAscii c1 mem_cons_self)
      | cons c2 rest2 => exact absurd rfl (ends _ _ _ _ rfl)

/-! ## Texts with the same key -/

def startsWithDigit (text : Text) : Bool :=
  text.head?.any Char.isDigit

/-- The text without the leading zeros of its numbers.  Zeros are leading while the number has
no digit yet and another digit follows. -/
def removeLeadingZeros : Bool → Text → Text
  | _, [] => []
  | inNumber, c :: rest =>
    if c.isDigit then
      if c = '0' && !inNumber && startsWithDigit rest then removeLeadingZeros false rest
      else c :: removeLeadingZeros true rest
    else c :: removeLeadingZeros false rest

/-- The text with a blank in the place of each character that follows a number. -/
def maskAfterNumbers : Bool → Text → Text
  | _, [] => []
  | afterDigit, c :: rest =>
    if c.isDigit then c :: maskAfterNumbers true rest
    else (if afterDigit then ' ' else c) :: maskAfterNumbers false rest

def keyText : List (ℕ ×ₗ ℕ) → Text
  | [] => []
  | place :: later =>
    let (code, number) := ofLex place
    if code = 48 then Nat.toDigits 10 number ++ keyText later
    else (if code = 0 then ' ' else Char.ofNat code) :: keyText later

theorem key_maskAfterNumbers (text : Text) :
    key none (maskAfterNumbers false text) = key none text ∧
      ∀ value, key (some value) (maskAfterNumbers true text) = key (some value) text := by
  induction text with
  | nil => exact ⟨rfl, fun _ => rfl⟩
  | cons c rest ih =>
    by_cases isDigit : c.isDigit = true
    · simp only [maskAfterNumbers, key, isDigit, if_true, ih.2, implies_true, and_self]
    · have notBlank : (' ').isDigit = false := rfl
      simp only [maskAfterNumbers, key, isDigit, notBlank, Bool.false_eq_true, if_false, if_true,
        ih.1, implies_true, and_self]

theorem key_zero (starts : startsWithDigit rest = true) : key (some 0) rest = key none rest := by
  cases rest with
  | nil => cases starts
  | cons c rest => exact (key_cons_of_digit starts).symm

theorem key_removeLeadingZeros (text : Text) :
    key none (removeLeadingZeros false text) = key none text ∧
      ∀ value, key (some value) (removeLeadingZeros true text) = key (some value) text := by
  induction text with
  | nil => exact ⟨rfl, fun _ => rfl⟩
  | cons c rest ih =>
    by_cases isDigit : c.isDigit = true
    · constructor
      · rw [removeLeadingZeros, if_pos isDigit]
        split_ifs with isLeading
        · simp only [Bool.and_eq_true, decide_eq_true_eq, Bool.not_false, and_true] at isLeading
          obtain ⟨rfl, starts⟩ := isLeading
          exact ih.1.trans (key_zero starts).symm
        · rw [key, key, if_pos isDigit, if_pos isDigit, ih.2]
      · intro value
        have isKept : ¬(c = '0' && !true && startsWithDigit rest) = true := by simp
        rw [removeLeadingZeros, if_pos isDigit, if_neg isKept, key, key, if_pos isDigit,
          if_pos isDigit, ih.2]
    · simp only [removeLeadingZeros, key, isDigit, Bool.false_eq_true, if_false, ih.1,
        implies_true, and_self]

theorem toDigits_digit (isDigit : c.isDigit = true) : Nat.toDigits 10 (addDigit 0 c) = [c] := by
  obtain ⟨low, high⟩ := isDigit_iff.mp isDigit
  rw [addDigit, Nat.toDigits_of_lt_base (by omega)]
  refine congrArg (fun char => [char]) (Char.toNat_inj.mp ?_)
  generalize c.toNat = code at low high
  interval_cases code
  all_goals rfl

theorem toDigits_addDigit (positive : 0 < value) (isDigit : c.isDigit = true) :
    Nat.toDigits 10 (addDigit value c) = Nat.toDigits 10 value ++ [c] := by
  obtain ⟨low, high⟩ := isDigit_iff.mp isDigit
  rw [← toDigits_digit isDigit, addDigit, addDigit, Nat.mul_zero, Nat.zero_add]
  exact (Nat.toDigits_append_toDigits (by decide) positive (by omega)).symm

theorem keyText_key (text : Text) (isAscii : ∀ c ∈ text, 0 < c.toNat ∧ c.toNat < 128) :
    keyText (key none text) = maskAfterNumbers false (removeLeadingZeros false text) ∧
      ∀ value, 0 < value ∨ startsWithDigit text = false → keyText (key (some value) text) =
        Nat.toDigits 10 value ++ maskAfterNumbers true (removeLeadingZeros true text) := by
  induction text with
  | nil => exact ⟨rfl, fun _ _ => rfl⟩
  | cons c rest ih =>
    obtain ⟨atFirst, others⟩ := forall_mem_cons.mp isAscii
    obtain ⟨without, within⟩ := ih others
    cases isDigit : c.isDigit with
    | true =>
      constructor
      · rw [key, if_pos isDigit, removeLeadingZeros, if_pos isDigit]
        split_ifs with isLeading
        · simp only [Bool.and_eq_true, decide_eq_true_eq, Bool.not_false, and_true] at isLeading
          obtain ⟨rfl, starts⟩ := isLeading
          exact (congrArg keyText (key_zero starts)).trans without
        · rw [within, toDigits_digit isDigit, maskAfterNumbers, if_pos isDigit]
          · rfl
          · by_contra neither
            rw [not_or, Bool.not_eq_false] at neither
            obtain ⟨low, high⟩ := isDigit_iff.mp isDigit
            rw [addDigit] at neither
            have isZero : c = '0' := Char.toNat_inj.mp (show c.toNat = 48 by omega)
            rw [neither.2, isZero] at isLeading
            exact isLeading rfl
      · intro value either
        have positive : 0 < value := either.resolve_right (by simp [startsWithDigit, isDigit])
        have isKept : ¬(c = '0' && !true && startsWithDigit rest) = true := by simp
        rw [key, if_pos isDigit, within _ (Or.inl ?_), toDigits_addDigit positive isDigit,
          removeLeadingZeros, if_pos isDigit, if_neg isKept, maskAfterNumbers, if_pos isDigit,
          append_assoc]
        · rfl
        · rw [addDigit]
          omega
    | false =>
      have notDigit : ¬c.isDigit = true := by simp [isDigit]
      have notZero : c.toNat ≠ 48 := by
        intro isZero
        rw [Char.toNat_inj.mp (show c.toNat = '0'.toNat from isZero)] at isDigit
        cases isDigit
      constructor
      · rw [key, if_neg notDigit, removeLeadingZeros, if_neg notDigit, maskAfterNumbers,
          if_neg notDigit, ← without, keyText]
        simp only [ofLex_toLex, notZero, Nat.ne_of_gt atFirst.1, if_false, Char.ofNat_toNat,
          Bool.false_eq_true]
      · intro value _
        rw [key, if_neg notDigit, removeLeadingZeros, if_neg notDigit, maskAfterNumbers,
          if_neg notDigit, ← without]
        rfl

/-- Two texts compare equal when they differ in nothing but leading zeros and the characters
that follow numbers. -/
theorem zbxStrcmpNatural_eq_zero_iff (natural1 : IsNatural s1) (natural2 : IsNatural s2) :
    zbxStrcmpNatural s1 s2 = 0 ↔
      maskAfterNumbers false (removeLeadingZeros false s1) =
        maskAfterNumbers false (removeLeadingZeros false s2) := by
  rw [(zbxStrcmpNatural_compares natural1 natural2).eq_zero_iff]
  constructor
  · intro same
    rw [← (keyText_key s1 natural1.isAscii).1, same, (keyText_key s2 natural2.isAscii).1]
  · intro same
    have ofMasked := fun text => (key_maskAfterNumbers (removeLeadingZeros false text)).1.trans
      (key_removeLeadingZeros text).1
    rw [← ofMasked s1, same, ofMasked s2]

/-! ## The order -/

/-- The comparison behaves like a total preorder, in which only texts that are equal without
leading zeros are alike. -/
def OrderedAt (a b c : Text) : Prop :=
  zbxStrcmpNatural a a = 0 ∧
    (zbxStrcmpNatural a b).sign = -(zbxStrcmpNatural b a).sign ∧
    (zbxStrcmpNatural a b ≤ 0 → zbxStrcmpNatural b c ≤ 0 → zbxStrcmpNatural a c ≤ 0) ∧
    (zbxStrcmpNatural a b = 0 → removeLeadingZeros false a = removeLeadingZeros false b)

/-- Without leading zeros, the texts differ, but in characters that follow numbers only. -/
def DiffersOnlyAfterNumbers (a b : Text) : Prop :=
  removeLeadingZeros false a ≠ removeLeadingZeros false b ∧
    maskAfterNumbers false (removeLeadingZeros false a) =
      maskAfterNumbers false (removeLeadingZeros false b)

theorem Compares.le_zero_iff (compares : Compares ret first second) : ret ≤ 0 ↔ first ≤ second := by
  rw [← not_lt, ← not_lt, compares.2]

theorem Compares.sign_eq_neg {ret' : Int} (compares : Compares ret first second)
    (compares' : Compares ret' second first) : ret.sign = -ret'.sign := by
  obtain less | same | greater := lt_trichotomy first second
  · rw [Int.sign_eq_neg_one_of_neg (compares.1.mpr less),
      Int.sign_eq_one_of_pos (compares'.2.mpr less)]
  · rw [compares.eq_zero_iff.mpr same, compares'.eq_zero_iff.mpr same.symm]
    rfl
  · rw [Int.sign_eq_one_of_pos (compares.2.mpr greater),
      Int.sign_eq_neg_one_of_neg (compares'.1.mpr greater)]
    rfl

/-- The comparison is a total preorder on all texts.  It takes texts for equal that are not
when a number is followed by different characters. -/
theorem zbxStrcmpNatural_orderedAt_iff {a b c : Text} (naturalA : IsNatural a)
    (naturalB : IsNatural b) (naturalC : IsNatural c) :
    OrderedAt a b c ↔ ¬DiffersOnlyAfterNumbers a b := by
  have atAA := zbxStrcmpNatural_compares naturalA naturalA
  have atAB := zbxStrcmpNatural_compares naturalA naturalB
  have atBA := zbxStrcmpNatural_compares naturalB naturalA
  have atBC := zbxStrcmpNatural_compares naturalB naturalC
  have atAC := zbxStrcmpNatural_compares naturalA naturalC
  have preorder : zbxStrcmpNatural a a = 0 ∧
      (zbxStrcmpNatural a b).sign = -(zbxStrcmpNatural b a).sign ∧
      (zbxStrcmpNatural a b ≤ 0 → zbxStrcmpNatural b c ≤ 0 → zbxStrcmpNatural a c ≤ 0) := by
    refine ⟨atAA.eq_zero_iff.mpr rfl, atAB.sign_eq_neg atBA, ?_⟩
    rw [atAB.le_zero_iff, atBC.le_zero_iff, atAC.le_zero_iff]
    exact le_trans
  rw [OrderedAt, DiffersOnlyAfterNumbers, zbxStrcmpNatural_eq_zero_iff naturalA naturalB,
    not_and', not_not]
  constructor
  · rintro ⟨-, -, -, alike⟩
    exact alike
  · intro alike
    exact ⟨preorder.1, preorder.2.1, preorder.2.2, alike⟩

theorem digitsAfter_lt {bound : Nat} (areDigits : ∀ c ∈ run, c.isDigit = true)
    (below : value < bound) : digitsAfter value run < bound * 10 ^ run.length := by
  induction run generalizing value bound with
  | nil =>
    rw [length_nil, Nat.pow_zero, Nat.mul_one]
    exact below
  | cons c run ih =>
    obtain ⟨isDigit, others⟩ := forall_mem_cons.mp areDigits
    obtain ⟨-, high⟩ := isDigit_iff.mp isDigit
    have step : addDigit value c < bound * 10 := by
      rw [addDigit]
      omega
    have later := ih others step
    rwa [Nat.mul_assoc, ← Nat.pow_succ'] at later

theorem isNatural_of_length_le (isAscii : ∀ c ∈ text, 0 < c.toNat ∧ c.toNat < 128)
    (isShort : text.length ≤ 9) : IsNatural text where
  isAscii := isAscii
  fits run isInfix areDigits := by
    have atMost := digitsAfter_lt areDigits (Nat.one_pos)
    have powers := Nat.pow_le_pow_right (show 0 < 10 by decide)
      (Nat.le_trans isInfix.length_le isShort)
    omega

theorem isNatural_two {c1 c2 : Char} (isAscii1 : 0 < c1.toNat ∧ c1.toNat < 128)
    (isAscii2 : 0 < c2.toNat ∧ c2.toNat < 128) : IsNatural [c1, c2] :=
  isNatural_of_length_le (forall_mem_cons.mpr ⟨isAscii1, forall_mem_singleton.mpr isAscii2⟩)
    (show 2 ≤ 9 by decide)

theorem zbxStrcmpNatural_orderedAt_iff_versions :
    OrderedAt ['v', '1'] ['v', '2'] ['v', '3'] ↔
      ¬DiffersOnlyAfterNumbers ['v', '1'] ['v', '2'] :=
  zbxStrcmpNatural_orderedAt_iff (isNatural_two (by decide) (by decide))
    (isNatural_two (by decide) (by decide)) (isNatural_two (by decide) (by decide))

/-- `1a` and `1b` compare equal. -/
theorem zbxStrcmpNatural_ignores_character :
    ¬∀ a b c, IsNatural a → IsNatural b → IsNatural c → OrderedAt a b c := by
  intro ordered
  have natural1 : IsNatural ['1', 'a'] := isNatural_two (by decide) (by decide)
  have natural2 : IsNatural ['1', 'b'] := isNatural_two (by decide) (by decide)
  have alike := (ordered _ _ _ natural1 natural2 natural1).2.2.2
  exact absurd (alike ((zbxStrcmpNatural_eq_zero_iff natural1 natural2).mpr (by decide)))
    (by decide)

end Zabbix.Common.NaturalOrder
