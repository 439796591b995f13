import Mathlib.Data.List.Basic
import Zabbix.Json.Validate

/-!
# What the validator accepts

The validator against the grammar, leaves first: what a parse accepts derives from the grammar
whose numbers may lack the digits after the point, and what derives from it is read before any
rest that can follow a value.
-/

namespace Zabbix.Json.Validation

open Common.Text Validate Grammar List

variable {text rest start : Text}

/-! ## Whitespace -/

/-- The text does not start with whitespace. -/
def Stripped (text : Text) : Prop :=
  ∀ char ∈ text.head?, isWhitespace char = false

theorem skipWhitespace_stripped (stripped : Stripped text) : skipWhitespace text = text := by
  cases text with
  | nil => rfl
  | cons char rest =>
    exact dropWhile_cons_of_neg (by simp [stripped char rfl])

theorem skipWhitespace_blank {blank : Text} (isBlank : Blank blank) (stripped : Stripped rest) :
    skipWhitespace (blank ++ rest) = rest := by
  rw [skipWhitespace, dropWhile_append_of_pos isBlank]
  exact skipWhitespace_stripped stripped

theorem blank_skipWhitespace (text : Text) :
    ∃ blank, text = blank ++ skipWhitespace text ∧ Blank blank :=
  ⟨text.takeWhile isWhitespace, takeWhile_append_dropWhile.symm,
    fun _ isIn => mem_takeWhile_imp isIn⟩

theorem length_skipWhitespace_le (text : Text) : (skipWhitespace text).length ≤ text.length :=
  (dropWhile_suffix _).length_le

/-! ## Strings -/

theorem chars_of_stringLoop (ran : stringLoop text = .ok rest) :
    ∃ body, text = body ++ '"' :: rest ∧ Chars body := by
  fun_induction stringLoop text with
  | case1 => cases ran
  | case2 after => exact ⟨[], by simpa using ran, .empty⟩
  | case3 => cases ran
  | case4 first second third fourth after isHex ih =>
    obtain ⟨body, same, isBody⟩ := ih ran
    simp only [Bool.and_eq_true] at isHex
    exact ⟨'\\' :: 'u' :: first :: second :: third :: fourth :: body, by rw [same]; rfl,
      .unicode (by simp [isHex]) isBody⟩
  | case5 => cases ran
  | case6 => cases ran
  | case7 char after _ _ isEscaped ih =>
    obtain ⟨body, same, isBody⟩ := ih ran
    exact ⟨'\\' :: char :: body, by rw [same]; rfl, .escaped isEscaped isBody⟩
  | case8 => cases ran
  | case9 => cases ran
  | case10 char after notQuote notBackslash notControl ih =>
    obtain ⟨body, same, isBody⟩ := ih ran
    exact ⟨char :: body, by rw [same]; rfl, .unescaped ⟨by omega, notQuote, notBackslash⟩ isBody⟩

theorem stringLoop_chars {body : Text} (isBody : Chars body) (rest : Text) :
    stringLoop (body ++ '"' :: rest) = .ok rest := by
  induction isBody with
  | empty => rfl
  | @unescaped char others isOrdinary _ ih =>
    obtain ⟨notControl, notQuote, notBackslash⟩ := isOrdinary
    rw [cons_append, stringLoop, if_neg (by omega)]
    · exact ih
    · exact notQuote
    · exact notBackslash
  | @escaped char others isEscaped _ ih =>
    have notU : char ≠ 'u' := by
      rintro rfl
      revert isEscaped
      decide
    rw [cons_append, cons_append, stringLoop, if_pos isEscaped]
    · exact ih
    · rintro first second third fourth after isU
      exact absurd isU notU
    · exact notU
  | @unicode first second third fourth others isHex _ ih =>
    simp only [mem_cons, not_mem_nil, or_false, forall_eq_or_imp, forall_eq] at isHex
    simp only [cons_append, stringLoop, isHex, Bool.and_self, if_true]
    exact ih

/-! ## Numbers -/

/-- The text does not go on with a digit or a point. -/
def LeavesMantissa (text : Text) : Prop :=
  ∀ char ∈ text.head?, char.isDigit = false ∧ char ≠ '.'

/-- The text goes on with whatever can follow a value, or ends. -/
def Ends (text : Text) : Prop :=
  ∀ char ∈ text.head?, isWhitespace char = true ∨ char ∈ [',', ']', '}']

/-- The rest after the point and the digits behind it. -/
def skipFraction : Text → Text
  | '.' :: rest => rest.dropWhile Char.isDigit
  | text => text

theorem allDigits_takeWhile (text : Text) : AllDigits (text.takeWhile Char.isDigit) :=
  fun _ isIn => mem_takeWhile_imp isIn

theorem takeWhile_digits {digits : Text} (allDigits : AllDigits digits)
    (isEnd : ∀ char ∈ rest.head?, char.isDigit = false) :
    (digits ++ rest).takeWhile Char.isDigit = digits ∧
      (digits ++ rest).dropWhile Char.isDigit = rest := by
  cases rest with
  | nil =>
    rw [append_nil]
    exact ⟨takeWhile_eq_self_iff.mpr allDigits, dropWhile_eq_nil_iff.mpr allDigits⟩
  | cons char rest => exact split_while allDigits (isEnd char rfl) rest

theorem mantissaLoop_point (digit : Nat) (text : Text) :
    mantissaLoop true digit text = (digit, text.dropWhile Char.isDigit) := by
  induction text with
  | nil => rfl
  | cons char rest ih =>
    rw [mantissaLoop]
    by_cases isPoint : char = '.'
    · subst isPoint
      rfl
    · by_cases isDigit : char.isDigit = true
      · rw [if_neg isPoint, if_pos isDigit, if_pos rfl, ih,
          dropWhile_cons_of_pos isDigit]
      · rw [if_neg isPoint, if_neg isDigit, dropWhile_cons_of_neg isDigit]

theorem mantissaLoop_eq (digit : Nat) (text : Text) :
    mantissaLoop false digit text =
      (digit + (text.takeWhile Char.isDigit).length,
        skipFraction (text.dropWhile Char.isDigit)) := by
  induction text generalizing digit with
  | nil => rfl
  | cons char rest ih =>
    rw [mantissaLoop]
    by_cases isPoint : char = '.'
    · subst isPoint
      exact mantissaLoop_point digit rest
    · by_cases isDigit : char.isDigit = true
      · rw [if_neg isPoint, if_pos isDigit, if_neg (by decide), ih,
          takeWhile_cons_of_pos isDigit, dropWhile_cons_of_pos isDigit,
          length_cons, Nat.add_assoc, Nat.add_comm 1]
      · rw [if_neg isPoint, if_neg isDigit, takeWhile_cons_of_neg isDigit,
          dropWhile_cons_of_neg isDigit]
        unfold skipFraction
        split
        · exact absurd (cons.inj ‹_›).1 isPoint
        · rfl

theorem fraction_of_skipFraction (text : Text) :
    ∃ fraction, text = fraction ++ skipFraction text ∧ IsFraction true fraction := by
  unfold skipFraction
  split
  · next rest =>
      refine ⟨'.' :: rest.takeWhile Char.isDigit, ?_, .inr ⟨_, rfl, allDigits_takeWhile rest,
        fun _ => rfl⟩⟩
      rw [cons_append, takeWhile_append_dropWhile]
  · exact ⟨[], rfl, .inl rfl⟩

theorem skipFraction_fraction {fraction : Text} {bare : Bool}
    (isFraction : IsFraction bare fraction) (leaves : LeavesMantissa rest) :
    skipFraction (fraction ++ rest) = rest := by
  obtain rfl | ⟨digits, rfl, allDigits, -⟩ := isFraction
  · rw [nil_append]
    unfold skipFraction
    split
    · exact absurd rfl (leaves '.' rfl).2
    · rfl
  · exact (takeWhile_digits allDigits fun char isHead => (leaves char isHead).1).2

theorem minus_of_skipMinus (text : Text) :
    ∃ minus, text = minus ++ skipMinus text ∧ (minus = [] ∨ minus = ['-']) := by
  unfold skipMinus
  split
  · exact ⟨['-'], rfl, .inr rfl⟩
  · exact ⟨[], rfl, .inl rfl⟩

theorem sign_of_skipSign (text : Text) : ∃ sign, text = sign ++ skipSign text ∧ IsSign sign := by
  unfold skipSign
  split
  · exact ⟨['+'], rfl, .inr (.inr rfl)⟩
  · exact ⟨['-'], rfl, .inr (.inl rfl)⟩
  · exact ⟨[], rfl, .inl rfl⟩

theorem digits_of_powerDigits (ran : powerDigits text = .ok rest) :
    ∃ digits, text = digits ++ rest ∧ digits ≠ [] ∧ AllDigits digits := by
  cases text with
  | nil => cases ran
  | cons char others =>
    rw [powerDigits] at ran
    by_cases isDigit : char.isDigit = true
    · rw [if_pos isDigit, Except.ok.injEq] at ran
      refine ⟨char :: others.takeWhile Char.isDigit, ?_, cons_ne_nil _ _, ?_⟩
      · rw [← ran, cons_append, takeWhile_append_dropWhile]
      · rintro other (_ | ⟨_, isIn⟩)
        · exact isDigit
        · exact allDigits_takeWhile others other isIn
    · rw [if_neg isDigit] at ran
      cases ran

theorem exponent_of_parsePower (ran : parsePower text = .ok rest) :
    ∃ exponent, text = exponent ++ rest ∧ IsExponent exponent := by
  have letter_of {letter : Char} {power : Text} (isLetter : letter = 'e' ∨ letter = 'E')
      (ran : powerDigits (skipSign power) = .ok rest) :
      ∃ exponent, letter :: power = exponent ++ rest ∧ IsExponent exponent := by
    obtain ⟨sign, sameSign, isSign⟩ := sign_of_skipSign power
    obtain ⟨digits, sameDigits, notEmpty, allDigits⟩ := digits_of_powerDigits ran
    refine ⟨letter :: (sign ++ digits), ?_,
      .inr ⟨letter, sign, digits, rfl, isLetter, isSign, notEmpty, allDigits⟩⟩
    rw [cons_append, append_assoc, ← sameDigits, ← sameSign]
  unfold parsePower at ran
  split at ran
  · exact letter_of (.inl rfl) ran
  · exact letter_of (.inr rfl) ran
  · exact ⟨[], by simpa using ran, .inl rfl⟩

theorem isInt_takeWhile (some_ : (text.takeWhile Char.isDigit).length ≠ 0)
    (noZero : ¬(text.head? = some '0' ∧ 1 < (text.takeWhile Char.isDigit).length)) :
    IsInt (text.takeWhile Char.isDigit) := by
  refine ⟨ne_nil_of_length_pos (by omega), allDigits_takeWhile text, fun isZero => ?_⟩
  cases text with
  | nil => cases isZero
  | cons char others =>
    by_cases isDigit : char.isDigit = true
    · rw [takeWhile_cons_of_pos isDigit] at isZero noZero ⊢
      obtain rfl : char = '0' := by simpa using isZero
      have short : ¬1 < ('0' :: others.takeWhile Char.isDigit).length :=
        fun long => noZero ⟨rfl, long⟩
      rw [length_cons] at short
      rw [eq_nil_of_length_eq_zero (l := others.takeWhile Char.isDigit) (by omega)]
    · rw [takeWhile_cons_of_neg isDigit] at some_
      exact absurd rfl some_

theorem number_of_jsonParseNumber (ran : jsonParseNumber start = .ok rest) :
    ∃ number, start = number ++ rest ∧ IsNumber true number := by
  unfold jsonParseNumber at ran
  rw [mantissaLoop_eq, Nat.zero_add] at ran
  obtain ⟨minus, sameMinus, isMinus⟩ := minus_of_skipMinus start
  generalize skipMinus start = ptr at sameMinus ran
  by_cases noDigit : (ptr.takeWhile Char.isDigit).length = 0
  · rw [if_pos noDigit] at ran
    cases ran
  by_cases isZero : ptr.head? = some '0' ∧ 1 < (ptr.takeWhile Char.isDigit).length
  · rw [if_neg noDigit, if_pos isZero] at ran
    cases ran
  rw [if_neg noDigit, if_neg isZero] at ran
  obtain ⟨fraction, sameFraction, isFraction⟩ :=
    fraction_of_skipFraction (ptr.dropWhile Char.isDigit)
  have ranPower : parsePower (skipFraction (ptr.dropWhile Char.isDigit)) = .ok rest := ran
  obtain ⟨exponent, sameExponent, isExponent⟩ := exponent_of_parsePower ranPower
  refine ⟨minus ++ ptr.takeWhile Char.isDigit ++ fraction ++ exponent, ?_, minus, _, fraction,
    exponent, rfl, isMinus, isInt_takeWhile noDigit isZero, isFraction, isExponent⟩
  calc start = minus ++ ptr := sameMinus
    _ = minus ++ (ptr.takeWhile Char.isDigit ++ ptr.dropWhile Char.isDigit) := by
        rw [takeWhile_append_dropWhile]
    _ = _ := by
        rw [sameFraction, sameExponent]
        simp only [append_assoc]

theorem Ends.leavesMantissa (ends : Ends rest) : LeavesMantissa rest := by
  intro char isHead
  have cases_of : isWhitespace char = true ∨ char ∈ [',', ']', '}'] := ends char isHead
  simp only [isWhitespace, Bool.or_eq_true, decide_eq_true_eq, mem_cons, not_mem_nil,
    or_false] at cases_of
  rcases cases_of with (((rfl | rfl) | rfl) | rfl) | rfl | rfl | rfl <;> decide

theorem Ends.notLetter (ends : Ends rest) : rest.head? ≠ some 'e' ∧ rest.head? ≠ some 'E' := by
  constructor <;> intro isHead
  · exact absurd (ends 'e' isHead) (by decide)
  · exact absurd (ends 'E' isHead) (by decide)

theorem leavesMantissa_exponent {exponent : Text} (isExponent : IsExponent exponent)
    (ends : Ends rest) : LeavesMantissa (exponent ++ rest) := by
  obtain rfl | ⟨letter, sign, digits, rfl, isLetter, -⟩ := isExponent
  · exact ends.leavesMantissa
  · intro char isHead
    obtain rfl : letter = char := by simpa using isHead
    rcases isLetter with rfl | rfl <;> decide

theorem powerDigits_digits {digits : Text} (notEmpty : digits ≠ []) (allDigits : AllDigits digits)
    (ends : Ends rest) : powerDigits (digits ++ rest) = .ok rest := by
  obtain ⟨char, others, rfl⟩ := exists_cons_of_ne_nil notEmpty
  rw [cons_append, powerDigits, if_pos (allDigits char mem_cons_self)]
  exact congrArg Except.ok (takeWhile_digits
    (fun other isIn => allDigits other (mem_cons_of_mem _ isIn))
    fun other isHead => (ends.leavesMantissa other isHead).1).2

def StartsWithDigit (text : Text) : Prop :=
  ∃ char others, text = char :: others ∧ char.isDigit = true

theorem startsWithDigit_append {digits : Text} (notEmpty : digits ≠ [])
    (allDigits : AllDigits digits) (rest : Text) : StartsWithDigit (digits ++ rest) := by
  obtain ⟨char, others, rfl⟩ := exists_cons_of_ne_nil notEmpty
  exact ⟨char, others ++ rest, rfl, allDigits char mem_cons_self⟩

theorem StartsWithDigit.skipSign_eq (starts : StartsWithDigit text) : skipSign text = text := by
  obtain ⟨char, others, rfl, isDigit⟩ := starts
  unfold skipSign
  split
  · next same =>
      rw [(cons.inj same).1] at isDigit
      exact absurd isDigit (by decide)
  · next same =>
      rw [(cons.inj same).1] at isDigit
      exact absurd isDigit (by decide)
  · rfl

theorem StartsWithDigit.skipMinus_eq (starts : StartsWithDigit text) : skipMinus text = text := by
  obtain ⟨char, others, rfl, isDigit⟩ := starts
  unfold skipMinus
  split
  · next same =>
      rw [(cons.inj same).1] at isDigit
      exact absurd isDigit (by decide)
  · rfl

theorem skipSign_sign {sign digits : Text} (isSign : IsSign sign) (notEmpty : digits ≠ [])
    (allDigits : AllDigits digits) (rest : Text) :
    skipSign (sign ++ (digits ++ rest)) = digits ++ rest := by
  obtain rfl | rfl | rfl := isSign
  · exact (startsWithDigit_append notEmpty allDigits rest).skipSign_eq
  · rfl
  · rfl

theorem parsePower_exponent {exponent : Text} (isExponent : IsExponent exponent)
    (ends : Ends rest) : parsePower (exponent ++ rest) = .ok rest := by
  obtain rfl | ⟨letter, sign, digits, rfl, isLetter, isSign, notEmpty, allDigits⟩ := isExponent
  · rw [nil_append]
    unfold parsePower
    split
    · exact absurd rfl ends.notLetter.1
    · exact absurd rfl ends.notLetter.2
    · rfl
  · rw [cons_append, append_assoc]
    rcases isLetter with rfl | rfl
    · rw [parsePower, skipSign_sign isSign notEmpty allDigits]
      exact powerDigits_digits notEmpty allDigits ends
    · rw [parsePower, skipSign_sign isSign notEmpty allDigits]
      exact powerDigits_digits notEmpty allDigits ends

theorem skipMinus_minus {minus int : Text} (isMinus : minus = [] ∨ minus = ['-'])
    (isInt : IsInt int) (rest : Text) : skipMinus (minus ++ (int ++ rest)) = int ++ rest := by
  obtain rfl | rfl := isMinus
  · exact (startsWithDigit_append isInt.1 isInt.2.1 rest).skipMinus_eq
  · rfl

theorem leavesMantissa_notDigit (leaves : LeavesMantissa rest) {bare : Bool} {fraction : Text}
    (isFraction : IsFraction bare fraction) :
    ∀ char ∈ (fraction ++ rest).head?, char.isDigit = false := by
  obtain rfl | ⟨digits, rfl, -⟩ := isFraction
  · exact fun char isHead => (leaves char isHead).1
  · intro char isHead
    obtain rfl : '.' = char := by simpa using isHead
    decide

theorem jsonParseNumber_number {number : Text} {bare : Bool} (isNumber : IsNumber bare number)
    (ends : Ends rest) : jsonParseNumber (number ++ rest) = .ok rest := by
  obtain ⟨minus, int, fraction, exponent, rfl, isMinus, isInt, isFraction, isExponent⟩ := isNumber
  have leaves : LeavesMantissa (exponent ++ rest) := leavesMantissa_exponent isExponent ends
  obtain ⟨taken, dropped⟩ :=
    takeWhile_digits isInt.2.1 (leavesMantissa_notDigit leaves isFraction)
  have some_ : int.length ≠ 0 := fun isZero => isInt.1 (eq_nil_of_length_eq_zero isZero)
  have noZero : ¬((int ++ (fraction ++ (exponent ++ rest))).head? = some '0' ∧ 1 < int.length) := by
    rintro ⟨isZero, long⟩
    rw [head?_append_of_ne_nil _ isInt.1] at isZero
    rw [isInt.2.2 isZero] at long
    exact absurd long (by decide)
  unfold jsonParseNumber
  rw [append_assoc, append_assoc, append_assoc, skipMinus_minus isMinus isInt,
    mantissaLoop_eq, taken, dropped, skipFraction_fraction isFraction leaves, Nat.zero_add,
    if_neg some_, if_neg noZero]
  exact parsePower_exponent isExponent ends

/-! ## Literals -/

theorem literalLoop_append (start literal rest : Text) :
    literalLoop start (literal ++ rest) literal = .ok rest := by
  induction literal with
  | nil => cases rest <;> rfl
  | cons char others ih =>
    rw [cons_append, literalLoop, if_pos rfl]
    exact ih

theorem literal_of_literalLoop {ptr literal : Text}
    (ran : literalLoop start ptr literal = .ok rest) : ptr = literal ++ rest := by
  induction literal generalizing ptr with
  | nil => cases ptr <;> simpa [literalLoop] using ran
  | cons expected others ih =>
    cases ptr with
    | nil => cases ran
    | cons char ptr =>
      rw [literalLoop] at ran
      by_cases same : char = expected
      · rw [if_pos same] at ran
        rw [same, ih ran, cons_append]
      · rw [if_neg same] at ran
        cases ran

theorem literal_of_jsonParseLiteral {literal : Text}
    (ran : jsonParseLiteral start literal = .ok rest) : start = literal ++ rest :=
  literal_of_literalLoop ran

/-! ## What is accepted derives from the grammar -/

theorem blank_nil : Blank [] :=
  nofun

theorem Blank.append {first second : Text} (isFirst : Blank first) (isSecond : Blank second) :
    Blank (first ++ second) := by
  intro char isIn
  obtain isIn | isIn := mem_append.mp isIn
  · exact isFirst char isIn
  · exact isSecond char isIn

variable {bare : Bool} {rule : Rule}

theorem elements_blank {blank inside : Text} (isBlank : Blank blank)
    (derives : Derives bare .elements inside) : Derives bare .elements (blank ++ inside) := by
  cases derives with
  | lastElement isBefore isValue isAfter =>
    rw [← append_assoc, ← append_assoc]
    exact .lastElement (Blank.append isBlank isBefore) isValue isAfter
  | nextElement isBefore isValue isAfter isOthers =>
    rw [← append_assoc, ← append_assoc, ← append_assoc]
    exact .nextElement (Blank.append isBlank isBefore) isValue isAfter isOthers

theorem members_blank {blank inside : Text} (isBlank : Blank blank)
    (derives : Derives bare .members inside) : Derives bare .members (blank ++ inside) := by
  cases derives with
  | lastMember isLead isName isMiddle isBefore isValue isAfter =>
    rw [← append_assoc]
    exact .lastMember (Blank.append isBlank isLead) isName isMiddle isBefore isValue isAfter
  | nextMember isLead isName isMiddle isBefore isValue isAfter isOthers =>
    rw [← append_assoc]
    exact .nextMember (Blank.append isBlank isLead) isName isMiddle isBefore isValue isAfter
      isOthers

theorem string_of_jsonParseString (ran : jsonParseString start = .ok rest) (char : Char)
    (others : Text) (starts : start = char :: others) :
    ∃ body, start = char :: (body ++ '"' :: rest) ∧ Chars body := by
  subst starts
  obtain ⟨body, same, isBody⟩ := chars_of_stringLoop ran
  exact ⟨body, congrArg (char :: ·) same, isBody⟩

theorem name_of_parseName (ran : parseName text = .ok rest) :
    ∃ name middle, text = '"' :: (name ++ '"' :: (middle ++ ':' :: rest)) ∧ Chars name ∧
      Blank middle := by
  unfold parseName at ran
  split at ran
  · next others =>
      split at ran
      · cases ran
      · next afterName parsed =>
          split at ran
          · next separator =>
              obtain ⟨name, sameName, isName⟩ :=
                string_of_jsonParseString parsed '"' others rfl
              obtain ⟨middle, sameMiddle, isMiddle⟩ := blank_skipWhitespace afterName
              rw [separator, Except.ok.inj ran] at sameMiddle
              exact ⟨name, middle, by rw [sameName, sameMiddle], isName, isMiddle⟩
          · cases ran
  · cases ran

/-- What the loops of one fuel accept. -/
structure Sound (fuel : Nat) : Prop where
  value : ∀ {start rest}, jsonParseValue fuel start = .ok rest →
    ∃ before value, start = before ++ value ++ rest ∧ Blank before ∧ Derives true .value value
  elements : ∀ {ptr rest}, elementsLoop fuel ptr = .ok rest →
    ∃ inside, ptr = inside ++ ']' :: rest ∧ Derives true .elements inside
  members : ∀ {ptr rest}, membersLoop fuel ptr = .ok rest →
    ∃ inside, ptr = inside ++ '}' :: rest ∧ Derives true .members inside

theorem array_of_jsonParseArray {fuel : Nat} (sound : Sound fuel) {others : Text}
    (ran : jsonParseArray (elementsLoop fuel) ('[' :: others) = .ok rest) :
    ∃ value, '[' :: others = value ++ rest ∧ Derives true .value value ∧
      value.head? = some '[' := by
  obtain ⟨blank, sameBlank, isBlank⟩ := blank_skipWhitespace others
  unfold jsonParseArray at ran
  rw [tail_cons] at ran
  split at ran
  · next closing =>
      refine ⟨'[' :: (blank ++ [']']), ?_, .emptyArray isBlank, rfl⟩
      rw [closing, Except.ok.inj ran] at sameBlank
      rw [sameBlank, cons_append, append_assoc, singleton_append]
  · obtain ⟨inside, sameInside, isInside⟩ := sound.elements ran
    refine ⟨'[' :: (blank ++ inside ++ [']']), ?_, .array (elements_blank isBlank isInside), rfl⟩
    rw [sameInside] at sameBlank
    rw [sameBlank, cons_append, append_assoc, append_assoc, singleton_append]

theorem object_of_jsonParseObject {fuel : Nat} (sound : Sound fuel) {others : Text}
    (ran : jsonParseObject (membersLoop fuel) ('{' :: others) = .ok rest) :
    ∃ value, '{' :: others = value ++ rest ∧ Derives true .value value ∧
      value.head? = some '{' := by
  obtain ⟨blank, sameBlank, isBlank⟩ := blank_skipWhitespace others
  unfold jsonParseObject at ran
  rw [show (skipWhitespace ('{' :: others)).tail = others from rfl] at ran
  split at ran
  · next closing =>
      refine ⟨'{' :: (blank ++ ['}']), ?_, .emptyObject isBlank, rfl⟩
      rw [closing, Except.ok.inj ran] at sameBlank
      rw [sameBlank, cons_append, append_assoc, singleton_append]
  · obtain ⟨inside, sameInside, isInside⟩ := sound.members ran
    refine ⟨'{' :: (blank ++ inside ++ ['}']), ?_, .object (members_blank isBlank isInside), rfl⟩
    rw [sameInside] at sameBlank
    rw [sameBlank, cons_append, append_assoc, append_assoc, singleton_append]

theorem value_of_jsonParseValue {fuel : Nat} (sound : Sound fuel)
    (ran : jsonParseValue (fuel + 1) start = .ok rest) :
    ∃ before value, start = before ++ value ++ rest ∧ Blank before ∧
      Derives true .value value := by
  obtain ⟨before, sameBefore, isBefore⟩ := blank_skipWhitespace start
  have enough {value : Text} (same : skipWhitespace start = value ++ rest)
      (derives : Derives true .value value) :
      ∃ before value, start = before ++ value ++ rest ∧ Blank before ∧
        Derives true .value value :=
    ⟨before, value, by rw [append_assoc, ← same, ← sameBefore], isBefore, derives⟩
  rw [jsonParseValue] at ran
  split at ran
  · cases ran
  · next others starts =>
      obtain ⟨body, same, isBody⟩ := string_of_jsonParseString ran '"' others rfl
      refine enough ?_ (.string isBody)
      rw [starts, same, cons_append, append_assoc, singleton_append]
  · next starts =>
      obtain ⟨value, same, derives, -⟩ := object_of_jsonParseObject sound ran
      exact enough (starts.trans same) derives
  · next starts =>
      obtain ⟨value, same, derives, -⟩ := array_of_jsonParseArray sound ran
      exact enough (starts.trans same) derives
  · next starts =>
      exact enough (starts.trans (literal_of_jsonParseLiteral ran)) (.literal (.inl rfl))
  · next starts =>
      exact enough (starts.trans (literal_of_jsonParseLiteral ran)) (.literal (.inr (.inl rfl)))
  · next starts =>
      exact enough (starts.trans (literal_of_jsonParseLiteral ran)) (.literal (.inr (.inr rfl)))
  · next starts =>
      split at ran
      · obtain ⟨number, same, isNumber⟩ := number_of_jsonParseNumber ran
        exact enough (starts.trans same) (.number isNumber)
      · cases ran

theorem elements_of_elementsLoop {fuel : Nat} (sound : Sound fuel) {ptr : Text}
    (ran : elementsLoop (fuel + 1) ptr = .ok rest) :
    ∃ inside, ptr = inside ++ ']' :: rest ∧ Derives true .elements inside := by
  rw [elementsLoop] at ran
  split at ran
  · cases ran
  · next afterValue parsed =>
      obtain ⟨before, value, sameValue, isBefore, isValue⟩ := sound.value parsed
      obtain ⟨after, sameAfter, isAfter⟩ := blank_skipWhitespace afterValue
      split at ran
      · next others separator =>
          obtain ⟨inside, sameInside, isInside⟩ := sound.elements ran
          refine ⟨before ++ value ++ after ++ ',' :: inside, ?_,
            .nextElement isBefore isValue isAfter isInside⟩
          rw [sameValue, sameAfter, separator, sameInside]
          simp only [append_assoc, cons_append]
      · next closing =>
          refine ⟨before ++ value ++ after, ?_, .lastElement isBefore isValue isAfter⟩
          rw [sameValue, sameAfter, closing, Except.ok.inj ran]
          simp only [append_assoc]
      · cases ran

theorem members_of_membersLoop {fuel : Nat} (sound : Sound fuel) {ptr : Text}
    (ran : membersLoop (fuel + 1) ptr = .ok rest) :
    ∃ inside, ptr = inside ++ '}' :: rest ∧ Derives true .members inside := by
  rw [membersLoop] at ran
  split at ran
  · cases ran
  · next afterName named =>
      obtain ⟨name, middle, sameName, isName, isMiddle⟩ := name_of_parseName named
      split at ran
      · cases ran
      · next afterValue parsed =>
          obtain ⟨before, value, sameValue, isBefore, isValue⟩ := sound.value parsed
          obtain ⟨after, sameAfter, isAfter⟩ := blank_skipWhitespace afterValue
          split at ran
          · next others separator =>
              obtain ⟨inside, sameInside, isInside⟩ := sound.members ran
              obtain ⟨lead, sameLead, isLead⟩ := blank_skipWhitespace others
              refine ⟨_, ?_, .nextMember blank_nil isName isMiddle isBefore isValue isAfter
                (members_blank isLead isInside)⟩
              rw [sameName, sameValue, sameAfter, separator, sameLead, sameInside]
              simp only [append_assoc, cons_append, nil_append]
          · next closing =>
              refine ⟨_, ?_, .lastMember blank_nil isName isMiddle isBefore isValue isAfter⟩
              rw [sameName, sameValue, sameAfter, closing, Except.ok.inj ran]
              simp only [append_assoc, cons_append, nil_append]
          · cases ran

theorem sound (fuel : Nat) : Sound fuel := by
  induction fuel with
  | zero =>
    constructor
    · intro start rest ran
      cases ran
    · intro ptr rest ran
      cases ran
    · intro ptr rest ran
      cases ran
  | succ fuel ih =>
    exact ⟨value_of_jsonParseValue ih, elements_of_elementsLoop ih, members_of_membersLoop ih⟩

/-! ## What derives from the grammar is accepted -/

theorem skipWhitespace_idem (text : Text) :
    skipWhitespace (skipWhitespace text) = skipWhitespace text := by
  refine skipWhitespace_stripped fun char isHead => ?_
  have notBlank := head?_dropWhile_not isWhitespace text
  rw [show (text.dropWhile isWhitespace).head? = some char from isHead] at notBlank
  simpa using notBlank

theorem jsonParseValue_skipWhitespace (fuel : Nat) (text : Text) :
    jsonParseValue fuel (skipWhitespace text) = jsonParseValue fuel text := by
  cases fuel with
  | zero => rfl
  | succ fuel => rw [jsonParseValue, jsonParseValue, skipWhitespace_idem]

theorem elementsLoop_skipWhitespace (fuel : Nat) (text : Text) :
    elementsLoop fuel (skipWhitespace text) = elementsLoop fuel text := by
  cases fuel with
  | zero => rfl
  | succ fuel => rw [elementsLoop, elementsLoop, jsonParseValue_skipWhitespace]

theorem jsonParseValue_blank {blank : Text} (isBlank : Blank blank) (fuel : Nat) (text : Text) :
    jsonParseValue fuel (blank ++ text) = jsonParseValue fuel text := by
  rw [← jsonParseValue_skipWhitespace fuel (blank ++ text), skipWhitespace,
    dropWhile_append_of_pos isBlank]
  exact jsonParseValue_skipWhitespace fuel text

/-- The first character of a value. -/
def IsOpening (char : Char) : Prop :=
  char ∈ ['"', '[', '{', 't', 'f', 'n', '-'] ∨ char.isDigit = true

theorem isWhitespace_of_opening {char : Char} (opens : IsOpening char) :
    isWhitespace char = false := by
  by_contra isBlank
  rw [Bool.not_eq_false] at isBlank
  simp only [isWhitespace, Bool.or_eq_true, decide_eq_true_eq] at isBlank
  obtain isOther | isDigit := opens
  · rcases isBlank with ((rfl | rfl) | rfl) | rfl <;> simp at isOther
  · rcases isBlank with ((rfl | rfl) | rfl) | rfl <;> exact absurd isDigit (by decide)

theorem head_number (isNumber : IsNumber bare text) :
    ∃ char others, text = char :: others ∧ (char = '-' ∨ char.isDigit = true) := by
  obtain ⟨minus, int, fraction, exponent, rfl, isMinus, isInt, -⟩ := isNumber
  obtain rfl | rfl := isMinus
  · obtain ⟨char, others, same, isDigit⟩ :=
      startsWithDigit_append isInt.1 isInt.2.1 (fraction ++ exponent)
    exact ⟨char, others, by simpa only [nil_append, append_assoc] using same, .inr isDigit⟩
  · exact ⟨'-', int ++ fraction ++ exponent, by simp, .inl rfl⟩

theorem head_value (derives : Derives bare rule text) (isValue : rule = .value) :
    ∃ char others, text = char :: others ∧ IsOpening char := by
  cases derives with
  | string => exact ⟨_, _, rfl, .inl (by simp)⟩
  | number isNumber =>
    obtain ⟨char, others, same, isMinus | isDigit⟩ := head_number isNumber
    · exact ⟨char, others, same, .inl (by simp [isMinus])⟩
    · exact ⟨char, others, same, .inr isDigit⟩
  | literal isLiteral =>
    obtain rfl | rfl | rfl := isLiteral <;> exact ⟨_, _, rfl, .inl (by simp)⟩
  | emptyArray => exact ⟨_, _, rfl, .inl (by simp)⟩
  | array => exact ⟨_, _, rfl, .inl (by simp)⟩
  | emptyObject => exact ⟨_, _, rfl, .inl (by simp)⟩
  | object => exact ⟨_, _, rfl, .inl (by simp)⟩
  | lastElement => cases isValue
  | nextElement => cases isValue
  | lastMember => cases isValue
  | nextMember => cases isValue

theorem Ends.blank {blank : Text} (isBlank : Blank blank) (ends : Ends rest) :
    Ends (blank ++ rest) := by
  cases blank with
  | nil => exact ends
  | cons char others =>
    intro other isHead
    obtain rfl : char = other := by simpa using isHead
    exact .inl (isBlank char mem_cons_self)

theorem ends_cons {char : Char} (isEnd : char ∈ [',', ']', '}']) (rest : Text) :
    Ends (char :: rest) := by
  intro other isHead
  obtain rfl : char = other := by simpa using isHead
  exact .inr isEnd

theorem stripped_cons {char : Char} (isOther : isWhitespace char = false) (rest : Text) :
    Stripped (char :: rest) := by
  intro other isHead
  obtain rfl : char = other := by simpa using isHead
  exact isOther

theorem jsonParseValue_number {char : Char} (starts : char = '-' ∨ char.isDigit = true)
    (fuel : Nat) (others : Text) :
    jsonParseValue (fuel + 1) (char :: others) = jsonParseNumber (char :: others) := by
  have isNumeral : (char.isDigit || char = '-') = true := by
    obtain rfl | isDigit := starts
    · rfl
    · simp [isDigit]
  have isOther : isWhitespace char = false := by
    obtain rfl | isDigit := starts
    · decide
    · exact isWhitespace_of_opening (.inr isDigit)
  have differs {other : Char} (isOther : (other.isDigit || other = '-') = false) :
      char ≠ other := by
    rintro rfl
    rw [isNumeral] at isOther
    cases isOther
  rw [jsonParseValue, skipWhitespace_stripped (stripped_cons isOther others)]
  split
  · next same => cases same
  · next same => exact absurd (cons.inj same).1 (differs (by decide))
  · next same => exact absurd (cons.inj same).1 (differs (by decide))
  · next same => exact absurd (cons.inj same).1 (differs (by decide))
  · next same => exact absurd (cons.inj same).1 (differs (by decide))
  · next same => exact absurd (cons.inj same).1 (differs (by decide))
  · next same => exact absurd (cons.inj same).1 (differs (by decide))
  · next same =>
      obtain ⟨rfl, rfl⟩ := cons.inj same
      rw [if_pos isNumeral]

/-- How a text of the grammar is read before any rest, with enough fuel. -/
def Reads : Rule → Text → Prop
  | .value, text => ∀ fuel rest, 2 * text.length ≤ fuel → Ends rest →
      jsonParseValue fuel (text ++ rest) = .ok rest
  | .elements, text => ∀ fuel rest, 2 * text.length < fuel →
      elementsLoop fuel (text ++ ']' :: rest) = .ok rest
  | .members, text => ∀ fuel rest, 2 * text.length < fuel →
      membersLoop fuel (skipWhitespace (text ++ '}' :: rest)) = .ok rest

theorem parseName_name {name middle : Text} (isName : Chars name) (isMiddle : Blank middle)
    (rest : Text) :
    parseName ('"' :: (name ++ '"' :: (middle ++ ':' :: rest))) = .ok rest := by
  have parsed : jsonParseString ('"' :: (name ++ '"' :: (middle ++ ':' :: rest))) =
      .ok (middle ++ ':' :: rest) := stringLoop_chars isName _
  have separator : skipWhitespace (middle ++ ':' :: rest) = ':' :: rest :=
    skipWhitespace_blank isMiddle (stripped_cons (by decide) rest)
  rw [parseName]
  simp only [parsed, separator]

section Reading

variable {before value after others : Text}

theorem element_last (isBefore : Blank before) (isAfter : Blank after)
    (reads : Reads .value value) : Reads .elements (before ++ value ++ after) := by
  intro fuel rest enough
  obtain ⟨fuel, rfl⟩ := Nat.exists_eq_add_of_lt (Nat.zero_lt_of_lt enough)
  simp only [length_append, Nat.zero_add] at enough ⊢
  have closes : Ends (after ++ ']' :: rest) := Ends.blank isAfter (ends_cons (by simp) rest)
  have closing : skipWhitespace (after ++ ']' :: rest) = ']' :: rest :=
    skipWhitespace_blank isAfter (stripped_cons (by decide) rest)
  rw [elementsLoop, append_assoc, append_assoc, jsonParseValue_blank isBefore,
    reads fuel _ (by omega) closes]
  simp only [closing]

theorem element_next (isBefore : Blank before) (isAfter : Blank after)
    (reads : Reads .value value) (readsOthers : Reads .elements others) :
    Reads .elements (before ++ value ++ after ++ ',' :: others) := by
  intro fuel rest enough
  obtain ⟨fuel, rfl⟩ := Nat.exists_eq_add_of_lt (Nat.zero_lt_of_lt enough)
  simp only [length_append, length_cons, Nat.zero_add] at enough ⊢
  have closes : Ends (after ++ ',' :: (others ++ ']' :: rest)) :=
    Ends.blank isAfter (ends_cons (by simp) _)
  have separator : skipWhitespace (after ++ ',' :: (others ++ ']' :: rest)) =
      ',' :: (others ++ ']' :: rest) := skipWhitespace_blank isAfter (stripped_cons (by decide) _)
  rw [elementsLoop]
  simp only [append_assoc, cons_append]
  rw [jsonParseValue_blank isBefore, reads fuel _ (by omega) closes]
  simp only [separator]
  exact readsOthers fuel rest (by omega)

variable {lead name middle : Text}

theorem member_last (isLead : Blank lead) (isName : Chars name) (isMiddle : Blank middle)
    (isBefore : Blank before) (isAfter : Blank after) (reads : Reads .value value) :
    Reads .members
      (lead ++ '"' :: (name ++ '"' :: (middle ++ ':' :: (before ++ value ++ after)))) := by
  intro fuel rest enough
  obtain ⟨fuel, rfl⟩ := Nat.exists_eq_add_of_lt (Nat.zero_lt_of_lt enough)
  simp only [length_append, length_cons, Nat.zero_add] at enough ⊢
  have closes : Ends (after ++ '}' :: rest) := Ends.blank isAfter (ends_cons (by simp) rest)
  have closing : skipWhitespace (after ++ '}' :: rest) = '}' :: rest :=
    skipWhitespace_blank isAfter (stripped_cons (by decide) rest)
  simp only [append_assoc, cons_append]
  rw [skipWhitespace_blank isLead (stripped_cons (by decide) _), membersLoop,
    parseName_name isName isMiddle]
  simp only [jsonParseValue_blank isBefore, reads fuel _ (by omega) closes, closing]

theorem member_next (isLead : Blank lead) (isName : Chars name) (isMiddle : Blank middle)
    (isBefore : Blank before) (isAfter : Blank after) (reads : Reads .value value)
    (readsOthers : Reads .members others) :
    Reads .members
      (lead ++ '"' :: (name ++ '"' ::
        (middle ++ ':' :: (before ++ value ++ after ++ ',' :: others)))) := by
  intro fuel rest enough
  obtain ⟨fuel, rfl⟩ := Nat.exists_eq_add_of_lt (Nat.zero_lt_of_lt enough)
  simp only [length_append, length_cons, Nat.zero_add] at enough ⊢
  have closes : Ends (after ++ ',' :: (others ++ '}' :: rest)) :=
    Ends.blank isAfter (ends_cons (by simp) _)
  have separator : skipWhitespace (after ++ ',' :: (others ++ '}' :: rest)) =
      ',' :: (others ++ '}' :: rest) := skipWhitespace_blank isAfter (stripped_cons (by decide) _)
  simp only [append_assoc, cons_append]
  rw [skipWhitespace_blank isLead (stripped_cons (by decide) _), membersLoop,
    parseName_name isName isMiddle]
  simp only [jsonParseValue_blank isBefore, reads fuel _ (by omega) closes, separator]
  exact readsOthers fuel rest (by omega)

end Reading

theorem head_elements (derives : Derives bare rule text) (isElements : rule = .elements)
    (rest : Text) :
    ∃ char others, skipWhitespace (text ++ rest) = char :: others ∧ IsOpening char := by
  have opening {before value tail : Text} (isBefore : Blank before)
      (isValue : Derives bare .value value) :
      ∃ char others, skipWhitespace (before ++ (value ++ tail)) = char :: others ∧
        IsOpening char := by
    obtain ⟨char, others, rfl, opens⟩ := head_value isValue rfl
    exact ⟨char, others ++ tail, skipWhitespace_blank isBefore
      (stripped_cons (isWhitespace_of_opening opens) _), opens⟩
  cases derives with
  | lastElement isBefore isValue _ =>
    simpa only [append_assoc] using opening isBefore isValue
  | nextElement isBefore isValue _ _ =>
    simpa only [append_assoc] using opening isBefore isValue
  | string => cases isElements
  | number => cases isElements
  | literal => cases isElements
  | emptyArray => cases isElements
  | array => cases isElements
  | emptyObject => cases isElements
  | object => cases isElements
  | lastMember => cases isElements
  | nextMember => cases isElements

theorem head_members (derives : Derives bare rule text) (isMembers : rule = .members)
    (rest : Text) : ∃ others, skipWhitespace (text ++ rest) = '"' :: others := by
  cases derives with
  | lastMember isLead =>
    rw [append_assoc, cons_append]
    exact ⟨_, skipWhitespace_blank isLead (stripped_cons (by decide) _)⟩
  | nextMember isLead =>
    rw [append_assoc, cons_append]
    exact ⟨_, skipWhitespace_blank isLead (stripped_cons (by decide) _)⟩
  | string => cases isMembers
  | number => cases isMembers
  | literal => cases isMembers
  | emptyArray => cases isMembers
  | array => cases isMembers
  | emptyObject => cases isMembers
  | object => cases isMembers
  | lastElement => cases isMembers
  | nextElement => cases isMembers

theorem jsonParseArray_blank {inside : Text} (isBlank : Blank inside) (loop : Text → Parsed)
    (rest : Text) : jsonParseArray loop ('[' :: (inside ++ ']' :: rest)) = .ok rest := by
  rw [jsonParseArray, tail_cons, skipWhitespace_blank isBlank (stripped_cons (by decide) rest)]
  rfl

theorem jsonParseObject_blank {inside : Text} (isBlank : Blank inside) (loop : Text → Parsed)
    (rest : Text) : jsonParseObject loop ('{' :: (inside ++ '}' :: rest)) = .ok rest := by
  rw [jsonParseObject, skipWhitespace_stripped (stripped_cons (by decide) _), tail_cons,
    skipWhitespace_blank isBlank (stripped_cons (by decide) rest)]
  rfl

theorem jsonParseArray_elements {inside : Text} {fuel : Nat}
    (derives : Derives bare .elements inside) (reads : Reads .elements inside)
    (enough : 2 * inside.length < fuel) (rest : Text) :
    jsonParseArray (elementsLoop fuel) ('[' :: (inside ++ ']' :: rest)) = .ok rest := by
  obtain ⟨char, others, starts, opens⟩ := head_elements derives rfl (']' :: rest)
  rw [jsonParseArray, tail_cons, ← reads fuel rest enough,
    ← elementsLoop_skipWhitespace fuel (inside ++ ']' :: rest)]
  split
  · next closing =>
      rw [closing] at starts
      obtain rfl : ']' = char := (cons.inj starts).1
      exact absurd opens (by unfold IsOpening; decide)
  · rfl

theorem jsonParseObject_members {inside : Text} {fuel : Nat}
    (derives : Derives bare .members inside) (reads : Reads .members inside)
    (enough : 2 * inside.length < fuel) (rest : Text) :
    jsonParseObject (membersLoop fuel) ('{' :: (inside ++ '}' :: rest)) = .ok rest := by
  obtain ⟨others, starts⟩ := head_members derives rfl ('}' :: rest)
  rw [jsonParseObject, skipWhitespace_stripped (stripped_cons (by decide) _), tail_cons,
    ← reads fuel rest enough]
  split
  · next closing =>
      rw [closing] at starts
      cases starts
  · rfl

theorem reads (derives : Derives bare rule text) : Reads rule text := by
  have positive {fuel length : Nat} (enough : 2 * (length + 2) ≤ fuel) :
      ∃ less, fuel = less + 1 ∧ 2 * length < less := ⟨fuel - 1, by omega, by omega⟩
  induction derives with
  | @string body isBody =>
    intro fuel rest enough _
    obtain ⟨less, rfl, -⟩ := positive (show 2 * (body.length + 2) ≤ fuel by simpa using enough)
    rw [cons_append, append_assoc]
    exact stringLoop_chars isBody rest
  | @number number isNumber =>
    intro fuel rest enough ends
    obtain ⟨char, others, same, starts⟩ := head_number isNumber
    obtain ⟨less, rfl⟩ : ∃ less, fuel = less + 1 :=
      ⟨fuel - 1, by rw [same, length_cons] at enough; omega⟩
    rw [← jsonParseNumber_number isNumber ends, same]
    exact jsonParseValue_number starts less (others ++ rest)
  | literal isLiteral =>
    intro fuel rest enough _
    obtain rfl | rfl | rfl := isLiteral
    · obtain ⟨less, rfl, -⟩ := positive (show 2 * (2 + 2) ≤ fuel from enough)
      exact literalLoop_append _ _ rest
    · obtain ⟨less, rfl, -⟩ := positive (show 2 * (3 + 2) ≤ fuel from enough)
      exact literalLoop_append _ _ rest
    · obtain ⟨less, rfl, -⟩ := positive (show 2 * (2 + 2) ≤ fuel from enough)
      exact literalLoop_append _ _ rest
  | @emptyArray inside isBlank =>
    intro fuel rest enough _
    obtain ⟨less, rfl, -⟩ := positive (show 2 * (inside.length + 2) ≤ fuel by simpa using enough)
    rw [cons_append, append_assoc]
    exact jsonParseArray_blank isBlank _ rest
  | @array inside isElements reads =>
    intro fuel rest enough _
    obtain ⟨less, rfl, remains⟩ :=
      positive (show 2 * (inside.length + 2) ≤ fuel by simpa using enough)
    rw [cons_append, append_assoc]
    exact jsonParseArray_elements isElements reads remains rest
  | @emptyObject inside isBlank =>
    intro fuel rest enough _
    obtain ⟨less, rfl, -⟩ := positive (show 2 * (inside.length + 2) ≤ fuel by simpa using enough)
    rw [cons_append, append_assoc]
    exact jsonParseObject_blank isBlank _ rest
  | @object inside isMembers reads =>
    intro fuel rest enough _
    obtain ⟨less, rfl, remains⟩ :=
      positive (show 2 * (inside.length + 2) ≤ fuel by simpa using enough)
    rw [cons_append, append_assoc]
    exact jsonParseObject_members isMembers reads remains rest
  | lastElement isBefore _ isAfter reads => exact element_last isBefore isAfter reads
  | nextElement isBefore _ isAfter _ reads readsOthers =>
    exact element_next isBefore isAfter reads readsOthers
  | lastMember isLead isName isMiddle isBefore _ isAfter reads =>
    exact member_last isLead isName isMiddle isBefore isAfter reads
  | nextMember isLead isName isMiddle isBefore _ isAfter _ reads readsOthers =>
    exact member_next isLead isName isMiddle isBefore isAfter reads readsOthers

end Zabbix.Json.Validation
