import Mathlib.Data.List.Forall2
import Zabbix.Expression.Correctness

/-!
# Replacing Unknown operands

What an expression with Unknown operands gives is what it gives for any numbers in their
place.  The replacement is one of texts, which leaves quoted strings alone; it is followed
through the tokens and the trees to the values.
-/

namespace Zabbix.Expression.Unknown

open Common.Text Numbers Evaluate Grammar Tokens Correctness List Option
open Library.OperatorChain (bind_eq_ok)

variable {text text' rest after : Text} {tokens tokens' : List Token}

/-- Unknown operands outside quotes are replaced by numbers. -/
inductive Replaced : Text → Text → Prop where
  | nil : Replaced [] []
  | copied {text text' : Text} (c : Char) (notQuote : c ≠ '"') (others : Replaced text text') :
      Replaced (c :: text) (c :: text')
  | quoted {raw value text text' : Text} (isQuoted : Quoted raw value)
      (others : Replaced text text') :
      Replaced ('"' :: (raw ++ '"' :: text)) ('"' :: (raw ++ '"' :: text'))
  | unknown {digits text text' : Text} (areDigits : ∀ c ∈ digits, c.isDigit = true)
      (nonempty : digits ≠ []) (delimited : isNumberDelimiter (headChar text) = true)
      (number : SuffixedNumber) (others : Replaced text text') :
      Replaced (zbxUnknownStr ++ (digits ++ text)) (number.text ++ text')

/-! ## Tokens -/

/-- A token and what stands in its place. -/
inductive ReplacedToken : Token → Token → Prop where
  | same (token : Token) : ReplacedToken token token
  | unknown (digits : Text) (number : SuffixedNumber) :
      ReplacedToken (.unknown digits) (.number number)

/-- A character that neither a string nor an Unknown operand starts with. -/
def isOrdinary (c : Char) : Bool :=
  c ≠ '"' && c ≠ 'Z'

theorem Replaced.cons_inv {c : Char} (ordinary : isOrdinary c = true)
    (replaced : Replaced (c :: text) text') :
    ∃ others, text' = c :: others ∧ Replaced text others := by
  generalize shape : c :: text = whole at replaced
  cases replaced with
  | nil => cases shape
  | copied c notQuote others =>
    obtain ⟨rfl, rfl⟩ := cons.inj shape
    exact ⟨_, rfl, others⟩
  | quoted =>
    obtain ⟨rfl, -⟩ := cons.inj shape
    exact absurd ordinary (by decide)
  | unknown =>
    obtain ⟨rfl, -⟩ := cons.inj shape
    exact absurd ordinary (by decide)

theorem Replaced.append_inv {gap : Text} (ordinary : ∀ c ∈ gap, isOrdinary c = true)
    (replaced : Replaced (gap ++ text) text') :
    ∃ others, text' = gap ++ others ∧ Replaced text others := by
  induction gap generalizing text' with
  | nil => exact ⟨text', rfl, replaced⟩
  | cons c gap ih =>
    obtain ⟨atFirst, later⟩ := forall_mem_cons.mp ordinary
    obtain ⟨others, rfl, afterFirst⟩ := replaced.cons_inv atFirst
    obtain ⟨others, rfl, afterGap⟩ := ih later afterFirst
    exact ⟨others, rfl, afterGap⟩

theorem Replaced.string_inv {raw value : Text} (quoted : Quoted raw value)
    (replaced : Replaced ('"' :: (raw ++ '"' :: text)) text') :
    ∃ others, text' = '"' :: (raw ++ '"' :: others) ∧ Replaced text others := by
  generalize shape : '"' :: (raw ++ '"' :: text) = whole at replaced
  cases replaced with
  | nil => cases shape
  | copied c notQuote others => exact absurd (cons.inj shape).1.symm notQuote
  | quoted isQuoted others =>
    have scanned := scanString_quoted quoted [] text
    rw [(cons.inj shape).2, scanString_quoted isQuoted] at scanned
    obtain ⟨rfl, sameRest⟩ := Prod.mk.inj (Except.ok.inj scanned)
    obtain rfl := (cons.inj sameRest).2
    exact ⟨_, rfl, others⟩
  | unknown => exact absurd (cons.inj shape).1 (by decide)

theorem isOrdinary_of_isDigit {c : Char} (isDigit : c.isDigit = true) : isOrdinary c = true := by
  rw [isOrdinary, Bool.and_eq_true, decide_eq_true_eq, decide_eq_true_eq]
  constructor
  · rintro rfl
    exact absurd isDigit (by decide)
  · rintro rfl
    exact absurd isDigit (by decide)

theorem takeWhile_isDigit {digits : Text} (areDigits : ∀ c ∈ digits, c.isDigit = true)
    (delimited : isNumberDelimiter (headChar after) = true) :
    (digits ++ after).takeWhile Char.isDigit = digits ∧
      (digits ++ after).dropWhile Char.isDigit = after :=
  takeWhile_append_of_stopsAt areDigits
    ((isNumberDelimiter_iff.mp delimited).mono fun c isDigit => by simp [isNumberChar, isDigit])

theorem Replaced.unknown_inv {digits : Text} (areDigits : ∀ c ∈ digits, c.isDigit = true)
    (delimited : isNumberDelimiter (headChar text) = true)
    (replaced : Replaced (zbxUnknownStr ++ (digits ++ text)) text') :
    ∃ token others, text' = tokenText token ++ others ∧
      ReplacedToken (.unknown digits) token ∧ Replaced text others := by
  generalize shape : zbxUnknownStr ++ (digits ++ text) = whole at replaced
  cases replaced with
  | nil => cases shape
  | copied c notQuote others =>
    obtain ⟨rfl, rfl⟩ := cons.inj shape
    obtain ⟨fromDigits, rfl, afterWord⟩ := Replaced.append_inv
      (List.all_eq_true.mp (show zbxUnknownStr.tail.all isOrdinary = true by decide)) others
    obtain ⟨final, rfl, afterDigits⟩ :=
      afterWord.append_inv fun c member => isOrdinary_of_isDigit (areDigits c member)
    refine ⟨.unknown digits, final, ?_, .same _, afterDigits⟩
    rw [tokenText, append_assoc]
    rfl
  | quoted => exact absurd (cons.inj shape).1 (by decide)
  | unknown areDigits' nonempty delimited' number others =>
    have same := append_cancel_left shape
    obtain ⟨taken, dropped⟩ := takeWhile_isDigit areDigits delimited
    obtain ⟨taken', dropped'⟩ := takeWhile_isDigit areDigits' delimited'
    rw [same, taken'] at taken
    rw [same, dropped'] at dropped
    subst taken dropped
    exact ⟨.number number, _, rfl, .unknown _ number, others⟩

theorem Replaced.nil_inv (replaced : Replaced [] text') : text' = [] := by
  generalize shape : ([] : Text) = whole at replaced
  cases replaced with
  | nil => rfl
  | copied => cases shape
  | quoted => cases shape
  | unknown => cases shape

theorem Replaced.headChar_eq (notLetter : headChar text ≠ 'Z') (replaced : Replaced text text') :
    headChar text' = headChar text := by
  cases replaced with
  | nil => rfl
  | copied => rfl
  | quoted => rfl
  | unknown => exact absurd rfl notLetter

theorem Replaced.stopsAt (stops : StopsAt isBlank text) (replaced : Replaced text text') :
    StopsAt isBlank text' := by
  cases replaced with
  | nil => exact stops
  | copied => exact stops
  | quoted => exact stops
  | unknown areDigits nonempty delimited number others => exact stopsAt_token (.number number) _

/-- What a derivation says about its tokens. -/
def WellFormed : Token → Prop
  | .string raw => ∃ value, Quoted raw value
  | .unknown digits => (∀ c ∈ digits, c.isDigit = true) ∧ digits ≠ []
  | _ => True

theorem wellFormed_of_derives {nesting n : Nat} {tree : Tree}
    (derives : Derives nesting n tree tokens) : ∀ token ∈ tokens, WellFormed token := by
  induction derives with
  | number => exact forall_mem_singleton.mpr trivial
  | string quoted => exact forall_mem_singleton.mpr ⟨_, quoted⟩
  | unknown areDigits nonempty => exact forall_mem_singleton.mpr ⟨areDigits, nonempty⟩
  | parentheses _ ih =>
    exact forall_mem_cons.mpr ⟨trivial, forall_mem_append.mpr
      ⟨ih, forall_mem_singleton.mpr trivial⟩⟩
  | minus _ ih => exact forall_mem_cons.mpr ⟨trivial, ih⟩
  | not _ ih => exact forall_mem_cons.mpr ⟨trivial, ih⟩
  | binary op _ _ firstInduction secondInduction =>
    exact forall_mem_append.mpr ⟨firstInduction, forall_mem_cons.mpr ⟨trivial, secondInduction⟩⟩
  | tighter _ _ ih => exact ih

theorem isOrdinary_of_mem_number {number : SuffixedNumber} {c : Char} (member : c ∈ number.text) :
    isOrdinary c = true := by
  have cases := isNumberChar_of_mem_text member
  rw [isOrdinary, Bool.and_eq_true, decide_eq_true_eq, decide_eq_true_eq]
  constructor
  · rintro rfl
    exact absurd cases (by decide)
  · rintro rfl
    exact absurd cases (by decide)

theorem Replaced.token_inv {token : Token} (wellFormed : WellFormed token)
    (delimited : Delimited token after) (replaced : Replaced (tokenText token ++ after) text') :
    ∃ token' others, text' = tokenText token' ++ others ∧ ReplacedToken token token' ∧
      Replaced after others := by
  have ordinary (areOrdinary : ∀ c ∈ tokenText token, isOrdinary c = true) :
      ∃ token' others, text' = tokenText token' ++ others ∧ ReplacedToken token token' ∧
        Replaced after others := by
    obtain ⟨others, shape, afterToken⟩ := replaced.append_inv areOrdinary
    exact ⟨token, others, shape, .same token, afterToken⟩
  cases token with
  | number number => exact ordinary fun c member => isOrdinary_of_mem_number member
  | string raw =>
    obtain ⟨value, quoted⟩ := wellFormed
    rw [tokenText, cons_append, append_assoc, singleton_append] at replaced
    obtain ⟨others, rfl, afterString⟩ := replaced.string_inv quoted
    refine ⟨.string raw, others, ?_, .same _, afterString⟩
    rw [tokenText, cons_append, append_assoc, singleton_append]
  | unknown digits =>
    rw [tokenText, append_assoc] at replaced
    exact replaced.unknown_inv wellFormed.1 delimited
  | binary op => exact ordinary (List.all_eq_true.mp (by cases op <;> decide))
  | _ => exact ordinary (List.all_eq_true.mp (by decide))

theorem ReplacedToken.delimited {token token' : Token} (isReplaced : ReplacedToken token token')
    (delimited : Delimited token after) (replaced : Replaced after rest) :
    Delimited token' rest := by
  have numberEnd (ends : isNumberDelimiter (headChar after) = true) :
      isNumberDelimiter (headChar rest) = true := by
    rwa [replaced.headChar_eq fun isLetter => absurd (isLetter ▸ ends) (by decide)]
  have wordEnd (ends : isOperatorDelimiter (headChar after) = true) :
      isOperatorDelimiter (headChar rest) = true := by
    rwa [replaced.headChar_eq fun isLetter => absurd (isLetter ▸ ends) (by decide)]
  cases isReplaced with
  | unknown => exact numberEnd delimited
  | same =>
    cases token with
    | number => exact numberEnd delimited
    | string => exact numberEnd delimited
    | unknown => exact numberEnd delimited
    | not => exact wordEnd delimited
    | binary op =>
      cases op with
      | and => exact wordEnd delimited
      | or => exact wordEnd delimited
      | _ => trivial
    | _ => trivial

theorem isOrdinary_of_isBlank {c : Char} (blank : isBlank c = true) : isOrdinary c = true := by
  simp only [isBlank, Bool.or_eq_true, decide_eq_true_eq] at blank
  obtain ((rfl | rfl) | rfl) | rfl := blank
  all_goals rfl

theorem Replaced.spells (spells : Spells tokens text rest)
    (wellFormed : ∀ token ∈ tokens, WellFormed token) (replaced : Replaced text text') :
    ∃ tokens' rest', Spells tokens' text' rest' ∧ Replaced rest rest' ∧
      List.Forall₂ ReplacedToken tokens tokens' := by
  induction spells generalizing text' with
  | nil areBlank stops =>
    obtain ⟨others, rfl, afterBlanks⟩ :=
      replaced.append_inv fun c member => isOrdinary_of_isBlank (areBlank c member)
    exact ⟨[], others, Spells.nil areBlank (afterBlanks.stopsAt stops), afterBlanks, .nil⟩
  | cons areBlank delimited later ih =>
    obtain ⟨atFirst, others⟩ := forall_mem_cons.mp wellFormed
    obtain ⟨afterBlanks, rfl, replacedBlanks⟩ :=
      replaced.append_inv fun c member => isOrdinary_of_isBlank (areBlank c member)
    obtain ⟨token', afterToken, rfl, isReplaced, replacedToken⟩ :=
      replacedBlanks.token_inv atFirst delimited
    obtain ⟨tokens', rest', spells, replacedRest, areReplaced⟩ :=
      ih others replacedToken
    exact ⟨token' :: tokens', rest',
      Spells.cons areBlank (isReplaced.delimited delimited replacedToken) spells,
      replacedRest, .cons isReplaced areReplaced⟩

/-! ## Values -/

/-- A number in the place of an Unknown value. -/
inductive RefinesNumber : Number → Number → Prop where
  | same (number : Number) : RefinesNumber number number
  | unknown (index : Nat) (number : Number) : RefinesNumber (.unknown index) number

/-- A value in the place of an Unknown value. -/
inductive Refines : Variant → Variant → Prop where
  | same (variant : Variant) : Refines variant variant
  | unknown (index : Nat) (number : Number) : Refines (.dbl (.unknown index)) (.dbl number)

theorem RefinesNumber.variant {number number' : Number} (refines : RefinesNumber number number') :
    Refines (.dbl number) (.dbl number') := by
  cases refines with
  | same => exact .same _
  | unknown index => exact .unknown index number'

theorem Refines.number {variant variant' : Variant} {number number' : Number}
    (refines : Refines variant variant') (isNumber : toNumber variant = some number)
    (isNumber' : toNumber variant' = some number') : RefinesNumber number number' := by
  cases refines with
  | same =>
    obtain rfl := some.inj (isNumber.symm.trans isNumber')
    exact .same _
  | unknown index other =>
    obtain rfl := some.inj isNumber
    exact .unknown index number'

theorem RefinesNumber.negate {number number' : Number} (refines : RefinesNumber number number') :
    RefinesNumber (Evaluate.negate number) (Evaluate.negate number') := by
  cases refines with
  | same => exact .same _
  | unknown index => exact .unknown index _

theorem RefinesNumber.negateTruth {number number' : Number}
    (refines : RefinesNumber number number') :
    RefinesNumber (Evaluate.negateTruth number) (Evaluate.negateTruth number') := by
  cases refines with
  | same => exact .same _
  | unknown index => exact .unknown index _

theorem exactValue_of_decidedBy {op : BinaryOp} {operand decided other : ℚ}
    (decides : decidedBy op operand = some decided) :
    exactValue op operand other = some decided ∧ exactValue op other operand = some decided := by
  cases op
  case and =>
    rw [decidedBy] at decides
    split_ifs at decides with isTrue
    obtain rfl := some.inj decides
    rw [Bool.not_eq_true] at isTrue
    rw [exactValue, exactValue, isTrue, Bool.false_and, Bool.and_false]
    exact ⟨rfl, rfl⟩
  case or =>
    rw [decidedBy] at decides
    split_ifs at decides with isTrue
    obtain rfl := some.inj decides
    rw [exactValue, exactValue, isTrue, Bool.true_or, Bool.or_true]
    exact ⟨rfl, rfl⟩
  all_goals cases decides

/-- The same, when the other operand may be Unknown too. -/
theorem numberValue_of_decidedBy {op : BinaryOp} {operand decided : ℚ} {other result : Number}
    (decides : decidedBy op operand = some decided) :
    (numberValue op (.known operand) other = some result → result = .known decided) ∧
      (numberValue op other (.known operand) = some result → result = .known decided) := by
  cases other with
  | known value =>
    obtain ⟨onLeft, onRight⟩ : exactValue op operand value = some decided ∧
        exactValue op value operand = some decided := exactValue_of_decidedBy decides
    rw [numberValue, numberValue, onLeft, onRight]
    exact ⟨fun same => (some.inj same).symm, fun same => (some.inj same).symm⟩
  | unknown index =>
    rw [numberValue, numberValue, decides]
    constructor
    · exact fun same => (some.inj same).symm
    · intro isResult
      split_ifs at isResult
      exact (some.inj isResult).symm

theorem refines_decidedBy {op : BinaryOp} {operand : ℚ} {index : Nat} {result : Number}
    (agrees : ∀ decided, decidedBy op operand = some decided → result = .known decided) :
    RefinesNumber ((decidedBy op operand).elim (.unknown index) Number.known) result := by
  cases decides : decidedBy op operand with
  | none => exact .unknown index result
  | some decided =>
    rw [agrees decided decides]
    exact .same _

theorem numberValue_refines {op : BinaryOp} {left left' right right' result result' : Number}
    (refinesLeft : RefinesNumber left left') (refinesRight : RefinesNumber right right')
    (isValue : numberValue op left right = some result)
    (isValue' : numberValue op left' right' = some result') : RefinesNumber result result' := by
  cases refinesLeft with
  | same =>
    cases refinesRight with
    | same =>
      obtain rfl := some.inj (isValue.symm.trans isValue')
      exact .same _
    | unknown index =>
      cases left with
      | known operand =>
        obtain rfl := some.inj isValue
        exact refines_decidedBy fun _ decides => (numberValue_of_decidedBy decides).1 isValue'
      | unknown =>
        obtain rfl := some.inj isValue
        exact .unknown _ _
  | unknown index =>
    cases right with
    | known operand =>
      cases refinesRight
      rw [numberValue] at isValue
      split_ifs at isValue
      obtain rfl := some.inj isValue
      exact refines_decidedBy fun _ decides => (numberValue_of_decidedBy decides).2 isValue'
    | unknown =>
      obtain rfl := some.inj isValue
      exact .unknown _ _

theorem binaryValue_of_isUnknown {op : BinaryOp} {left right : Variant} {index : Nat}
    (isEquality : level op = 3)
    (either : isUnknown left = some index ∨ isUnknown left = none ∧ isUnknown right = some index) :
    binaryValue op left right = some (.dbl (.unknown index)) := by
  rw [binaryValue, if_pos isEquality]
  obtain onLeft | ⟨notLeft, onRight⟩ := either
  · rw [onLeft]
  · rw [notLeft, onRight]

theorem binaryValue_number {op : BinaryOp} {left right result : Variant} (isEquality : level op = 3)
    (isValue : binaryValue op left right = some result) : ∃ number, result = .dbl number := by
  rw [binaryValue, if_pos isEquality] at isValue
  split at isValue
  all_goals exact ⟨_, (some.inj isValue).symm⟩

theorem binaryValue_refines {op : BinaryOp} {left left' right right' result result' : Variant}
    (refinesLeft : Refines left left') (refinesRight : Refines right right')
    (isValue : binaryValue op left right = some result)
    (isValue' : binaryValue op left' right' = some result') : Refines result result' := by
  by_cases isEquality : level op = 3
  · obtain ⟨number', rfl⟩ := binaryValue_number isEquality isValue'
    cases refinesLeft with
    | unknown index =>
      rw [binaryValue_of_isUnknown isEquality (Or.inl rfl)] at isValue
      obtain rfl := some.inj isValue
      exact .unknown _ _
    | same =>
      cases refinesRight with
      | same =>
        obtain rfl := some.inj (isValue.symm.trans isValue')
        exact .same _
      | unknown index =>
        cases onLeft : isUnknown left with
        | some other =>
          rw [binaryValue_of_isUnknown isEquality (Or.inl onLeft)] at isValue
          obtain rfl := some.inj isValue
          exact .unknown _ _
        | none =>
          rw [binaryValue_of_isUnknown isEquality (Or.inr ⟨onLeft, rfl⟩)] at isValue
          obtain rfl := some.inj isValue
          exact .unknown _ _
  · rw [binaryValue, if_neg isEquality, bind_eq_some_iff] at isValue isValue'
    obtain ⟨leftNumber, isLeft, isValue⟩ := isValue
    obtain ⟨leftNumber', isLeft', isValue'⟩ := isValue'
    obtain ⟨rightNumber, isRight, isValue⟩ := bind_eq_some_iff.mp isValue
    obtain ⟨rightNumber', isRight', isValue'⟩ := bind_eq_some_iff.mp isValue'
    obtain ⟨number, isNumber, rfl⟩ := map_eq_some_iff.mp isValue
    obtain ⟨number', isNumber', rfl⟩ := map_eq_some_iff.mp isValue'
    exact (numberValue_refines (refinesLeft.number isLeft isLeft')
      (refinesRight.number isRight isRight') isNumber isNumber').variant

theorem unary_refines {change : Number → Number} {operand operand' : Option Variant}
    {result result' : Variant}
    (kept : ∀ number number', RefinesNumber number number' →
      RefinesNumber (change number) (change number'))
    (refines : ∀ variant variant', operand = some variant → operand' = some variant' →
      Refines variant variant')
    (isValue : (operand.bind toNumber).map (fun number => Variant.dbl (change number)) =
      some result)
    (isValue' : (operand'.bind toNumber).map (fun number => Variant.dbl (change number)) =
      some result') : Refines result result' := by
  obtain ⟨number, isNumber, rfl⟩ := map_eq_some_iff.mp isValue
  obtain ⟨number', isNumber', rfl⟩ := map_eq_some_iff.mp isValue'
  obtain ⟨variant, isOperand, isNumber⟩ := bind_eq_some_iff.mp isNumber
  obtain ⟨variant', isOperand', isNumber'⟩ := bind_eq_some_iff.mp isNumber'
  exact (kept _ _ ((refines _ _ isOperand isOperand').number isNumber isNumber')).variant

/-! ## Trees -/

def RefinesValue (tree tree' : Tree) : Prop :=
  ∀ variant variant', value tree = some variant → value tree' = some variant' →
    Refines variant variant'

theorem refinesValue_self (tree : Tree) : RefinesValue tree tree := by
  intro variant variant' isValue isValue'
  obtain rfl := some.inj (isValue.symm.trans isValue')
  exact .same _

/-- Tokens and what stands in their place are split alike. -/
theorem forall₂_append_inv {first second : List Token}
    (related : List.Forall₂ ReplacedToken (first ++ second) tokens') :
    ∃ first' second', tokens' = first' ++ second' ∧ List.Forall₂ ReplacedToken first first' ∧
      List.Forall₂ ReplacedToken second second' := by
  induction first generalizing tokens' with
  | nil => exact ⟨[], tokens', rfl, .nil, related⟩
  | cons token first ih =>
    obtain ⟨token', others, isReplaced, later, rfl⟩ := List.forall₂_cons_left_iff.mp related
    obtain ⟨first', second', rfl, relatedFirst, relatedSecond⟩ := ih later
    exact ⟨token' :: first', second', rfl, .cons isReplaced relatedFirst, relatedSecond⟩

theorem forall₂_cons_inv {token : Token}
    (related : List.Forall₂ ReplacedToken (token :: tokens) tokens')
    (notUnknown : ∀ digits, token ≠ .unknown digits) :
    ∃ others, tokens' = token :: others ∧ List.Forall₂ ReplacedToken tokens others := by
  obtain ⟨token', others, isReplaced, later, rfl⟩ := List.forall₂_cons_left_iff.mp related
  cases isReplaced with
  | same => exact ⟨others, rfl, later⟩
  | unknown digits number => exact absurd rfl (notUnknown digits)

theorem forall₂_singleton_inv {token : Token}
    (related : List.Forall₂ ReplacedToken [token] tokens')
    (notUnknown : ∀ digits, token ≠ .unknown digits) : tokens' = [token] := by
  obtain ⟨others, rfl, none⟩ := forall₂_cons_inv related notUnknown
  rw [List.forall₂_nil_left_iff.mp none]

theorem derives_replaced {nesting n : Nat} {tree : Tree} (derives : Derives nesting n tree tokens)
    (related : List.Forall₂ ReplacedToken tokens tokens') :
    ∃ tree', Derives nesting n tree' tokens' ∧ RefinesValue tree tree' := by
  induction derives generalizing tokens' with
  | number number =>
    obtain rfl := forall₂_singleton_inv related nofun
    exact ⟨_, .number number, refinesValue_self _⟩
  | string quoted =>
    obtain rfl := forall₂_singleton_inv related nofun
    exact ⟨_, .string quoted, refinesValue_self _⟩
  | unknown areDigits nonempty =>
    obtain ⟨token', others, isReplaced, none, rfl⟩ := List.forall₂_cons_left_iff.mp related
    obtain rfl := List.forall₂_nil_left_iff.mp none
    cases isReplaced with
    | same => exact ⟨_, .unknown areDigits nonempty, refinesValue_self _⟩
    | unknown digits number =>
      refine ⟨_, .number number, ?_⟩
      intro variant variant' isValue isValue'
      obtain rfl := some.inj isValue
      obtain rfl := some.inj isValue'
      exact .unknown _ _
  | parentheses _ ih =>
    obtain ⟨others, rfl, afterOpening⟩ := forall₂_cons_inv related nofun
    obtain ⟨inside, closing, rfl, relatedInside, isClosing⟩ := forall₂_append_inv afterOpening
    obtain rfl := forall₂_singleton_inv isClosing nofun
    obtain ⟨tree', derives, refines⟩ := ih relatedInside
    exact ⟨tree', derives.parentheses, refines⟩
  | minus _ ih =>
    obtain ⟨others, rfl, relatedOperand⟩ := forall₂_cons_inv related nofun
    obtain ⟨tree', derives, refines⟩ := ih relatedOperand
    exact ⟨.minus tree', derives.minus, fun _ _ => unary_refines
      (fun _ _ refines => refines.negate) refines⟩
  | not _ ih =>
    obtain ⟨others, rfl, relatedOperand⟩ := forall₂_cons_inv related nofun
    obtain ⟨tree', derives, refines⟩ := ih relatedOperand
    exact ⟨.not tree', derives.not, fun _ _ => unary_refines
      (fun _ _ refines => refines.negateTruth) refines⟩
  | binary op _ _ firstInduction secondInduction =>
    obtain ⟨first', others, rfl, relatedFirst, fromOperator⟩ := forall₂_append_inv related
    obtain ⟨second', rfl, relatedSecond⟩ := forall₂_cons_inv fromOperator nofun
    obtain ⟨left', derivesLeft, refinesLeft⟩ := firstInduction relatedFirst
    obtain ⟨right', derivesRight, refinesRight⟩ := secondInduction relatedSecond
    refine ⟨.binary op left' right', derivesLeft.binary op derivesRight, ?_⟩
    intro variant variant' isValue isValue'
    obtain ⟨leftValue, isLeft, isValue⟩ := bind_eq_some_iff.mp isValue
    obtain ⟨leftValue', isLeft', isValue'⟩ := bind_eq_some_iff.mp isValue'
    obtain ⟨rightValue, isRight, isValue⟩ := bind_eq_some_iff.mp isValue
    obtain ⟨rightValue', isRight', isValue'⟩ := bind_eq_some_iff.mp isValue'
    exact binaryValue_refines (refinesLeft _ _ isLeft isLeft')
      (refinesRight _ _ isRight isRight') isValue isValue'
  | tighter positive _ ih =>
    obtain ⟨tree', derives, refines⟩ := ih related
    exact ⟨tree', derives.tighter positive, refines⟩

theorem renders_replaced {nesting : Nat} {tree : Tree} (renders : Renders nesting tree text)
    (replaced : Replaced text text') :
    ∃ tree', Renders nesting tree' text' ∧ RefinesValue tree tree' := by
  obtain ⟨tokens, derives, spells⟩ := renders
  obtain ⟨tokens', rest', spells', atEnd, related⟩ :=
    replaced.spells spells (wellFormed_of_derives derives)
  obtain rfl := atEnd.nil_inv
  obtain ⟨tree', derives', refines⟩ := derives_replaced derives related
  exact ⟨tree', ⟨tokens', derives', spells'⟩, refines⟩

/-! ## Expressions -/

theorem evaluateUnknown_of_renders {tree : Tree} (renders : Renders 31 tree text) :
    (evaluateUnknown text).toOption = (value tree).bind toNumber := by
  rw [evaluateUnknown, Reading.toOption_bind,
    show (evaluateTerm1 maxLevel text).toOption = _ from evaluateTerm1_of_renders renders]
  cases value tree with
  | none => rfl
  | some variant =>
    rw [bind_some, bind_some, bind_some, Reading.toOption_bind,
      Reading.toOption_variantConvertToDouble]
    cases toNumber variant <;> rfl

theorem renders_of_evaluateUnknown {number : Number}
    (evaluated : evaluateUnknown text = .ok number) : ∃ tree, Renders 31 tree text := by
  obtain ⟨⟨variant, rest⟩, read, converted⟩ := bind_eq_ok.mp evaluated
  obtain ⟨_, -, ended⟩ := bind_eq_ok.mp converted
  split_ifs at ended with isWhole
  obtain rfl := not_not.mp isWhole
  obtain ⟨tree, renders, -⟩ := renders_of_evaluateTerm1 read
  exact ⟨tree, renders⟩

/-- A value that is known in spite of Unknown operands is the value for all numbers. -/
theorem evaluateUnknown_sound {number : ℚ} (decided : evaluateUnknown text = .ok (.known number))
    (replaced : Replaced text text') :
    (∀ unknownMsgs number', evaluate unknownMsgs text' = .ok number' → number' = number) ∧
      ∀ number', evaluateUnknown text' = .ok number' → number' = .known number := by
  obtain ⟨tree, renders⟩ := renders_of_evaluateUnknown decided
  obtain ⟨tree', renders', refines⟩ := renders_replaced renders replaced
  have isNumber := evaluateUnknown_of_renders renders
  rw [decided] at isNumber
  obtain ⟨variant, isValue, isKnown⟩ := bind_eq_some_iff.mp isNumber.symm
  have same {number' : Number} (found : (value tree').bind toNumber = some number') :
      number' = .known number := by
    obtain ⟨variant', isValue', isNumber'⟩ := bind_eq_some_iff.mp found
    cases (refines _ _ isValue isValue').number isKnown isNumber'
    rfl
  constructor
  · intro unknownMsgs number' evaluated
    have isResult := evaluate_of_renders unknownMsgs renders'
    rw [evaluated] at isResult
    obtain ⟨found, isFound, isNumber'⟩ := bind_eq_some_iff.mp isResult.symm
    rw [same isFound] at isNumber'
    exact (some.inj isNumber').symm
  · intro number' evaluated
    have isResult := evaluateUnknown_of_renders renders'
    rw [evaluated] at isResult
    exact same isResult.symm

/-- `1` -/
def one : SuffixedNumber where
  whole := ['1']
  fraction := none
  exponent := none
  suffix := none
  areDigits := List.all_eq_true.mp (by decide)
  nonempty := by decide
  isUnit := nofun

/-- `0 and ZBX_UNKNOWN0` is `0`, and so is `0 and 1`. -/
theorem evaluateUnknown_sound_zero :
    ∃ text text' : Text, evaluateUnknown text = .ok (.known 0) ∧ Replaced text text' ∧
      (∀ unknownMsgs number', evaluate unknownMsgs text' = .ok number' → number' = 0) ∧
        ∀ number', evaluateUnknown text' = .ok number' → number' = .known 0 := by
  have replaced : Replaced (['0', ' ', 'a', 'n', 'd', ' '] ++ (zbxUnknownStr ++ (['0'] ++ [])))
      (['0', ' ', 'a', 'n', 'd', ' '] ++ (one.text ++ [])) := by
    refine .copied _ (by decide) (.copied _ (by decide) (.copied _ (by decide)
      (.copied _ (by decide) (.copied _ (by decide) (.copied _ (by decide) ?_)))))
    exact .unknown (List.all_eq_true.mp (by decide)) (by decide) rfl one .nil
  have decided : evaluateUnknown
      (['0', ' ', 'a', 'n', 'd', ' '] ++ (zbxUnknownStr ++ (['0'] ++ []))) = .ok (.known 0) := by
    decide +kernel
  exact ⟨_, _, decided, replaced, evaluateUnknown_sound decided replaced⟩

end Zabbix.Expression.Unknown
