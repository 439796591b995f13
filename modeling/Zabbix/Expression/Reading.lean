import Zabbix.Expression.Tokens

/-!
# Reading expressions

The evaluator and the grammar agree: what is evaluated is a rendering of a tree with that
value, and every rendering of a tree is evaluated to its value.  Both are shown level by
level, for the parentheses that are still allowed.
-/

namespace Zabbix.Expression.Reading

open Common.Text Numbers Evaluate Grammar Tokens Library List Option
open Library.OperatorChain (Consumes Shortens bind_eq_ok)

/-! ## Operations -/

theorem toOption_bind {Failure First Second : Type} (first : Except Failure First)
    (next : First → Except Failure Second) :
    (first.bind next).toOption = first.toOption.bind fun value => (next value).toOption := by
  cases first <;> rfl

theorem toOption_map {Failure First Second : Type} (first : Except Failure First)
    (change : First → Second) : (first.map change).toOption = first.toOption.map change := by
  cases first <;> rfl

@[simp]
theorem toOption_variantConvertToDouble (variant : Variant) :
    (variantConvertToDouble variant).toOption = toNumber variant := by
  cases variant with
  | dbl number => rfl
  | str text =>
    rw [variantConvertToDouble, toNumber]
    cases evaluateStringToDouble text <;> rfl

theorem ofBool_compare_zero (holds : Bool) :
    ofBool (zbxDoubleCompare (ofBool holds) 0) = ofBool !holds := by
  cases holds
  · decide +kernel
  · decide +kernel

variable {op : BinaryOp}

theorem apply6_eq (isLevel : level op = 6) (res : Number) (operand : Variant) :
    (apply6 op res operand).toOption =
      (toNumber operand).bind fun operand => (numberValue op res operand).map Variant.dbl := by
  rw [apply6, toOption_bind, toOption_variantConvertToDouble]
  refine congrArg _ (funext fun operand => ?_)
  cases op
  case mul =>
    cases res <;> cases operand <;> rfl
  case div =>
    cases operand with
    | unknown index => cases res <;> rfl
    | known value =>
      cases isZero : zbxDoubleCompare value 0
      · cases res <;> simp [numberValue, exactValue, decidedBy, isZero, propagate,
          Except.toOption]
      · cases res <;> simp [numberValue, exactValue, isZero, Except.toOption]
  all_goals cases isLevel

theorem apply5_eq (isLevel : level op = 5) (res : Number) (operand : Variant) :
    (apply5 op res operand).toOption =
      (toNumber operand).bind fun operand => (numberValue op res operand).map Variant.dbl := by
  rw [apply5, toOption_map, toOption_variantConvertToDouble, map_eq_bind]
  refine congrArg _ (funext fun operand => ?_)
  cases op
  case add => cases res <;> cases operand <;> rfl
  case sub => cases res <;> cases operand <;> rfl
  all_goals cases isLevel

theorem apply4_eq (isLevel : level op = 4) (res : Number) (operand : Variant) :
    (apply4 op res operand).toOption =
      (toNumber operand).bind fun operand => (numberValue op res operand).map Variant.dbl := by
  rw [apply4, toOption_map, toOption_variantConvertToDouble, map_eq_bind]
  refine congrArg _ (funext fun operand => ?_)
  cases op
  case lt => cases res <;> cases operand <;> rfl
  case le => cases res <;> cases operand <;> rfl
  case ge => cases res <;> cases operand <;> rfl
  case gt => cases res <;> cases operand <;> rfl
  all_goals cases isLevel

theorem apply2_eq (res : Number) (operand : Variant) :
    (apply2 .and res operand).toOption =
      (toNumber operand).bind fun operand => (numberValue .and res operand).map Variant.dbl := by
  rw [apply2, toOption_map, toOption_variantConvertToDouble, map_eq_bind]
  refine congrArg _ (funext fun operand => ?_)
  cases res with
  | known left =>
    cases operand with
    | known right => rfl
    | unknown index =>
      cases isZero : zbxDoubleCompare left 0 <;>
        simp [numberValue, decidedBy, isNonzero, isZero]
  | unknown index =>
    cases operand with
    | known right =>
      cases isZero : zbxDoubleCompare right 0 <;>
        simp [numberValue, decidedBy, isNonzero, isZero]
    | unknown index => rfl

theorem apply1_eq (res : Number) (operand : Variant) :
    (apply1 .or res operand).toOption =
      (toNumber operand).bind fun operand => (numberValue .or res operand).map Variant.dbl := by
  rw [apply1, toOption_map, toOption_variantConvertToDouble, map_eq_bind]
  refine congrArg _ (funext fun operand => ?_)
  cases res with
  | known left =>
    cases operand with
    | known right => rfl
    | unknown index =>
      cases isZero : zbxDoubleCompare left 0 <;>
        simp [numberValue, decidedBy, isNonzero, isZero]
  | unknown index =>
    cases operand with
    | known right =>
      cases isZero : zbxDoubleCompare right 0 <;>
        simp [numberValue, decidedBy, isNonzero, isZero]
    | unknown index => rfl

theorem apply3_eq (isLevel : level op = 3) (res operand : Variant) :
    (apply3 op res operand).toOption = binaryValue op res operand := by
  have equal (left right : Variant) (leftKnown : isUnknown left = none)
      (rightKnown : isUnknown right = none) :
      equalVariants left right = equalOperands left right := by
    unfold equalVariants equalOperands
    cases left with
    | dbl left =>
      cases left with
      | unknown index => cases leftKnown
      | known left =>
        cases right with
        | dbl right =>
          cases right with
          | unknown index => cases rightKnown
          | known right => rfl
        | str right =>
          simp only [variantGetDouble]
          cases evaluateStringToDouble right <;> simp
    | str left =>
      cases right with
      | dbl right =>
        cases right with
        | unknown index => cases rightKnown
        | known right =>
          simp only [variantGetDouble]
          cases evaluateStringToDouble left <;> simp
      | str right =>
        simp only [variantGetDouble]
        cases evaluateStringToDouble left <;> cases evaluateStringToDouble right <;> simp
  have known (leftKnown : isUnknown res = none) (rightKnown : isUnknown operand = none) :
      (if op = .ne then ofBool (zbxDoubleCompare (ofBool (equalVariants res operand)) 0)
        else ofBool (equalVariants res operand)) =
      ofBool (if op = .ne then !equalOperands res operand else equalOperands res operand) := by
    rw [ofBool_compare_zero, equal res operand leftKnown rightKnown]
    split_ifs <;> rfl
  rw [binaryValue, if_pos isLevel]
  unfold apply3
  split
  next => rfl
  next index notUnknown =>
    have leftKnown : isUnknown res = none := by
      unfold isUnknown
      split
      next => exact absurd rfl (notUnknown _)
      next => rfl
    rw [leftKnown]
    rfl
  next leftOther rightOther =>
    have leftKnown : isUnknown res = none := by
      unfold isUnknown
      split
      next => exact absurd rfl (leftOther _)
      next => rfl
    have rightKnown : isUnknown operand = none := by
      unfold isUnknown
      split
      next => exact absurd rfl (rightOther _)
      next => rfl
    rw [leftKnown, rightKnown]
    exact congrArg (fun value => some (Variant.dbl (.known value))) (known leftKnown rightKnown)

theorem binaryValue_of_level_ne (notEquality : level op ≠ 3) (res operand : Variant) :
    ((variantConvertToDouble res).toOption.bind fun res =>
      (toNumber operand).bind fun operand => (numberValue op res operand).map Variant.dbl) =
        binaryValue op res operand := by
  rw [binaryValue, if_neg notEquality, toOption_variantConvertToDouble]

/-! ## Levels -/

variable {inner : Text → Parsed Variant} {nesting n : Nat} {text rest : Text}

/-- The functions of all levels. -/
def termAt (inner : Text → Parsed Variant) : Nat → Text → Parsed Variant
  | 9 => evaluateTerm9 inner
  | 8 => evaluateTerm8 inner
  | 7 => evaluateTerm7 inner
  | 6 => evaluateTerm6 inner
  | 5 => evaluateTerm5 inner
  | 4 => evaluateTerm4 inner
  | 3 => evaluateTerm3 inner
  | 2 => evaluateTerm2 inner
  | 1 =>
    OperatorChain.level operator1 variantConvertToDouble (evaluateTerm2 inner) apply1
  | _ => fun _ => .error .nestingTooDeep

def RendersValue (nesting n : Nat) (text : Text) (variant : Variant) (rest : Text) : Prop :=
  ∃ tree tokens, Derives nesting n tree tokens ∧ Spells tokens text rest ∧
    value tree = some variant

/-- What a function gives is the value of a tree that the text renders at the level. -/
def Sound (nesting n : Nat) (term : Text → Parsed Variant) : Prop :=
  ∀ text variant rest, term text = .ok (variant, rest) →
    RendersValue nesting n text variant rest

/-- The same for the function that reads what is in parentheses. -/
def SoundInside (nesting : Nat) (inner : Text → Parsed Variant) : Prop :=
  ∀ text variant rest, inner text = .ok (variant, rest) →
    ∃ deeper, nesting = deeper + 1 ∧ RendersValue deeper 1 text variant rest

theorem Sound.shortens {term : Text → Parsed Variant} (sound : Sound nesting n term) :
    Shortens term := by
  intro text variant rest read
  obtain ⟨tree, tokens, -, spells, -⟩ := sound text variant rest read
  exact spells.length_le

theorem consumes_operatorAt (n : Nat) : Consumes (operatorAt n) := by
  intro text op rest found
  obtain ⟨-, rfl, -⟩ := operatorAt_eq_some found
  rw [length_append]
  cases op <;> simp [opText]

/-! ## What is evaluated is a rendering -/

theorem spells_token {token : Token} (delimited : Delimited token rest) :
    Spells [token] (tokenText token ++ rest) (skipBlank rest) :=
  Spells.cons (forall_mem_nil _) delimited (spells_skipBlank rest)

theorem isNumberDelimiter_of_either {c : Char}
    (either : ¬(!isOperatorDelimiter c && !isNumberDelimiter c) = true) :
    isNumberDelimiter c = true := by
  rw [Bool.and_eq_true, not_and_or, Bool.not_eq_true', Bool.not_eq_true', Bool.not_eq_false,
    Bool.not_eq_false] at either
  obtain isWordEnd | isEnd := either
  · simp only [isOperatorDelimiter, Bool.or_eq_true, decide_eq_true_eq] at isWordEnd
    obtain (((((rfl | rfl) | rfl) | rfl) | rfl) | rfl) | rfl := isWordEnd
    all_goals rfl
  · exact isEnd

variable (sound : SoundInside nesting inner)

include sound

theorem operand_sound {variant : Variant}
    (read : evaluateOperand inner text = .ok (variant, rest)) :
    RendersValue nesting 9 text variant (skipBlank rest) := by
  unfold evaluateOperand at read
  split at read
  next => cases read
  next afterOpening =>
    obtain ⟨⟨innerVariant, afterInner⟩, innerRead, read⟩ := bind_eq_ok.mp read
    obtain ⟨deeper, rfl, tree, tokens, derives, spells, isValue⟩ := sound _ _ _ innerRead
    dsimp only at read
    split at read
    next afterClosing =>
      obtain ⟨rfl, rfl⟩ := Prod.mk.inj (Except.ok.inj read)
      refine ⟨tree, _, derives.parentheses, ?_, isValue⟩
      have closing : Spells [.closing] (')' :: afterClosing) (skipBlank afterClosing) :=
        Spells.cons (forall_mem_nil _) trivial (spells_skipBlank afterClosing)
      exact Spells.cons (forall_mem_nil _) trivial (spells.append closing)
    next => cases read
  next afterQuote =>
    obtain ⟨⟨string, afterString⟩, stringRead, checked⟩ := bind_eq_ok.mp read
    obtain ⟨⟨raw, fromQuote⟩, scanned, same⟩ := map_eq_ok.mp stringRead
    obtain ⟨rfl, rfl⟩ := Prod.mk.inj same
    obtain ⟨tail, rfl, rfl, quoted⟩ := scanString_eq_ok scanned
    dsimp only [tail_cons] at checked
    by_cases wrong :
        (!isOperatorDelimiter (headChar tail) && !isNumberDelimiter (headChar tail)) = true
    · have failed := checked.symm.trans (if_pos wrong)
      cases failed
    · obtain ⟨rfl, rfl⟩ := Prod.mk.inj (Except.ok.inj ((if_neg wrong).symm.trans checked))
      have delimited : Delimited (.string raw) tail := isNumberDelimiter_of_either wrong
      have spells := spells_token delimited
      rw [tokenText, cons_append, append_assoc, singleton_append] at spells
      exact ⟨_, _, .string quoted, spells, rfl⟩
  next =>
    split at read
    next => cases read
    next number afterNumber numberRead =>
      obtain ⟨rfl, rfl⟩ := Prod.mk.inj (Except.ok.inj read)
      obtain ⟨token, tree, rfl, delimited, derives, isValue⟩ :=
        evaluateNumber_eq_ok nesting numberRead
      exact ⟨tree, _, derives, spells_token delimited, isValue⟩

theorem term9_sound :
    Sound nesting 9 (evaluateTerm9 inner) := by
  intro text variant rest read
  obtain ⟨⟨operand, afterOperand⟩, operandRead, same⟩ := map_eq_ok.mp read
  obtain ⟨rfl, rfl⟩ := Prod.mk.inj same
  obtain ⟨tree, tokens, derives, spells, isValue⟩ := operand_sound sound operandRead
  exact ⟨tree, tokens, derives, spells.of_skipBlank, isValue⟩

theorem term8_sound :
    Sound nesting 8 (evaluateTerm8 inner) := by
  intro text variant rest read
  unfold evaluateTerm8 at read
  split at read
  next afterMinus shape =>
    obtain ⟨⟨operand, afterOperand⟩, operandRead, read⟩ := bind_eq_ok.mp read
    obtain ⟨number, converted, same⟩ := map_eq_ok.mp read
    obtain ⟨rfl, rfl⟩ := Prod.mk.inj same
    obtain ⟨tree, tokens, derives, spells, isValue⟩ := term9_sound sound _ _ _ operandRead
    refine ⟨.minus tree, _, derives.minus, ?_, ?_⟩
    · apply Spells.of_skipBlank
      rw [shape]
      exact Spells.cons (forall_mem_nil _) trivial spells
    · rw [value, isValue, bind_some, ← toOption_variantConvertToDouble, converted]
      rfl
  next =>
    obtain ⟨tree, tokens, derives, spells, isValue⟩ := term9_sound sound _ _ _ read
    exact ⟨tree, tokens, derives.tighter (by decide), spells.of_skipBlank, isValue⟩

theorem term7_sound :
    Sound nesting 7 (evaluateTerm7 inner) := by
  intro text variant rest read
  unfold evaluateTerm7 at read
  dsimp only at read
  split_ifs at read with isWord
  · rw [Bool.and_eq_true] at isWord
    obtain ⟨afterWord, shape⟩ := isPrefixOf_iff_prefix.mp isWord.1
    obtain ⟨⟨operand, afterOperand⟩, operandRead, read⟩ := bind_eq_ok.mp read
    obtain ⟨number, converted, same⟩ := map_eq_ok.mp read
    obtain ⟨rfl, rfl⟩ := Prod.mk.inj same
    rw [← shape] at operandRead isWord
    obtain ⟨tree, tokens, derives, spells, isValue⟩ := term8_sound sound _ _ _ operandRead
    refine ⟨.not tree, _, derives.not, ?_, ?_⟩
    · apply Spells.of_skipBlank
      rw [← shape]
      exact Spells.cons (forall_mem_nil _) isWord.2 spells
    · rw [value, isValue, bind_some, ← toOption_variantConvertToDouble, converted]
      rfl
  · obtain ⟨tree, tokens, derives, spells, isValue⟩ := term8_sound sound _ _ _ read
    exact ⟨tree, tokens, derives.tighter (by decide), spells.of_skipBlank, isValue⟩

omit sound

theorem level_sound {Left : Type} {left : Variant → Except Failure Left}
    {operand : Text → Parsed Variant} {apply : BinaryOp → Left → Variant → Except Failure Variant}
    (positive : 0 < n) (sound : Sound nesting (n + 1) operand)
    (agrees : ∀ op res right, level op = n →
      ((left res).bind fun res => apply op res right).toOption = binaryValue op res right) :
    Sound nesting n (OperatorChain.level (operatorAt n) left operand apply) := by
  intro text variant rest read
  obtain ⟨⟨first, afterFirst⟩, firstRead, read⟩ := bind_eq_ok.mp read
  obtain ⟨tree, tokens, derives, spells, isValue⟩ := sound _ _ _ firstRead
  refine (OperatorChain.chain_invariant (consumes_operatorAt n) sound.shortens ?_ (Nat.le_refl _)
    (show RendersValue nesting n text first afterFirst from
      ⟨tree, tokens, derives.tighter positive, spells, isValue⟩) read).1
  rintro res middle op afterOperator prepared right rest next
    ⟨tree, tokens, derives, spells, isValue⟩ found isPrepared operandRead applied
  obtain ⟨rfl, rfl, delimited⟩ := operatorAt_eq_some found
  obtain ⟨rightTree, rightTokens, rightDerives, rightSpells, isRight⟩ := sound _ _ _ operandRead
  refine ⟨.binary op tree rightTree, _, derives.binary op rightDerives,
    spells.append (Spells.cons (forall_mem_nil _) delimited rightSpells), ?_⟩
  rw [value, isValue, isRight, bind_some, bind_some, ← agrees op res right rfl, isPrepared]
  exact congrArg Except.toOption applied

theorem agrees_of_numbers {apply : BinaryOp → Number → Variant → Except Failure Variant}
    (notEquality : n ≠ 3)
    (applied : ∀ op res right, level op = n → (apply op res right).toOption =
      (toNumber right).bind fun right => (numberValue op res right).map Variant.dbl)
    (op : BinaryOp) (res right : Variant) (isLevel : level op = n) :
    ((variantConvertToDouble res).bind fun res => apply op res right).toOption =
      binaryValue op res right := by
  rw [toOption_bind, ← binaryValue_of_level_ne (isLevel ▸ notEquality)]
  exact congrArg _ (funext fun number => applied op number right isLevel)

theorem agrees1 (op : BinaryOp) (res right : Variant) (isLevel : level op = 1) :
    ((variantConvertToDouble res).bind fun res => apply1 op res right).toOption =
      binaryValue op res right := by
  refine agrees_of_numbers (by decide) (fun op res right isOne => ?_) op res right isLevel
  cases op
  case or => exact apply1_eq res right
  all_goals cases isOne

theorem agrees2 (op : BinaryOp) (res right : Variant) (isLevel : level op = 2) :
    ((variantConvertToDouble res).bind fun res => apply2 op res right).toOption =
      binaryValue op res right := by
  refine agrees_of_numbers (by decide) (fun op res right isTwo => ?_) op res right isLevel
  cases op
  case and => exact apply2_eq res right
  all_goals cases isTwo

theorem agrees3 (op : BinaryOp) (res right : Variant) (isLevel : level op = 3) :
    ((Except.ok res : Except Failure Variant).bind fun res => apply3 op res right).toOption =
      binaryValue op res right :=
  apply3_eq isLevel res right

theorem agrees4 (op : BinaryOp) (res right : Variant) (isLevel : level op = 4) :
    ((variantConvertToDouble res).bind fun res => apply4 op res right).toOption =
      binaryValue op res right :=
  agrees_of_numbers (by decide) (fun _ res right isFour => apply4_eq isFour res right) op res
    right isLevel

theorem agrees5 (op : BinaryOp) (res right : Variant) (isLevel : level op = 5) :
    ((variantConvertToDouble res).bind fun res => apply5 op res right).toOption =
      binaryValue op res right :=
  agrees_of_numbers (by decide) (fun _ res right isFive => apply5_eq isFive res right) op res
    right isLevel

theorem agrees6 (op : BinaryOp) (res right : Variant) (isLevel : level op = 6) :
    ((variantConvertToDouble res).bind fun res => apply6 op res right).toOption =
      binaryValue op res right :=
  agrees_of_numbers (by decide) (fun _ res right isSix => apply6_eq isSix res right) op res
    right isLevel

theorem termAt_sound (sound : SoundInside nesting inner) :
    ∀ n, 0 < n → n ≤ 9 → Sound nesting n (termAt inner n) := by
  have sound7 := term7_sound sound
  have sound6 : Sound nesting 6 (termAt inner 6) := level_sound (by decide) sound7 agrees6
  have sound5 : Sound nesting 5 (termAt inner 5) := level_sound (by decide) sound6 agrees5
  have sound4 : Sound nesting 4 (termAt inner 4) := level_sound (by decide) sound5 agrees4
  have sound3 : Sound nesting 3 (termAt inner 3) := level_sound (by decide) sound4 agrees3
  have sound2 : Sound nesting 2 (termAt inner 2) := level_sound (by decide) sound3 agrees2
  have sound1 : Sound nesting 1 (termAt inner 1) := level_sound (by decide) sound2 agrees1
  intro n positive bounded
  interval_cases n
  · exact sound1
  · exact sound2
  · exact sound3
  · exact sound4
  · exact sound5
  · exact sound6
  · exact sound7
  · exact term8_sound sound
  · exact term9_sound sound

theorem evaluateTerm1_sound (nesting : Nat) : SoundInside nesting (evaluateTerm1 nesting) := by
  induction nesting with
  | zero =>
    intro text variant rest read
    cases read
  | succ deeper ih =>
    intro text variant rest read
    exact ⟨deeper, rfl, termAt_sound ih 1 (by decide) (by decide) text variant rest read⟩

/-! ## Renderings are evaluated -/

/-- What a level does after its first operand. -/
def chainAt (inner : Text → Parsed Variant) (n : Nat) (variant : Variant) (rest : Text) :
    Parsed Variant :=
  match n with
  | 6 =>
    OperatorChain.chain operator6 variantConvertToDouble (termAt inner 7) apply6 rest.length
      variant rest
  | 5 =>
    OperatorChain.chain operator5 variantConvertToDouble (termAt inner 6) apply5 rest.length
      variant rest
  | 4 =>
    OperatorChain.chain operator4 variantConvertToDouble (termAt inner 5) apply4 rest.length
      variant rest
  | 3 => OperatorChain.chain operator3 .ok (termAt inner 4) apply3 rest.length variant rest
  | 2 =>
    OperatorChain.chain operator2 variantConvertToDouble (termAt inner 3) apply2 rest.length
      variant rest
  | 1 =>
    OperatorChain.chain operator1 variantConvertToDouble (termAt inner 2) apply1 rest.length
      variant rest
  | _ => .ok (variant, rest)

variable {variant : Variant}

theorem termAt_eq_chainAt (inner : Text → Parsed Variant) (positive : 0 < n) (isLevel : n ≤ 6)
    (text : Text) :
    termAt inner n text =
      (termAt inner (n + 1) text).bind fun (variant, rest) => chainAt inner n variant rest := by
  interval_cases n <;> rfl

theorem chainAt_of_none (inner : Text → Parsed Variant) (n : Nat) (variant : Variant)
    (stops : operatorAt n rest = none) : chainAt inner n variant rest = .ok (variant, rest) := by
  unfold chainAt
  split
  all_goals first | rfl | exact OperatorChain.chain_of_none stops _ _

theorem chain_turn {Left : Type} {left : Variant → Except Failure Left}
    {operand : Text → Parsed Variant} {apply : BinaryOp → Left → Variant → Except Failure Variant}
    (sound : Sound nesting (n + 1) operand)
    (agrees : ∀ op res right, level op = n →
      ((left res).bind fun res => apply op res right).toOption = binaryValue op res right)
    {after : Text} (found : operatorAt n text = some (op, after)) (variant : Variant) :
    (OperatorChain.chain (operatorAt n) left operand apply text.length variant text).toOption =
      (operand after).toOption.bind fun (right, rest) =>
      (binaryValue op variant right).bind fun variant =>
        (OperatorChain.chain (operatorAt n) left operand apply rest.length variant
          rest).toOption := by
  obtain ⟨isLevel, -, -⟩ := operatorAt_eq_some found
  rw [OperatorChain.chain_step (consumes_operatorAt n) sound.shortens found]
  have agreed := fun right => agrees op variant right isLevel
  cases prepared : left variant with
  | error failure =>
    have missing (right : Variant) : binaryValue op variant right = none := by
      rw [← agreed right, prepared]
      rfl
    cases operand after with
    | error failure => rfl
    | ok read =>
      obtain ⟨right, rest⟩ := read
      change none = (binaryValue op variant right).bind _
      rw [missing]
      rfl
  | ok res =>
    cases operandRead : operand after with
    | error failure => rfl
    | ok read =>
      obtain ⟨right, rest⟩ := read
      have applied := agreed right
      rw [prepared] at applied
      change ((apply op res right).bind _).toOption = (binaryValue op variant right).bind _
      rw [toOption_bind, ← applied]
      rfl

theorem chainAt_turn (sound : SoundInside nesting inner) {after : Text}
    (found : operatorAt n text = some (op, after)) (variant : Variant) :
    (chainAt inner n variant text).toOption =
      (termAt inner (n + 1) after).toOption.bind fun (right, rest) =>
      (binaryValue op variant right).bind fun variant =>
        (chainAt inner n variant rest).toOption := by
  have operands := termAt_sound sound
  obtain ⟨rfl, -, -⟩ := operatorAt_eq_some found
  cases shape : level op with
  | zero => cases op <;> cases shape
  | succ lower =>
    have bounded : lower < 6 := by
      cases op <;> cases shape <;> decide
    rw [shape] at found
    interval_cases lower
    · exact chain_turn (operands 2 (by decide) (by decide)) agrees1 found variant
    · exact chain_turn (operands 3 (by decide) (by decide)) agrees2 found variant
    · exact chain_turn (operands 4 (by decide) (by decide)) agrees3 found variant
    · exact chain_turn (operands 5 (by decide) (by decide)) agrees4 found variant
    · exact chain_turn (operands 6 (by decide) (by decide)) agrees5 found variant
    · exact chain_turn (operands 7 (by decide) (by decide)) agrees6 found variant

/-- The tokens that a tree of a level may start with. -/
def Starts (n : Nat) : Token → Prop
  | .binary _ | .closing => False
  | .not => n ≤ 7
  | .minus => n ≤ 8
  | _ => True

theorem level_le (op : BinaryOp) : level op ≤ 6 := by
  cases op <;> decide

theorem derives_le {tree : Tree} {tokens : List Token}
    (derives : Derives nesting n tree tokens) : n ≤ 9 := by
  induction derives with
  | binary op _ _ _ _ => exact Nat.le_trans (level_le op) (by decide)
  | tighter _ _ ih => exact Nat.le_of_succ_le ih
  | _ => decide

theorem Starts.weaken {token : Token} (starts : Starts (n + 1) token) : Starts n token := by
  cases token with
  | not => exact Nat.le_of_succ_le starts
  | minus => exact Nat.le_of_succ_le starts
  | _ => exact starts

theorem starts_of_derives {tree : Tree} {tokens : List Token}
    (derives : Derives nesting n tree tokens) :
    ∃ token others, tokens = token :: others ∧ Starts n token := by
  induction derives with
  | number => exact ⟨_, _, rfl, trivial⟩
  | string => exact ⟨_, _, rfl, trivial⟩
  | unknown => exact ⟨_, _, rfl, trivial⟩
  | parentheses => exact ⟨_, _, rfl, trivial⟩
  | minus => exact ⟨_, _, rfl, Nat.le_refl 8⟩
  | not => exact ⟨_, _, rfl, Nat.le_refl 7⟩
  | binary op _ _ ih _ =>
    obtain ⟨token, others, rfl, starts⟩ := ih
    exact ⟨token, _, rfl, starts⟩
  | tighter _ _ ih =>
    obtain ⟨token, others, rfl, starts⟩ := ih
    exact ⟨token, others, rfl, starts.weaken⟩

theorem not_isComparison {token : Token} {c : Char} (starts : Starts n token)
    (isFirst : startOf token c) : isComparison c = false := by
  cases token with
  | number number =>
    rw [Bool.eq_false_iff]
    intro isOne
    rw [isComparison, Bool.or_eq_true, decide_eq_true_eq, decide_eq_true_eq] at isOne
    change isMantissa c = true at isFirst
    obtain rfl | rfl := isOne
    all_goals exact absurd isFirst (by decide)
  | binary op => cases starts
  | closing => cases starts
  | _ =>
    obtain rfl := isFirst
    rfl

/-- A comparison sign before an operand is a whole operator. -/
theorem stopsAt_isComparison {tree : Tree} {tokens : List Token}
    (derives : Derives nesting n tree tokens) (spells : Spells tokens text rest) :
    StopsAt isComparison text := by
  obtain ⟨token, others, rfl, starts⟩ := starts_of_derives derives
  cases spells with
  | @cons blanks after _ _ _ areBlank delimited later =>
    intro c isFirst
    cases blanks with
    | nil =>
      obtain ⟨first, rest, shape, isStart⟩ := tokenText_eq_cons token
      rw [nil_append, shape, cons_append, head?_cons, mem_some_iff] at isFirst
      exact isFirst ▸ not_isComparison starts isStart
    | cons blank others =>
      rw [cons_append, head?_cons, mem_some_iff] at isFirst
      have isBlank := areBlank blank mem_cons_self
      subst isFirst
      simp only [Evaluate.isBlank, Bool.or_eq_true, decide_eq_true_eq] at isBlank
      obtain ((rfl | rfl) | rfl) | rfl := isBlank
      all_goals rfl

theorem skipBlank_of_spells (spells : Spells [] text rest) : skipBlank text = rest := by
  cases spells with
  | nil areBlank stops => exact skipBlank_append areBlank stops

theorem evaluateOperand_number (inner : Text → Parsed Variant) {c : Char} {others : Text}
    {number : Number} (isOther : c ≠ '(' ∧ c ≠ '"')
    (read : evaluateNumber (c :: others) = .ok (number, rest)) :
    evaluateOperand inner (c :: others) = .ok (.dbl number, rest) := by
  rw [evaluateOperand]
  · simp only [read]
  · nofun
  · exact fun _ same => isOther.1 (cons.inj same).1
  · exact fun _ same => isOther.2 (cons.inj same).1

theorem isMantissa_ne {c : Char} (isOne : isMantissa c = true) : c ≠ '(' ∧ c ≠ '"' := by
  constructor
  · rintro rfl
    exact absurd isOne (by decide)
  · rintro rfl
    exact absurd isOne (by decide)

theorem evaluateTerm9_of_operand {start after : Text} (shape : skipBlank text = start)
    (read : evaluateOperand inner start = .ok (variant, after)) (later : Spells [] after rest) :
    evaluateTerm9 inner text = .ok (variant, rest) := by
  rw [evaluateTerm9, shape, read]
  change Except.ok (variant, skipBlank after) = _
  rw [skipBlank_of_spells later]

theorem evaluateTerm9_number (inner : Text → Parsed Variant) (number : SuffixedNumber)
    (spells : Spells [.number number] text rest) :
    evaluateTerm9 inner text = .ok (.dbl (.known number.value), rest) := by
  obtain ⟨after, shape, delimited, later⟩ := spells.uncons
  refine evaluateTerm9_of_operand shape ?_ later
  have read := evaluateNumber_number number delimited
  obtain ⟨first, others, start, isOne⟩ := number.text_eq_cons
  rw [tokenText, start, cons_append]
  rw [start, cons_append] at read
  exact evaluateOperand_number inner (isMantissa_ne isOne) read

theorem evaluateTerm9_unknown (inner : Text → Parsed Variant) {digits : Text}
    (areDigits : ∀ c ∈ digits, c.isDigit = true) (nonempty : digits ≠ [])
    (spells : Spells [.unknown digits] text rest) :
    evaluateTerm9 inner text = .ok (.dbl (.unknown (digitsValue digits)), rest) := by
  obtain ⟨after, shape, delimited, later⟩ := spells.uncons
  refine evaluateTerm9_of_operand shape ?_ later
  exact evaluateOperand_number inner (by decide)
    (evaluateNumber_unknown areDigits nonempty delimited)

theorem evaluateTerm9_string (inner : Text → Parsed Variant) {raw string : Text}
    (quoted : Quoted raw string) (spells : Spells [.string raw] text rest) :
    evaluateTerm9 inner text = .ok (.str string, rest) := by
  obtain ⟨after, shape, delimited, later⟩ := spells.uncons
  rw [tokenText, cons_append, append_assoc, singleton_append] at shape
  refine evaluateTerm9_of_operand shape ?_ later
  have ends : isNumberDelimiter (headChar after) = true := delimited
  rw [evaluateOperand, evaluateString, scanString_quoted quoted]
  simp only [Except.map, Except.bind, tail_cons, ends, Bool.not_true, Bool.and_false,
    Bool.false_eq_true, if_false, copyString_quoted quoted]

/-- No operator tighter than the level follows. -/
def NoTighter (n : Nat) (rest : Text) : Prop :=
  ∀ m, n < m → operatorAt m rest = none

theorem operatorAt_closing (n : Nat) (after : Text) : operatorAt n (')' :: after) = none := by
  unfold operatorAt
  split
  all_goals rfl

theorem noTighter_of_le (isOperand : 6 ≤ n) (rest : Text) : NoTighter n rest := by
  intro m tighter
  obtain ⟨further, rfl⟩ := Nat.exists_eq_add_of_le (Nat.lt_of_le_of_lt isOperand tighter)
  rw [Nat.add_comm]
  rfl

theorem toOption_unary {operand : Parsed Variant} {result : Option Variant}
    (change : Number → Number)
    (read : operand.toOption = result.bind fun variant => some (variant, rest)) :
    (operand.bind fun (res, rest) =>
      (variantConvertToDouble res).map fun number => (Variant.dbl (change number), rest)).toOption =
      ((result.bind toNumber).map fun number => Variant.dbl (change number)).bind
        fun variant => some (variant, rest) := by
  rw [toOption_bind, read]
  cases result with
  | none => rfl
  | some variant =>
    rw [bind_some, bind_some, bind_some, toOption_map, toOption_variantConvertToDouble]
    cases toNumber variant <;> rfl

theorem evaluateTerm9_opening {after middle : Text} {result : Option Variant}
    (shape : skipBlank text = '(' :: after)
    (read : (inner after).toOption = result.bind fun variant => some (variant, ')' :: middle))
    (later : Spells [] middle rest) :
    (evaluateTerm9 inner text).toOption = result.bind fun variant => some (variant, rest) := by
  rw [evaluateTerm9, shape, toOption_map, evaluateOperand, toOption_bind, read]
  cases result with
  | none => rfl
  | some variant =>
    change some (variant, skipBlank middle) = some (variant, rest)
    rw [skipBlank_of_spells later]

theorem evaluateTerm8_minus (inner : Text → Parsed Variant) {after : Text}
    (shape : skipBlank text = '-' :: after) :
    evaluateTerm8 inner text =
      (evaluateTerm9 inner after).bind fun (res, rest) =>
        (variantConvertToDouble res).map fun number => (.dbl (negate number), rest) := by
  rw [evaluateTerm8, shape]
  rfl

theorem evaluateTerm7_not (inner : Text → Parsed Variant) {after : Text}
    (shape : skipBlank text = ['n', 'o', 't'] ++ after)
    (delimited : isOperatorDelimiter (headChar after) = true) :
    evaluateTerm7 inner text =
      (evaluateTerm8 inner after).bind fun (res, rest) =>
        (variantConvertToDouble res).map fun number => (.dbl (negateTruth number), rest) := by
  have dropped : (['n', 'o', 't'] ++ after).drop 3 = after := rfl
  rw [evaluateTerm7, shape, isPrefixOf_append, dropped, delimited]
  rfl

theorem skipBlank_skipBlank (text : Text) : skipBlank (skipBlank text) = skipBlank text :=
  skipBlank_of_spells (spells_skipBlank text).skipBlank

theorem evaluateTerm9_skipBlank (inner : Text → Parsed Variant) (text : Text) :
    evaluateTerm9 inner (skipBlank text) = evaluateTerm9 inner text := by
  rw [evaluateTerm9, evaluateTerm9, skipBlank_skipBlank]

theorem evaluateTerm8_skipBlank (inner : Text → Parsed Variant) (text : Text) :
    evaluateTerm8 inner (skipBlank text) = evaluateTerm8 inner text := by
  rw [evaluateTerm8, evaluateTerm8, skipBlank_skipBlank]

/-- The first character of a token that is no minus sign. -/
theorem evaluateTerm8_operand (inner : Text → Parsed Variant) {tree : Tree} {tokens : List Token}
    (derives : Derives nesting 9 tree tokens) (spells : Spells tokens text rest) :
    evaluateTerm8 inner text = evaluateTerm9 inner text := by
  obtain ⟨token, others, rfl, starts⟩ := starts_of_derives derives
  obtain ⟨after, shape, -, -⟩ := spells.uncons
  obtain ⟨c, characters, isText, isStart⟩ := tokenText_eq_cons token
  rw [isText, cons_append] at shape
  have notMinus : c ≠ '-' := by
    rintro rfl
    cases token with
    | number number => exact Bool.false_ne_true isStart
    | minus => exact Nat.not_succ_le_self 8 starts
    | binary op => exact starts
    | _ => simp [startOf] at isStart
  rw [← evaluateTerm9_skipBlank, evaluateTerm8, shape]
  split
  next same => exact absurd (cons.inj same).1 notMinus
  next => rfl

theorem evaluateTerm7_operand (inner : Text → Parsed Variant) {tree : Tree} {tokens : List Token}
    (derives : Derives nesting 8 tree tokens) (spells : Spells tokens text rest) :
    evaluateTerm7 inner text = evaluateTerm8 inner text := by
  obtain ⟨token, others, rfl, starts⟩ := starts_of_derives derives
  obtain ⟨after, shape, -, -⟩ := spells.uncons
  obtain ⟨c, characters, isText, isStart⟩ := tokenText_eq_cons token
  rw [isText, cons_append] at shape
  have notWord : ¬(['n', 'o', 't'].isPrefixOf (c :: (characters ++ after)) &&
      isOperatorDelimiter (headChar ((c :: (characters ++ after)).drop 3))) = true := by
    intro isWord
    obtain ⟨tail, same⟩ := isPrefixOf_iff_prefix.mp (Bool.and_eq_true_iff.mp isWord).1
    obtain rfl := (cons.inj same).1
    cases token with
    | number number => exact Bool.false_ne_true isStart
    | not => exact Nat.not_succ_le_self 7 starts
    | binary op => exact starts
    | _ => simp [startOf] at isStart
  rw [← evaluateTerm8_skipBlank, evaluateTerm7, shape]
  exact if_neg notWord

/-- A rendering is evaluated to its value, with the operators of the level still to come. -/
theorem evaluates_of_derives {tree : Tree} {tokens : List Token}
    (derives : Derives nesting n tree tokens) (spells : Spells tokens text rest)
    (stops : NoTighter n rest) :
    (termAt (evaluateTerm1 nesting) n text).toOption =
      (value tree).bind fun variant =>
        (chainAt (evaluateTerm1 nesting) n variant rest).toOption := by
  induction derives generalizing text rest with
  | number number => exact congrArg Except.toOption (evaluateTerm9_number _ number spells)
  | string quoted => exact congrArg Except.toOption (evaluateTerm9_string _ quoted spells)
  | unknown areDigits nonempty =>
    exact congrArg Except.toOption (evaluateTerm9_unknown _ areDigits nonempty spells)
  | @parentheses nesting tree tokens inner ih =>
    obtain ⟨after, shape, -, later⟩ := spells.uncons
    obtain ⟨middle, before, closing⟩ := later.split
    obtain ⟨afterClosing, rfl, -, later⟩ := closing.uncons_of_stops before.stops
    have read := ih before fun m _ => operatorAt_closing m afterClosing
    have ends := fun variant => congrArg Except.toOption
      (chainAt_of_none (evaluateTerm1 nesting) 1 variant (operatorAt_closing 1 afterClosing))
    exact evaluateTerm9_opening shape (read.trans (congrArg _ (funext ends))) later
  | @minus nesting tree tokens operand ih =>
    obtain ⟨after, shape, -, later⟩ := spells.uncons
    have read := ih later (noTighter_of_le (by decide) rest)
    refine Eq.trans ?_ (toOption_unary negate read)
    exact congrArg Except.toOption (evaluateTerm8_minus _ shape)
  | @not nesting tree tokens operand ih =>
    obtain ⟨after, shape, delimited, later⟩ := spells.uncons
    have read := ih later (noTighter_of_le (by decide) rest)
    refine Eq.trans ?_ (toOption_unary negateTruth read)
    exact congrArg Except.toOption (evaluateTerm7_not _ shape delimited)
  | @binary nesting op left right before after first second firstInduction secondInduction =>
    obtain ⟨middle, beforeOperator, later⟩ := spells.split
    obtain ⟨fromRight, rfl, delimited, later⟩ := later.uncons_of_stops beforeOperator.stops
    have atOperator : NoTighter (level op) (opText op ++ fromRight) :=
      fun m tighter => operatorAt_tighter tighter fromRight
    have found := operatorAt_opText delimited (stopsAt_isComparison second later)
    have atRight : NoTighter (level op + 1) rest := fun m tighter => stops m (by omega)
    have rightRead := secondInduction later atRight
    have turn := fun variant => chainAt_turn (evaluateTerm1_sound nesting) found variant
    rw [tokenText] at beforeOperator
    rw [firstInduction beforeOperator atOperator, value]
    cases value left with
    | none => rfl
    | some leftValue =>
      rw [bind_some, bind_some, turn, rightRead]
      cases value right with
      | none => rfl
      | some rightValue =>
        have ends := chainAt_of_none (evaluateTerm1 nesting) (level op + 1) rightValue
          (stops (level op + 1) (Nat.lt_succ_self _))
        rw [bind_some, bind_some, ends]
        rfl
  | @tighter nesting n tree tokens positive inner ih =>
    have read := ih spells fun m tighter => stops m (by omega)
    by_cases isBinary : n ≤ 6
    · have ends := fun variant => chainAt_of_none (evaluateTerm1 nesting) (n + 1) variant
        (stops (n + 1) (Nat.lt_succ_self _))
      rw [termAt_eq_chainAt _ positive isBinary, toOption_bind, read]
      cases value tree with
      | none => rfl
      | some variant =>
        rw [bind_some, bind_some, ends]
        rfl
    · obtain rfl | rfl : n = 7 ∨ n = 8 := by
        have bounded := derives_le inner
        omega
      · refine Eq.trans ?_ read
        exact congrArg Except.toOption (evaluateTerm7_operand _ inner spells)
      · refine Eq.trans ?_ read
        exact congrArg Except.toOption (evaluateTerm8_operand _ inner spells)

end Zabbix.Expression.Reading
