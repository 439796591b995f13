import Zabbix.Expression.Reading

/-!
# The origin of Unknown results

The evaluator with the index variables of its functions.  A number still says which token an
Unknown came from, but the variables are set only where the source sets them.
-/

namespace Zabbix.Expression.Origin

open Common.Text Numbers Evaluate Grammar Tokens Reading Library List Option
open Library.OperatorChain (bind_eq_ok)

/-- `atoi` of digits: `strtol` ends at its greatest value, and an `int` is kept of it. -/
def atoi (number : Nat) : Int :=
  ((min number (2 ^ 63 - 1) : Nat) : Int).bmod (2 ^ 32)

/-- A function of the evaluator: `*unknown_idx` before the call and the position are given. -/
abbrev Term := Int → Text → Parsed (Variant × Int)

/-! ## Operands -/

/-- The part of `evaluate_term9` before the blanks at its end. -/
def evaluateOperand (evaluateTerm1 : Term) (unknownIdx : Int) (ptr : Text) :
    Parsed (Variant × Int) :=
  match ptr with
  | '(' :: rest =>
    (evaluateTerm1 unknownIdx rest).bind fun (res, rest) =>
      match rest with
      | ')' :: rest => .ok (res, rest)
      | rest => .error (.expectedClosing rest)
  | ptr =>
    -- Without parentheses no other function is called.
    (Evaluate.evaluateOperand (fun _ => .error .unexpectedEnd) ptr).map fun (res, rest) =>
      match res with
      | .dbl (.unknown number) => ((res, atoi number), rest)
      | res => ((res, unknownIdx), rest)

def evaluateTerm9 (evaluateTerm1 : Term) (unknownIdx : Int) (ptr : Text) :
    Parsed (Variant × Int) :=
  (evaluateOperand evaluateTerm1 unknownIdx (skipBlank ptr)).map fun (res, rest) =>
    (res, skipBlank rest)

def changed (change : Number → Number) (operand : Parsed (Variant × Int)) :
    Parsed (Variant × Int) :=
  operand.bind fun ((res, unknownIdx), rest) =>
    (variantConvertToDouble res).map fun number => ((.dbl (change number), unknownIdx), rest)

def evaluateTerm8 (evaluateTerm1 : Term) (unknownIdx : Int) (ptr : Text) :
    Parsed (Variant × Int) :=
  match skipBlank ptr with
  | '-' :: rest => changed negate (evaluateTerm9 evaluateTerm1 unknownIdx rest)
  | ptr => evaluateTerm9 evaluateTerm1 unknownIdx ptr

def evaluateTerm7 (evaluateTerm1 : Term) (unknownIdx : Int) (ptr : Text) :
    Parsed (Variant × Int) :=
  let ptr := skipBlank ptr
  if ['n', 'o', 't'].isPrefixOf ptr && isOperatorDelimiter (headChar (ptr.drop 3)) then
    changed negateTruth (evaluateTerm8 evaluateTerm1 unknownIdx (ptr.drop 3))
  else evaluateTerm8 evaluateTerm1 unknownIdx ptr

/-! ## Binary operators -/

/-- `*unknown_idx` and the variables of one call. -/
structure Indexes where
  unknownIdx : Int
  resIdx : Int
  operIdx : Int

def Indexes.ofOperand (idx : Indexes) : Indexes :=
  { idx with unknownIdx := idx.operIdx, resIdx := idx.operIdx }

def Indexes.ofResult (idx : Indexes) : Indexes :=
  { idx with unknownIdx := idx.resIdx }

/-- The known operand makes the result of `and` or `or` known. -/
def absorbs (op : BinaryOp) (value : ℚ) : Bool :=
  match op with
  | .and => zbxDoubleCompare value 0
  | .or => !zbxDoubleCompare value 0
  | _ => false

/-- The assignments in the loops, but for `evaluate_term3`. -/
def assign (op : BinaryOp) (idx : Indexes) : Number → Number → Indexes
  | .unknown _, .unknown _ => idx.ofOperand
  | .unknown _, .known value => if absorbs op value then idx else idx.ofResult
  | .known value, .unknown _ => if absorbs op value then idx else idx.ofOperand
  | .known _, .known _ => idx

/-- The assignments in the loop of `evaluate_term3`, which does not set `res_idx`. -/
def assign3 (_ : BinaryOp) (idx : Indexes) : Variant → Variant → Indexes
  | .dbl (.unknown _), _ => idx
  | _, .dbl (.unknown _) => { idx with unknownIdx := idx.operIdx }
  | _, _ => idx

section

variable {Left : Type} (operator : Text → Option (BinaryOp × Text))
variable (left : Variant → Except Failure Left) (operand : Term)
variable (apply : BinaryOp → Left → Variant → Except Failure Variant)
variable (assign : BinaryOp → Indexes → Left → Left → Indexes)

/-- The loop over the operators of a level. -/
def chain : Nat → Variant → Indexes → Text → Parsed (Variant × Int)
  | 0, res, idx, ptr => .ok ((res, idx.unknownIdx), ptr)
  | fuel + 1, res, idx, ptr =>
    match operator ptr with
    | none => .ok ((res, idx.unknownIdx), ptr)
    | some (op, ptr) =>
      (left res).bind fun value =>
      (operand idx.operIdx ptr).bind fun ((right, operIdx), ptr) =>
      (left right).bind fun other =>
      (apply op value right).bind fun res =>
        chain fuel res (assign op { idx with operIdx } value other) ptr

/-- One level, with the invalid values that its variables begin with. -/
def level (resIdx operIdx unknownIdx : Int) (ptr : Text) : Parsed (Variant × Int) :=
  (operand resIdx ptr).bind fun ((res, resIdx), ptr) =>
    let unknownIdx :=
      match res with
      | .dbl (.unknown _) => resIdx
      | _ => unknownIdx
    chain operator left operand apply assign ptr.length res { unknownIdx, resIdx, operIdx } ptr

end

def evaluateTerm6 (evaluateTerm1 : Term) : Term :=
  level operator6 variantConvertToDouble (evaluateTerm7 evaluateTerm1) apply6 assign (-1) (-2)

def evaluateTerm5 (evaluateTerm1 : Term) : Term :=
  level operator5 variantConvertToDouble (evaluateTerm6 evaluateTerm1) apply5 assign (-3) (-4)

def evaluateTerm4 (evaluateTerm1 : Term) : Term :=
  level operator4 variantConvertToDouble (evaluateTerm5 evaluateTerm1) apply4 assign (-5) (-6)

def evaluateTerm3 (evaluateTerm1 : Term) : Term :=
  level operator3 .ok (evaluateTerm4 evaluateTerm1) apply3 assign3 (-7) (-8)

def evaluateTerm2 (evaluateTerm1 : Term) : Term :=
  level operator2 variantConvertToDouble (evaluateTerm3 evaluateTerm1) apply2 assign (-9) (-10)

/-- `evaluate_term1`, where `32 - level` is the first argument. -/
def evaluateTerm1 : Nat → Term
  | 0 => fun _ _ => .error .nestingTooDeep
  | deeper + 1 =>
    level operator1 variantConvertToDouble (evaluateTerm2 (evaluateTerm1 deeper)) apply1 assign
      (-11) (-12)

/-! ## The variables are set in time -/

variable {op : BinaryOp} {left right : Number} {number n : Nat} {inner : Term}
variable {plain : Text → Parsed Variant}

/-- The index is that of an Unknown result. -/
def Knows (res : Variant) (idx : Int) : Prop :=
  ∀ number, res = .dbl (.unknown number) → idx = atoi number

/-- The result is that without variables, and the index is that of the result. -/
def Tracks (read : Parsed (Variant × Int)) (plain : Parsed Variant) : Prop :=
  ∀ res idx rest, read = .ok ((res, idx), rest) → plain = .ok (res, rest) ∧ Knows res idx

variable (tracks : ∀ unknownIdx ptr, Tracks (inner unknownIdx ptr) (plain ptr))

include tracks

theorem operand_tracks (unknownIdx : Int) (ptr : Text) :
    Tracks (evaluateOperand inner unknownIdx ptr) (Evaluate.evaluateOperand plain ptr) := by
  intro res idx rest read
  unfold evaluateOperand at read
  split at read
  next afterOpening =>
    obtain ⟨⟨value, afterInner⟩, isInner, read⟩ := bind_eq_ok.mp read
    dsimp only at read
    split at read
    next afterClosing =>
      obtain ⟨rfl, rfl⟩ := Prod.mk.inj (Except.ok.inj read)
      obtain ⟨isPlain, knows⟩ := tracks _ _ _ _ _ isInner
      refine ⟨?_, knows⟩
      rw [Evaluate.evaluateOperand, isPlain]
      rfl
    next => cases read
  next notOpening =>
    obtain ⟨⟨value, after⟩, isOperand, same⟩ := map_eq_ok.mp read
    have isPlain : Evaluate.evaluateOperand plain ptr = .ok (value, after) := by
      rw [← isOperand]
      unfold Evaluate.evaluateOperand
      split
      next => rfl
      next rest => exact absurd rfl (notOpening rest)
      next => rfl
      next => rfl
    rw [isPlain]
    dsimp only at same
    split at same
    next origin =>
      obtain ⟨⟨rfl, rfl⟩, rfl⟩ := same
      exact ⟨rfl, by rintro _ ⟨⟩; rfl⟩
    next notUnknown =>
      obtain ⟨⟨rfl, rfl⟩, rfl⟩ := same
      exact ⟨rfl, fun number isUnknown => absurd isUnknown (notUnknown number)⟩

theorem term9_tracks (unknownIdx : Int) (ptr : Text) :
    Tracks (evaluateTerm9 inner unknownIdx ptr) (Evaluate.evaluateTerm9 plain ptr) := by
  intro res idx rest read
  obtain ⟨⟨value, after⟩, isOperand, same⟩ := map_eq_ok.mp read
  obtain ⟨rfl, rfl⟩ := Prod.mk.inj same
  obtain ⟨isPlain, knows⟩ := operand_tracks tracks _ _ _ _ _ isOperand
  refine ⟨?_, knows⟩
  rw [Evaluate.evaluateTerm9, isPlain]
  rfl

omit tracks

theorem unknown_of_toNumber {operand : Variant}
    (isNumber : toNumber operand = some (.unknown number)) : operand = .dbl (.unknown number) := by
  cases operand with
  | dbl other => rw [some.inj isNumber]
  | str text =>
    obtain ⟨_, -, same⟩ := map_eq_some_iff.mp isNumber
    cases same

theorem toNumber_of_convert {operand : Variant}
    (isNumber : variantConvertToDouble operand = .ok left) : toNumber operand = some left := by
  rw [← toOption_variantConvertToDouble, isNumber]
  rfl

theorem changed_tracks {change : Number → Number}
    (keeps : ∀ number other, change other = .unknown number → other = .unknown number)
    {operand : Parsed (Variant × Int)} {plain : Parsed Variant} (tracks : Tracks operand plain) :
    Tracks (changed change operand) (plain.bind fun (res, rest) =>
      (variantConvertToDouble res).map fun number => (.dbl (change number), rest)) := by
  intro res idx rest read
  obtain ⟨⟨⟨value, valueIdx⟩, after⟩, isOperand, read⟩ := bind_eq_ok.mp read
  obtain ⟨other, isNumber, same⟩ := map_eq_ok.mp read
  obtain ⟨⟨rfl, rfl⟩, rfl⟩ := same
  obtain ⟨isPlain, knows⟩ := tracks _ _ _ isOperand
  refine ⟨?_, fun number isUnknown => ?_⟩
  · rw [isPlain]
    change (variantConvertToDouble value).map _ = _
    rw [isNumber]
    rfl
  · obtain rfl := keeps number other (Variant.dbl.inj isUnknown)
    exact knows number (unknown_of_toNumber (toNumber_of_convert isNumber))

include tracks

theorem term8_tracks (unknownIdx : Int) (ptr : Text) :
    Tracks (evaluateTerm8 inner unknownIdx ptr) (Evaluate.evaluateTerm8 plain ptr) := by
  unfold evaluateTerm8
  split
  next rest isMinus =>
    rw [Evaluate.evaluateTerm8, isMinus]
    exact changed_tracks (by rintro _ (_ | _) same <;> simp_all [negate]) (term9_tracks tracks _ _)
  next notMinus =>
    have isPlain : Evaluate.evaluateTerm8 plain ptr =
        Evaluate.evaluateTerm9 plain (skipBlank ptr) := by
      unfold Evaluate.evaluateTerm8
      split
      next rest isMinus => exact absurd isMinus (notMinus rest)
      next => rfl
    rw [isPlain]
    exact term9_tracks tracks _ _

theorem term7_tracks (unknownIdx : Int) (ptr : Text) :
    Tracks (evaluateTerm7 inner unknownIdx ptr) (Evaluate.evaluateTerm7 plain ptr) := by
  unfold evaluateTerm7 Evaluate.evaluateTerm7
  dsimp only
  split_ifs
  · exact changed_tracks (by rintro _ (_ | _) same <;> simp_all [negateTruth])
      (term8_tracks tracks _ _)
  · exact term8_tracks tracks _ _

omit tracks

/-! ## Levels -/

/-- The variables for an Unknown result; where a level uses `res_idx`, it is set too. -/
def Carries (usesRes : Prop) (res : Variant) (idx : Indexes) : Prop :=
  ∀ number, res = .dbl (.unknown number) →
    idx.unknownIdx = atoi number ∧ (usesRes → idx.resIdx = atoi number)

variable {Left : Type} {convert : Variant → Except Failure Left} {usesRes : Prop}
variable {apply : BinaryOp → Left → Variant → Except Failure Variant}
variable {set : BinaryOp → Indexes → Left → Left → Indexes}

/-- One operator of a level keeps the variables right. -/
def Keeps (n : Nat) (convert : Variant → Except Failure Left)
    (apply : BinaryOp → Left → Variant → Except Failure Variant)
    (set : BinaryOp → Indexes → Left → Left → Indexes) (usesRes : Prop) : Prop :=
  ∀ op res right value other next idx, Grammar.level op = n → convert res = .ok value →
    convert right = .ok other → apply op value right = .ok next → Carries usesRes res idx →
      Knows right idx.operIdx → Carries usesRes next (set op idx value other)

include tracks

theorem chain_tracks (keeps : Keeps n convert apply set usesRes) (fuel : Nat) (res : Variant)
    (idx : Indexes) (ptr : Text) (carries : Carries usesRes res idx) :
    Tracks (chain (operatorAt n) convert inner apply set fuel res idx ptr)
      (OperatorChain.chain (operatorAt n) convert plain apply fuel res ptr) := by
  induction fuel generalizing res idx ptr with
  | zero =>
    rintro _ _ _ ⟨⟩
    exact ⟨rfl, fun number isUnknown => (carries number isUnknown).1⟩
  | succ fuel ih =>
    intro result final rest read
    rw [chain] at read
    cases found : operatorAt n ptr with
    | none =>
      rw [found] at read
      cases read
      exact ⟨OperatorChain.chain_of_none found _ _,
        fun number isUnknown => (carries number isUnknown).1⟩
    | some pair =>
      rw [found] at read
      obtain ⟨value, isValue, read⟩ := bind_eq_ok.mp read
      obtain ⟨⟨⟨right, operIdx⟩, after⟩, isRight, read⟩ := bind_eq_ok.mp read
      obtain ⟨other, isOther, read⟩ := bind_eq_ok.mp read
      obtain ⟨next, isNext, read⟩ := bind_eq_ok.mp read
      obtain ⟨isPlain, knows⟩ := tracks _ _ _ _ _ isRight
      have carriesNext := keeps _ _ _ _ _ _ { idx with operIdx } (operatorAt_eq_some found).1
        isValue isOther isNext carries knows
      obtain ⟨isResult, knowsResult⟩ := ih next _ after carriesNext _ _ _ read
      refine ⟨?_, knowsResult⟩
      rw [OperatorChain.chain_of_some found, isValue]
      simp only [Except.bind, isPlain, isNext]
      exact isResult

theorem level_tracks (keeps : Keeps n convert apply set usesRes)
    (resIdx operIdx unknownIdx : Int) (ptr : Text) :
    Tracks (level (operatorAt n) convert inner apply set resIdx operIdx unknownIdx ptr)
      (OperatorChain.level (operatorAt n) convert plain apply ptr) := by
  intro result final rest read
  obtain ⟨⟨⟨res, idx⟩, after⟩, isFirst, read⟩ := bind_eq_ok.mp read
  obtain ⟨isPlain, knows⟩ := tracks _ _ _ _ _ isFirst
  rw [OperatorChain.level, isPlain]
  refine chain_tracks tracks keeps _ _ _ _ ?_ _ _ _ read
  rintro number rfl
  exact ⟨knows number rfl, fun _ => knows number rfl⟩

omit tracks

theorem numberValue_unknown (isUnknown : numberValue op left right = some (.unknown number)) :
    (right = .unknown number ∧ ∀ idx, assign op idx left right = idx.ofOperand) ∨
      (left = .unknown number ∧ ∀ idx, assign op idx left right = idx.ofResult) := by
  cases left with
  | known first =>
    cases right with
    | known second => simp [numberValue] at isUnknown
    | unknown other =>
      cases isZero : zbxDoubleCompare first 0 <;> cases op <;>
        simp_all [numberValue, decidedBy, isNonzero, absorbs, assign]
  | unknown other =>
    cases right with
    | known second =>
      cases isZero : zbxDoubleCompare second 0 <;> cases op <;>
        simp_all [numberValue, decidedBy, isNonzero, absorbs, assign]
    | unknown second => exact .inl ⟨some.inj isUnknown, fun _ => rfl⟩

theorem equality_unknown {left right : Variant} (isEquality : Grammar.level op = 3)
    (isUnknown : binaryValue op left right = some (.dbl (.unknown number))) :
    left = .dbl (.unknown number) ∨ right = .dbl (.unknown number) ∧
      ∀ idx, assign3 op idx left right = { idx with unknownIdx := idx.operIdx } := by
  rw [binaryValue, if_pos isEquality] at isUnknown
  obtain (_ | _) | _ := left <;> obtain (_ | _) | _ := right <;>
    simp_all [Grammar.isUnknown, assign3]

theorem number_unknown {left right : Variant} (notEquality : Grammar.level op ≠ 3)
    (isUnknown : binaryValue op left right = some (.dbl (.unknown number))) :
    ∃ first second, toNumber left = some first ∧ toNumber right = some second ∧
      numberValue op first second = some (.unknown number) := by
  rw [binaryValue, if_neg notEquality] at isUnknown
  obtain ⟨first, isFirst, isUnknown⟩ := bind_eq_some_iff.mp isUnknown
  obtain ⟨second, isSecond, isUnknown⟩ := bind_eq_some_iff.mp isUnknown
  obtain ⟨_, isResult, ⟨⟩⟩ := map_eq_some_iff.mp isUnknown
  exact ⟨first, second, isFirst, isSecond, isResult⟩

theorem assign_keeps {apply : BinaryOp → Number → Variant → Except Failure Variant}
    (notEquality : n ≠ 3) (agrees : ∀ op res right, Grammar.level op = n →
      ((variantConvertToDouble res).bind fun res => apply op res right).toOption =
        binaryValue op res right) : Keeps n variantConvertToDouble apply assign True := by
  rintro op res right value other next idx isLevel isValue isOther isNext carries knows number rfl
  have isResult := agrees op res right isLevel
  rw [isValue] at isResult
  obtain ⟨first, second, isFirst, isSecond, isUnknown⟩ := number_unknown (isLevel ▸ notEquality)
    (isResult.symm.trans (congrArg Except.toOption isNext))
  obtain rfl := some.inj ((toNumber_of_convert isValue).symm.trans isFirst)
  obtain rfl := some.inj ((toNumber_of_convert isOther).symm.trans isSecond)
  obtain ⟨rfl, isSet⟩ | ⟨rfl, isSet⟩ := numberValue_unknown isUnknown
  · rw [isSet]
    have isIdx := knows number (unknown_of_toNumber isSecond)
    exact ⟨isIdx, fun _ => isIdx⟩
  · rw [isSet]
    have isIdx := (carries number (unknown_of_toNumber isFirst)).2 trivial
    exact ⟨isIdx, fun _ => isIdx⟩

theorem assign3_keeps : Keeps 3 .ok apply3 assign3 False := by
  rintro op res right _ _ next idx isLevel ⟨⟩ ⟨⟩ isNext carries knows number rfl
  refine ⟨?_, False.elim⟩
  have isResult := (agrees3 op res right isLevel).symm.trans (congrArg Except.toOption isNext)
  obtain rfl | ⟨rfl, isSet⟩ := equality_unknown isLevel isResult
  · exact (carries number rfl).1
  · rw [isSet]
    exact knows number rfl

/-- The variables of all levels are right. -/
theorem evaluateTerm1_tracks (nesting : Nat) : ∀ unknownIdx ptr,
    Tracks (evaluateTerm1 nesting unknownIdx ptr) (Evaluate.evaluateTerm1 nesting ptr) := by
  induction nesting with
  | zero => rintro _ _ _ _ _ ⟨⟩
  | succ deeper ih =>
    have tracks6 := level_tracks (term7_tracks ih) (assign_keeps (by decide) agrees6) (-1) (-2)
    have tracks5 := level_tracks tracks6 (assign_keeps (by decide) agrees5) (-3) (-4)
    have tracks4 := level_tracks tracks5 (assign_keeps (by decide) agrees4) (-5) (-6)
    have tracks3 := level_tracks tracks4 assign3_keeps (-7) (-8)
    have tracks2 := level_tracks tracks3 (assign_keeps (by decide) agrees2) (-9) (-10)
    exact level_tracks tracks2 (assign_keeps (by decide) agrees1) (-11) (-12)

/-! ## Tokens -/

/-- The numbers of the Unknown tokens which no operator around them absorbs. -/
def origins : Tree → List Nat
  | .number _ => []
  | .string _ => []
  | .unknown number => [number]
  | .minus operand => origins operand
  | .not operand => origins operand
  | .binary op left right =>
    match value (.binary op left right) with
    | some (.dbl (.unknown _)) => origins left ++ origins right
    | _ => []

theorem binaryValue_unknown {left right : Variant}
    (isUnknown : binaryValue op left right = some (.dbl (.unknown number))) :
    left = .dbl (.unknown number) ∨ right = .dbl (.unknown number) := by
  by_cases isEquality : Grammar.level op = 3
  · exact (equality_unknown isEquality isUnknown).imp_right And.left
  · obtain ⟨first, second, isFirst, isSecond, isUnknown⟩ := number_unknown isEquality isUnknown
    obtain ⟨rfl, -⟩ | ⟨rfl, -⟩ := numberValue_unknown isUnknown
    · exact .inr (unknown_of_toNumber isSecond)
    · exact .inl (unknown_of_toNumber isFirst)

theorem mem_origins {tree : Tree} (isValue : value tree = some (.dbl (.unknown number))) :
    number ∈ origins tree := by
  induction tree with
  | number | string => cases isValue
  | unknown other =>
    cases isValue
    exact mem_singleton_self _
  | minus operand ih | not operand ih =>
    obtain ⟨other, isNumber, same⟩ := map_eq_some_iff.mp isValue
    obtain ⟨variant, isVariant, isNumber⟩ := bind_eq_some_iff.mp isNumber
    cases other with
    | known => cases same
    | unknown =>
      cases same
      exact ih (isVariant.trans (congrArg some (unknown_of_toNumber isNumber)))
  | binary op left right ihLeft ihRight =>
    simp only [origins, isValue]
    obtain ⟨first, isFirst, isResult⟩ := bind_eq_some_iff.mp isValue
    obtain ⟨second, isSecond, isResult⟩ := bind_eq_some_iff.mp isResult
    obtain rfl | rfl := binaryValue_unknown isResult
    · exact mem_append_left _ (ihLeft isFirst)
    · exact mem_append_right _ (ihRight isSecond)

theorem token_of_mem_origins {nesting : Nat} {tree : Tree} {tokens : List Token}
    (derives : Derives nesting n tree tokens) (origin : number ∈ origins tree) :
    ∃ digits, Token.unknown digits ∈ tokens ∧ digitsValue digits = number := by
  induction derives with
  | number | string => cases origin
  | unknown => exact ⟨_, mem_singleton_self _, (mem_singleton.mp origin).symm⟩
  | parentheses _ ih | minus _ ih | not _ ih =>
    obtain ⟨digits, member, same⟩ := ih origin
    exact ⟨digits, by simp [member], same⟩
  | binary _ _ _ ihFirst ihSecond =>
    unfold origins at origin
    split at origin
    next =>
      obtain origin | origin := mem_append.mp origin
      · obtain ⟨digits, member, same⟩ := ihFirst origin
        exact ⟨digits, mem_append_left _ member, same⟩
      · obtain ⟨digits, member, same⟩ := ihSecond origin
        exact ⟨digits, by simp [member], same⟩
    next => cases origin
  | tighter _ _ ih => exact ih origin

theorem atoi_of_lt (fits : number < 2 ^ 31) : atoi number = number := by
  have isLess : number ≤ 2 ^ 63 - 1 := by omega
  unfold atoi
  rw [min_eq_left isLess]
  exact Int.bmod_eq_of_le (by omega) (by omega)

end Zabbix.Expression.Origin
