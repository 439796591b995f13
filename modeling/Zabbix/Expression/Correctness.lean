import Zabbix.Expression.Reading

/-!
# Whole expressions

`evaluate` and `evaluate_unknown` give the values of the trees that their texts render.  The
evaluator reads Unknown operands too, so that it accepts texts which no tree of numbers and
strings alone is rendered by.
-/

namespace Zabbix.Expression.Correctness

open Common.Text Numbers Evaluate Grammar Tokens Reading List Option
open Library.OperatorChain (bind_eq_ok)

variable {nesting : Nat} {tree : Tree} {text rest : Text} {tokens : List Token}

theorem noTighter_nil (n : Nat) : NoTighter n [] := by
  intro m _
  unfold operatorAt
  split
  all_goals rfl

theorem evaluateTerm1_of_renders (renders : Renders nesting tree text) :
    (evaluateTerm1 (nesting + 1) text).toOption =
      (value tree).bind fun variant => some (variant, []) := by
  obtain ⟨tokens, derives, spells⟩ := renders
  refine (evaluates_of_derives derives spells (noTighter_nil 1)).trans ?_
  refine congrArg _ (funext fun variant => ?_)
  rw [chainAt_of_none (evaluateTerm1 nesting) 1 variant rfl]
  rfl

theorem renders_of_evaluateTerm1 {variant : Variant}
    (read : evaluateTerm1 (nesting + 1) text = .ok (variant, [])) :
    ∃ tree, Renders nesting tree text ∧ value tree = some variant := by
  obtain ⟨deeper, same, tree, tokens, derives, spells, isValue⟩ :=
    evaluateTerm1_sound (nesting + 1) text variant [] read
  obtain rfl := Nat.succ.inj same
  exact ⟨tree, ⟨tokens, derives, spells⟩, isValue⟩

theorem toNumber_empty : toNumber (.str []) = none :=
  rfl

theorem toOption_evaluate_of_read (unknownMsgs : Option (List Text)) {operand : Option Variant}
    (read : (evaluateTerm1 maxLevel text).toOption =
      operand.bind fun variant => some (variant, [])) :
    (evaluate unknownMsgs text).toOption =
      (operand.bind toNumber).bind fun number =>
        match number with
        | .known value => some value
        | .unknown _ => none := by
  rw [evaluate, toOption_bind, read]
  cases operand with
  | none => rfl
  | some variant =>
    rw [bind_some, bind_some, bind_some, toOption_bind]
    by_cases isEmpty : variant = .str []
    · rw [if_pos isEmpty, isEmpty, toNumber_empty]
      rfl
    · rw [if_neg isEmpty, toOption_variantConvertToDouble]
      cases toNumber variant with
      | none => rfl
      | some number =>
        rw [bind_some, bind_some, if_neg (not_not_intro rfl)]
        cases number <;> rfl

theorem evaluate_of_renders (unknownMsgs : Option (List Text))
    (renders : Renders 31 tree text) :
    (evaluate unknownMsgs text).toOption = result tree :=
  toOption_evaluate_of_read unknownMsgs (evaluateTerm1_of_renders renders)

theorem renders_of_evaluate {unknownMsgs : Option (List Text)} {number : ℚ}
    (evaluated : evaluate unknownMsgs text = .ok number) : ∃ tree, Renders 31 tree text := by
  obtain ⟨⟨variant, rest⟩, read, evaluated⟩ := bind_eq_ok.mp evaluated
  obtain ⟨converted, -, evaluated⟩ := bind_eq_ok.mp evaluated
  split_ifs at evaluated with isWhole
  obtain rfl := not_not.mp isWhole
  obtain ⟨tree, renders, -⟩ := renders_of_evaluateTerm1 read
  exact ⟨tree, renders⟩

theorem evaluate_of_not_renders (unknownMsgs : Option (List Text))
    (notRendering : ¬∃ tree, Renders 31 tree text) :
    (evaluate unknownMsgs text).toOption = none := by
  cases evaluated : evaluate unknownMsgs text with
  | error failure => rfl
  | ok number => exact absurd (renders_of_evaluate evaluated) notRendering

/-- Renderings are evaluated to their values, and everything else is rejected. -/
theorem evaluate_correct (unknownMsgs : Option (List Text)) (text : Text) :
    (∀ tree, Renders 31 tree text → (evaluate unknownMsgs text).toOption = result tree) ∧
      ((¬∃ tree, Renders 31 tree text) → (evaluate unknownMsgs text).toOption = none) :=
  ⟨fun _ renders => evaluate_of_renders unknownMsgs renders,
    evaluate_of_not_renders unknownMsgs⟩

/-! ## Unknown operands -/

def hasUnknown : Tree → Bool
  | .number _ | .string _ => false
  | .unknown _ => true
  | .minus operand | .not operand => hasUnknown operand
  | .binary _ left right => hasUnknown left || hasUnknown right

theorem hasUnknown_of_mem {n : Nat} {digits : Text} (derives : Derives nesting n tree tokens)
    (member : Token.unknown digits ∈ tokens) : hasUnknown tree = true := by
  induction derives with
  | number | string => cases mem_singleton.mp member
  | unknown => rfl
  | parentheses _ ih =>
    simp only [mem_cons, mem_append, not_mem_nil, reduceCtorEq, or_false, false_or] at member
    exact ih member
  | minus _ ih =>
    simp only [mem_cons, reduceCtorEq, false_or] at member
    exact ih member
  | not _ ih =>
    simp only [mem_cons, reduceCtorEq, false_or] at member
    exact ih member
  | binary op _ _ firstInduction secondInduction =>
    simp only [mem_append, mem_cons, reduceCtorEq, false_or] at member
    rw [hasUnknown, Bool.or_eq_true]
    exact member.imp firstInduction secondInduction
  | tighter _ _ ih => exact ih member

theorem mem_iff_of_spells {c : Char} (spells : Spells tokens text []) (notBlank : isBlank c = false) :
    c ∈ text ↔ ∃ token ∈ tokens, c ∈ tokenText token := by
  have notMember {gap : Text} (areBlank : ∀ c ∈ gap, isBlank c = true) : c ∉ gap := by
    intro member
    exact Bool.false_ne_true (notBlank.symm.trans (areBlank c member))
  generalize isEnd : ([] : Text) = rest at spells
  induction spells with
  | nil areBlank stops =>
    subst isEnd
    simp [notMember areBlank]
  | cons areBlank delimited later ih =>
    simp only [mem_append, notMember areBlank, false_or, mem_cons, exists_eq_or_imp, ih isEnd]

theorem isNumberChar_of_mem_text {number : SuffixedNumber} {c : Char} (member : c ∈ number.text) :
    isMantissa c = true ∨ isExponent c = true ∨ isSign c = true ∨ c ∈ zbxUnitSymbols := by
  rw [SuffixedNumber.text, mem_append, mem_append] at member
  obtain inMantissa | inExponent | inSuffix := member
  · exact Or.inl (isMantissa_of_mem_mantissa number c inMantissa)
  · cases isExponent : number.exponent with
    | none =>
      rw [isExponent] at inExponent
      cases inExponent
    | some exponent =>
      rw [isExponent, elim_some, Exponent.text, mem_cons, mem_append, mem_toList] at inExponent
      obtain rfl | isSign | isDigit := inExponent
      · exact Or.inr (Or.inl exponent.isLetter)
      · exact Or.inr (Or.inr (Or.inl (exponent.isSigned c isSign)))
      · refine Or.inl ?_
        rw [isMantissa, exponent.areDigits c isDigit]
        rfl
  · exact Or.inr (Or.inr (Or.inr (number.isUnit c (mem_toList.mp inSuffix))))

theorem hasUnknown_of_letter (renders : Renders nesting tree text) (hasLetter : 'Z' ∈ text)
    (noQuote : '"' ∉ text) : hasUnknown tree = true := by
  obtain ⟨tokens, derives, spells⟩ := renders
  obtain ⟨token, isToken, member⟩ := (mem_iff_of_spells spells rfl).mp hasLetter
  cases token with
  | number number =>
    exact absurd (isNumberChar_of_mem_text member) (by decide)
  | string raw =>
    exact absurd ((mem_iff_of_spells spells rfl).mpr ⟨_, isToken, mem_cons_self⟩) noQuote
  | unknown digits => exact hasUnknown_of_mem derives isToken
  | binary op =>
    refine absurd member ?_
    cases op <;> decide
  | _ => exact absurd member (by decide)

/-- An Unknown operand is accepted where the other one decides. -/
theorem evaluate_accepts_unknown :
    ¬∀ (unknownMsgs : Option (List Text)) (text : Text),
      (∀ tree, hasUnknown tree = false → Renders 31 tree text →
        (evaluate unknownMsgs text).toOption = result tree) ∧
      ((¬∃ tree, hasUnknown tree = false ∧ Renders 31 tree text) →
        (evaluate unknownMsgs text).toOption = none) := by
  intro correct
  have rejected := (correct none (['0', ' ', 'a', 'n', 'd', ' '] ++ zbxUnknownStr ++ ['0'])).2
  have accepted : (evaluate none
      (['0', ' ', 'a', 'n', 'd', ' '] ++ zbxUnknownStr ++ ['0'])).toOption = some 0 := by
    decide +kernel
  rw [rejected] at accepted
  · cases accepted
  · rintro ⟨tree, noUnknown, renders⟩
    have has := hasUnknown_of_letter renders (by decide) (by decide)
    exact Bool.false_ne_true (noUnknown.symm.trans has)

end Zabbix.Expression.Correctness
