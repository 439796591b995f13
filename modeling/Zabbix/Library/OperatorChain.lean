import Mathlib.Data.List.Basic
import Mathlib.Data.Nat.Init

/-!
# Left associative operator chains

A level of a recursive descent parser reads an operand, and then as many operators of its
own with their right operands as there are.  The value so far is prepared before the right
operand is read.  The loop takes an amount of fuel, and the length of the rest is enough.
-/

namespace Zabbix.Library.OperatorChain

variable {Character Op Value Left Failure : Type*}

/-- What reading gives: a value and the rest of the text. -/
abbrev Reading (Failure Value Character : Type*) :=
  Except Failure (Value × List Character)

variable (operator : List Character → Option (Op × List Character))
variable (left : Value → Except Failure Left)
variable (operand : List Character → Reading Failure Value Character)
variable (apply : Op → Left → Value → Except Failure Value)

/-- The loop over the operators after the first operand. -/
def chain : Nat → Value → List Character → Reading Failure Value Character
  | 0, value, text => .ok (value, text)
  | fuel + 1, value, text =>
    match operator text with
    | none => .ok (value, text)
    | some (op, afterOperator) =>
      (left value).bind fun value =>
      (operand afterOperator).bind fun (right, rest) =>
      (apply op value right).bind fun value => chain fuel value rest

/-- One level: an operand, and the operators of the level. -/
def level (text : List Character) : Reading Failure Value Character :=
  (operand text).bind fun (value, rest) => chain operator left operand apply rest.length value rest

/-- A recognized operator is not empty. -/
def Consumes : Prop :=
  ∀ text op rest, operator text = some (op, rest) → rest.length < text.length

/-- Reading an operand does not put anything back. -/
def Shortens : Prop :=
  ∀ text value rest, operand text = .ok (value, rest) → rest.length ≤ text.length

theorem bind_eq_ok {First Second : Type*} {first : Except Failure First}
    {second : First → Except Failure Second} {result : Second} :
    first.bind second = .ok result ↔ ∃ value, first = .ok value ∧ second value = .ok result := by
  cases first with
  | error failure => simp [Except.bind]
  | ok value => simp [Except.bind]

variable {operator left operand apply}

theorem chain_of_none {text : List Character} (stops : operator text = none) (fuel : Nat)
    (value : Value) : chain operator left operand apply fuel value text = .ok (value, text) := by
  cases fuel with
  | zero => rfl
  | succ fuel =>
    rw [chain]
    simp only [stops]

theorem chain_of_some {text afterOperator : List Character} {op : Op}
    (found : operator text = some (op, afterOperator)) (fuel : Nat) (value : Value) :
    chain operator left operand apply (fuel + 1) value text =
      (left value).bind fun value =>
      (operand afterOperator).bind fun (right, rest) =>
      (apply op value right).bind fun value =>
        chain operator left operand apply fuel value rest := by
  rw [chain]
  simp only [found]

variable (consumes : Consumes operator)

include consumes

variable (shortens : Shortens operand)

include shortens

theorem chain_succ
    {fuel : Nat} {text : List Character} (enough : text.length ≤ fuel) (value : Value) :
    chain operator left operand apply (fuel + 1) value text =
      chain operator left operand apply fuel value text := by
  induction fuel generalizing text value with
  | zero =>
    have stops : operator text = none := by
      rw [Option.eq_none_iff_forall_ne_some]
      rintro ⟨op, rest⟩ found
      have shorter := consumes text op rest found
      omega
    rw [chain_of_none stops, chain_of_none stops]
  | succ fuel ih =>
    cases found : operator text with
    | none => rw [chain_of_none found, chain_of_none found]
    | some read =>
      obtain ⟨op, afterOperator⟩ := read
      have shorter := consumes text op afterOperator found
      rw [chain_of_some found, chain_of_some found]
      refine congrArg _ (funext fun prepared => ?_)
      cases readOperand : operand afterOperator with
      | error failure => rfl
      | ok read =>
        obtain ⟨right, rest⟩ := read
        have atMost := shortens afterOperator right rest readOperand
        change (apply op prepared right).bind _ = (apply op prepared right).bind _
        exact congrArg _ (funext fun next => ih (by omega) next)

theorem chain_fuel
    {fuel : Nat} {text : List Character} (enough : text.length ≤ fuel) (value : Value) :
    chain operator left operand apply fuel value text =
      chain operator left operand apply text.length value text := by
  induction fuel, enough using Nat.le_induction with
  | base => rfl
  | succ fuel more ih => rw [chain_succ consumes shortens more, ih]

/-- With enough fuel, one operator is one turn of the loop. -/
theorem chain_step {text afterOperator : List Character} {op : Op}
    (found : operator text = some (op, afterOperator)) (value : Value) :
    chain operator left operand apply text.length value text =
      (left value).bind fun value =>
      (operand afterOperator).bind fun (right, rest) =>
      (apply op value right).bind fun value =>
        chain operator left operand apply rest.length value rest := by
  have shorter := consumes text op afterOperator found
  obtain ⟨fuel, sameLength⟩ := Nat.exists_eq_add_of_lt (Nat.zero_lt_of_lt shorter)
  rw [Nat.zero_add] at sameLength
  rw [sameLength, chain_of_some found]
  refine congrArg _ (funext fun prepared => ?_)
  cases readOperand : operand afterOperator with
  | error failure => rfl
  | ok read =>
    obtain ⟨right, rest⟩ := read
    have atMost := shortens afterOperator right rest readOperand
    change (apply op prepared right).bind _ = (apply op prepared right).bind _
    exact congrArg _ (funext fun next => chain_fuel consumes shortens (by omega) next)

theorem chain_invariant {holds : Value → List Character → Prop}
    (kept : ∀ value text op afterOperator prepared right rest next, holds value text →
      operator text = some (op, afterOperator) → left value = .ok prepared →
      operand afterOperator = .ok (right, rest) → apply op prepared right = .ok next →
        holds next rest)
    {value result : Value} {text final : List Character} {fuel : Nat} (enough : text.length ≤ fuel)
    (atFirst : holds value text)
    (read : chain operator left operand apply fuel value text = .ok (result, final)) :
    holds result final ∧ operator final = none ∧ final.length ≤ text.length := by
  induction fuel generalizing value text with
  | zero =>
    obtain ⟨rfl, rfl⟩ := Prod.mk.inj (Except.ok.inj read)
    refine ⟨atFirst, ?_, Nat.le_refl _⟩
    rw [Option.eq_none_iff_forall_ne_some]
    rintro ⟨op, rest⟩ found
    have shorter := consumes text op rest found
    omega
  | succ fuel ih =>
    cases found : operator text with
    | none =>
      rw [chain_of_none found] at read
      obtain ⟨rfl, rfl⟩ := Prod.mk.inj (Except.ok.inj read)
      exact ⟨atFirst, found, Nat.le_refl _⟩
    | some readOperator =>
      obtain ⟨op, afterOperator⟩ := readOperator
      rw [chain_of_some found] at read
      obtain ⟨prepared, isPrepared, read⟩ := bind_eq_ok.mp read
      obtain ⟨⟨right, rest⟩, isOperand, read⟩ := bind_eq_ok.mp read
      obtain ⟨next, isNext, read⟩ := bind_eq_ok.mp read
      have shorter := consumes text op afterOperator found
      have atMost := shortens afterOperator right rest isOperand
      obtain ⟨atEnd, stops, fewer⟩ := ih (by omega)
        (kept value text op afterOperator prepared right rest next atFirst found isPrepared
          isOperand isNext) read
      exact ⟨atEnd, stops, by omega⟩

theorem level_shortens :
    Shortens (level operator left operand apply) := by
  intro text value rest read
  obtain ⟨⟨first, afterFirst⟩, isFirst, read⟩ := bind_eq_ok.mp read
  have atMost := shortens text first afterFirst isFirst
  have kept : ∀ value text op afterOperator prepared right rest next, True →
      operator text = some (op, afterOperator) → left value = .ok prepared →
      operand afterOperator = .ok (right, rest) → apply op prepared right = .ok next → True := by
    intros
    trivial
  have atEnd := chain_invariant consumes shortens kept (Nat.le_refl _) trivial read
  exact Nat.le_trans atEnd.2.2 atMost

end Zabbix.Library.OperatorChain
