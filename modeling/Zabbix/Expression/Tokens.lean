import Mathlib.Tactic.IntervalCases
import Zabbix.Expression.Grammar

/-!
# Reading tokens

One lemma in each direction for the parts of the evaluator that read a token: strings,
numbers, Unknown values and operators.
-/

namespace Zabbix.Expression.Tokens

open Common.Text Numbers Evaluate Grammar List

variable {text rest after raw value : Text}

/-! ## Strings -/

theorem scanString_quoted (quoted : Quoted raw value) (start rest : Text) :
    scanString start (raw ++ '"' :: rest) = .ok (raw, '"' :: rest) := by
  induction quoted with
  | nil => rw [nil_append, scanString]
  | escaped c isEscape _ ih =>
    obtain rfl | rfl := isEscape
    · rw [cons_append, cons_append, scanString, ih]
      rfl
    · rw [cons_append, cons_append, scanString, ih]
      rfl
  | carriageReturn _ ih =>
    rw [cons_append, scanString, ih]
    · rfl
    all_goals simp
  | plain c isPlain _ ih =>
    rw [cons_append, scanString, ih]
    · rfl
    · exact fun same => isPlain.2.1 same
    all_goals
      intros
      exact isPlain.1 ‹_›

theorem copyString_quoted (quoted : Quoted raw value) : copyString raw = value := by
  induction quoted with
  | nil => rfl
  | escaped c isEscape _ ih => rw [copyString, ih]
  | carriageReturn _ ih =>
    rw [copyString, ih]
  | plain c isPlain _ ih =>
    rw [copyString, ih]
    · intros
      exact isPlain.1 ‹_›
    · exact isPlain.2.2

theorem map_eq_ok {Failure First Second : Type} {first : Except Failure First}
    {change : First → Second} {result : Second} :
    first.map change = .ok result ↔ ∃ value, first = .ok value ∧ change value = result := by
  cases first with
  | error failure => simp [Except.map]
  | ok value => simp [Except.map]

theorem scanString_eq_ok {start : Text} (scanned : scanString start text = .ok (raw, rest)) :
    ∃ tail, rest = '"' :: tail ∧ text = raw ++ '"' :: tail ∧ Quoted raw (copyString raw) := by
  fun_induction scanString start text generalizing raw rest with
  | case1 => cases scanned
  | case2 tail =>
    obtain ⟨rfl, rfl⟩ := Prod.mk.inj (Except.ok.inj scanned)
    exact ⟨tail, rfl, rfl, Quoted.nil⟩
  | case3 tail ih =>
    obtain ⟨⟨inner, innerRest⟩, innerScanned, same⟩ := map_eq_ok.mp scanned
    obtain ⟨rfl, rfl⟩ := Prod.mk.inj same
    obtain ⟨after, rfl, rfl, quoted⟩ := ih innerScanned
    exact ⟨after, rfl, rfl, by rw [copyString]; exact quoted.escaped _ (Or.inl rfl)⟩
  | case4 tail ih =>
    obtain ⟨⟨inner, innerRest⟩, innerScanned, same⟩ := map_eq_ok.mp scanned
    obtain ⟨rfl, rfl⟩ := Prod.mk.inj same
    obtain ⟨after, rfl, rfl, quoted⟩ := ih innerScanned
    exact ⟨after, rfl, rfl, by rw [copyString]; exact quoted.escaped _ (Or.inr rfl)⟩
  | case5 => cases scanned
  | case6 => cases scanned
  | case7 c tail notQuote notBackslash notEscapedQuote notEnd notEscape ih =>
    obtain ⟨⟨inner, innerRest⟩, innerScanned, same⟩ := map_eq_ok.mp scanned
    obtain ⟨rfl, rfl⟩ := Prod.mk.inj same
    obtain ⟨after, rfl, rfl, quoted⟩ := ih innerScanned
    have isPlain : c ≠ '\\' := by
      intro isBackslash
      cases inner with
      | nil => exact notEscape _ _ isBackslash rfl
      | cons other others => exact notEscape _ _ isBackslash rfl
    refine ⟨after, rfl, rfl, ?_⟩
    by_cases isReturn : c = '\r'
    · subst isReturn
      rw [copyString]
      exact quoted.carriageReturn
    · rw [copyString]
      · exact quoted.plain c ⟨isPlain, notQuote, isReturn⟩
      · intros
        exact isPlain ‹_›
      · exact isReturn

/-! ## Numbers and Unknown values -/

theorem isNumberDelimiter_iff : isNumberDelimiter (headChar after) = true ↔
    StopsAt isNumberChar after := by
  cases after with
  | nil => exact iff_of_true rfl nofun
  | cons c others => simp [isNumberDelimiter, headChar, StopsAt]

theorem isPrefixOf_append (first second : Text) : first.isPrefixOf (first ++ second) = true :=
  isPrefixOf_iff_prefix.mpr (prefix_append first second)

theorem evaluateNumber_number (number : SuffixedNumber)
    (delimited : isNumberDelimiter (headChar after) = true) :
    evaluateNumber (number.text ++ after) = .ok (.known number.value, after) := by
  have stops := isNumberDelimiter_iff.mp delimited
  have notUnknown : ¬zbxUnknownStr.isPrefixOf (number.text ++ after) = true := by
    obtain ⟨first, others, shape, isOne⟩ := number.text_eq_cons
    rw [shape, cons_append, zbxUnknownStr]
    intro isPrefix
    obtain ⟨tail, same⟩ := isPrefixOf_iff_prefix.mp isPrefix
    obtain rfl := (cons.inj same).1
    exact absurd isOne (by decide)
  rw [evaluateNumber, if_neg notUnknown, suffixedNumberParse_text number stops]
  simp only [drop_left, delimited, if_true, suffixedValue_text number stops]

theorem evaluateNumber_unknown {digits : Text} (areDigits : ∀ c ∈ digits, c.isDigit = true)
    (nonempty : digits ≠ []) (delimited : isNumberDelimiter (headChar after) = true) :
    evaluateNumber (zbxUnknownStr ++ digits ++ after) =
      .ok (.unknown (digitsValue digits), after) := by
  have stops : StopsAt Char.isDigit after :=
    (isNumberDelimiter_iff.mp delimited).mono fun c isDigit => by simp [isNumberChar, isDigit]
  obtain ⟨isRun, isRest⟩ := takeWhile_append_of_stopsAt areDigits stops
  have shorter : after.length < (digits ++ after).length := by
    rw [length_append]
    exact Nat.lt_add_of_pos_left (length_pos_iff.mpr nonempty)
  rw [evaluateNumber, append_assoc, if_pos (isPrefixOf_append _ _)]
  simp only [drop_left, isRun, isRest, shorter, delimited, and_self, if_true]

theorem evaluateNumber_eq_ok {number : Number} (nesting : Nat)
    (read : evaluateNumber text = .ok (number, rest)) :
    ∃ token tree, text = tokenText token ++ rest ∧ Delimited token rest ∧
      Derives nesting 9 tree [token] ∧ Grammar.value tree = some (.dbl number) := by
  rw [evaluateNumber] at read
  split_ifs at read with isUnknown
  · obtain ⟨tail, rfl⟩ := isPrefixOf_iff_prefix.mp isUnknown
    simp only [drop_left] at read
    split_ifs at read with complete
    obtain ⟨rfl, rfl⟩ := Prod.mk.inj (Except.ok.inj read)
    have split := (takeWhile_append_dropWhile (p := Char.isDigit) (l := tail))
    have nonempty : tail.takeWhile Char.isDigit ≠ [] := by
      intro isEmpty
      rw [isEmpty, nil_append] at split
      exact absurd complete.1 (by rw [split]; exact Nat.lt_irrefl _)
    refine ⟨.unknown (tail.takeWhile Char.isDigit),
      .unknown (digitsValue (tail.takeWhile Char.isDigit)), ?_, complete.2,
      .unknown (fun c member => mem_takeWhile_imp member) nonempty, rfl⟩
    rw [tokenText, append_assoc, split]
  · split at read
    next => cases read
    next len parsed =>
      obtain ⟨suffixed, tail, rfl, rfl⟩ := suffixedNumberParse_eq_some parsed
      rw [drop_left] at read
      split_ifs at read with delimited
      obtain ⟨rfl, rfl⟩ := Prod.mk.inj (Except.ok.inj read)
      refine ⟨.number suffixed, .number suffixed.value, rfl, delimited, .number suffixed, ?_⟩
      rw [suffixedValue_text suffixed (isNumberDelimiter_iff.mp delimited)]
      rfl

/-! ## Operators -/

/-- The operator that the level reads at a position. -/
def operatorAt : Nat → Text → Option (BinaryOp × Text)
  | 6 => operator6
  | 5 => operator5
  | 4 => operator4
  | 3 => operator3
  | 2 => operator2
  | 1 => operator1
  | _ => fun _ => none

theorem wordOperator_eq_some {word : Text} {op op' : BinaryOp} :
    wordOperator word op text = some (op', rest) ↔
      op' = op ∧ text = word ++ rest ∧ isOperatorDelimiter (headChar rest) = true := by
  rw [wordOperator]
  constructor
  · intro found
    split_ifs at found with isWord
    rw [Bool.and_eq_true] at isWord
    obtain ⟨tail, rfl⟩ := isPrefixOf_iff_prefix.mp isWord.1
    obtain ⟨rfl, rfl⟩ := Prod.mk.inj (Option.some.inj found)
    rw [drop_left] at isWord ⊢
    exact ⟨rfl, rfl, isWord.2⟩
  · rintro ⟨rfl, rfl, delimited⟩
    rw [isPrefixOf_append, drop_left, delimited]
    rfl

theorem operatorAt_eq_some {n : Nat} {op : BinaryOp}
    (found : operatorAt n text = some (op, rest)) :
    level op = n ∧ text = opText op ++ rest ∧ Delimited (.binary op) rest := by
  unfold operatorAt at found
  split at found
  case h_1 =>
    unfold operator6 at found
    split at found
    all_goals cases found
    all_goals exact ⟨rfl, rfl, trivial⟩
  case h_2 =>
    unfold operator5 at found
    split at found
    all_goals cases found
    all_goals exact ⟨rfl, rfl, trivial⟩
  case h_3 =>
    unfold operator4 at found
    split at found
    all_goals cases found
    all_goals exact ⟨rfl, rfl, trivial⟩
  case h_4 =>
    unfold operator3 at found
    split at found
    all_goals cases found
    all_goals exact ⟨rfl, rfl, trivial⟩
  case h_5 =>
    obtain ⟨rfl, rfl, delimited⟩ := wordOperator_eq_some.mp found
    exact ⟨rfl, rfl, delimited⟩
  case h_6 =>
    obtain ⟨rfl, rfl, delimited⟩ := wordOperator_eq_some.mp found
    exact ⟨rfl, rfl, delimited⟩
  case h_7 => cases found

/-- A text that no comparison sign is read further into. -/
def isComparison (c : Char) : Bool :=
  c = '=' || c = '>'

theorem operatorAt_opText {op : BinaryOp} (delimited : Delimited (.binary op) after)
    (stops : StopsAt isComparison after) :
    operatorAt (level op) (opText op ++ after) = some (op, after) := by
  cases op with
  | and => exact wordOperator_eq_some.mpr ⟨rfl, rfl, delimited⟩
  | or => exact wordOperator_eq_some.mpr ⟨rfl, rfl, delimited⟩
  | lt =>
    change operator4 ('<' :: after) = some (.lt, after)
    rw [operator4]
    · rintro others rfl
      exact absurd (stops '=' rfl) (by decide)
    · rintro others rfl
      exact absurd (stops '>' rfl) (by decide)
  | gt =>
    change operator4 ('>' :: after) = some (.gt, after)
    rw [operator4]
    rintro others rfl
    exact absurd (stops '=' rfl) (by decide)
  | _ => rfl

theorem operatorAt_tighter {op : BinaryOp} {n : Nat} (tighter : level op < n) (after : Text) :
    operatorAt n (opText op ++ after) = none := by
  by_cases isLevel : n ≤ 6
  · cases op
    all_goals
      simp only [level] at tighter
      interval_cases n
    all_goals rfl
  · obtain ⟨further, rfl⟩ := Nat.exists_eq_add_of_le (Nat.lt_of_not_le isLevel)
    rw [Nat.add_comm]
    rfl

end Zabbix.Expression.Tokens
