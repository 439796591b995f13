import Zabbix.Common.FunctionParams
import Zabbix.ItemKey.ParseKey

/-!
# Tokens of expressions

The parser that finds macros and other tokens in braces in an expression.  Locations are positions
in the expression, as in the source, and of a token only its type and its location are kept.
-/

namespace Zabbix.Tokens.Find

open Common.Text Common.MacroContext Common.FunctionParams ItemKey.ParseKey List Option

/-- `ZBX_TOKEN_*` -/
inductive TokenType where
  | objectid
  | normalMacro
  | lldMacro
  | userMacro
  | funcMacro
  | simpleMacro
  | lldFuncMacro
deriving DecidableEq

/-- The type and the location of `zbx_token_t`. -/
structure Token where
  type : TokenType
  l : Nat
  r : Nat
deriving DecidableEq

/-! ## Functions -/

def isFunctionChar (c : Char) : Bool :=
  c.isLower

def isHostnameChar (c : Char) : Bool :=
  c.isAlphanum || c = '.' || c = ' ' || c = '_' || c = '-'

/-- The length of a function name, and whether a parenthesis follows. -/
def functionParseName (expr : Text) : Nat × Bool :=
  let length := (expr.takeWhile isFunctionChar).length
  (length, length ≠ 0 && (expr.drop length).head? = some '(')

/-- `zbx_function_validate`: `par_l`, and `par_r` if it succeeds.  The latter is not set when it
fails. -/
def zbxFunctionValidate (expr : Text) : Nat × Option Nat :=
  let (parL, hasName) := functionParseName expr
  (parL, if hasName then functionMatchParenthesis expr parL else none)

/-! ## Names of macros -/

def quotedSegment : Text → Option Nat
  | [] => none
  | '"' :: _ => some 1
  | '\\' :: '\\' :: rest => (quotedSegment rest).map (· + 2)
  | '\\' :: '"' :: rest => (quotedSegment rest).map (· + 2)
  | '\\' :: _ => none
  | _ :: rest => (quotedSegment rest).map (· + 1)

/-- `zbx_token_parse_macro_segment`: whether the segment is strict, and its length. -/
def zbxTokenParseMacroSegment (segment : Text) : Option (Bool × Nat) :=
  match segment with
  | '"' :: rest =>
    (quotedSegment rest).bind fun length => if length = 1 then none else some (false, length + 1)
  | segment =>
    let chars := segment.takeWhile fun c => c.isAlphanum || c = '_'
    if chars = [] then none
    else some (chars.all fun c => !c.isAlpha || c.isUpper, chars.length)

def macroNameLoop (isFirst : Bool) : Nat → Text → Option Nat
  | 0, _ => none
  | turns + 1, text =>
    (zbxTokenParseMacroSegment text).bind fun (strict, next) =>
      if !strict && isFirst then none
      else if strict && (text.drop next).head? = some '.' then
        (macroNameLoop false turns (text.drop (next + 1))).map (· + (next + 1))
      else some next

/-- `zbx_token_parse_macro_name`: the length of the name. -/
def zbxTokenParseMacroName (text : Text) : Option Nat :=
  macroNameLoop true (text.length + 1) text

/-! ## Tokens -/

def endOfChars (expression : Text) (accepts : Char → Bool) (stop : Char) (position : Nat) :
    Option Nat :=
  let length := ((expression.drop position).takeWhile accepts).length
  if length ≠ 0 ∧ (expression.drop (position + length)).head? = some stop then
    some (position + length)
  else none

def zbxTokenParseUserMacro (expression : Text) (position : Nat) : Option Token :=
  (zbxUserMacroParse (expression.drop position) false).map fun location =>
    { type := .userMacro, l := position, r := position + location.macroR }

def zbxTokenParseLldMacro (expression : Text) (position : Nat) : Option Token :=
  (endOfChars expression isMacroChar '}' (position + 2)).map fun r =>
    { type := .lldMacro, l := position, r }

def zbxTokenParseObjectid (expression : Text) (position : Nat) : Option Token :=
  (endOfChars expression Char.isDigit '}' (position + 1)).map fun r =>
    { type := .objectid, l := position, r }

def endOfMacroName (expression : Text) (position : Nat) : Option Nat :=
  (zbxTokenParseMacroName (expression.drop position)).bind fun length =>
    if (expression.drop (position + length)).head? = some '}' then some (position + length)
    else none

def zbxTokenParseMacro (expression : Text) (position : Nat) : Option Token :=
  (endOfMacroName expression (position + 1)).map fun r =>
    { type := .normalMacro, l := position, r }

/-- The position of the brace after a function and blanks. -/
def endOfFunction (expression : Text) (func : Nat) : Option Nat :=
  (zbxFunctionValidate (expression.drop func)).2.bind fun parR =>
    let after := func + parR + 1
    let r := after + blankCount (expression.drop after)
    if (expression.drop r).head? = some '}' then some r else none

def zbxTokenParseFuncMacro (expression : Text) (position func : Nat) (type : TokenType) :
    Option Token :=
  if expression.length ≤ func then none
  else (endOfFunction expression func).map fun r => { type, l := position, r }

/-- The last dot before a position.  The source does not stop at the start of the expression. -/
def backToDot (expression : Text) (position : Nat) : Option Nat :=
  let passed := ((expression.take position).reverse.takeWhile (· ≠ '.')).length
  if passed < position then some (position - 1 - passed) else none

def zbxTokenParseSimpleMacroKey (expression : Text) (position key : Nat) : Option Token :=
  let parsed := parseKey (expression.drop key)
  let afterKey :=
    if parsed.1 then some (expression.length - parsed.2.length)
    else (zbxTokenParseMacro expression key).map (·.r + 1)
  let dot :=
    afterKey.bind fun ptr =>
      -- the name of the function was taken for a part of the key
      if (expression.drop ptr).head? = some '(' then backToDot expression ptr else some ptr
  dot.bind fun ptr =>
    if ptr = key then none
    else
      (endOfFunction expression (ptr + 1)).map fun r => { type := .simpleMacro, l := position, r }

def zbxTokenParseSimpleMacro (expression : Text) (position : Nat) : Option Token :=
  (endOfChars expression isHostnameChar ':' (position + 1)).bind fun colon =>
    zbxTokenParseSimpleMacroKey expression position (colon + 1)

def zbxTokenParseNestedMacro (expression : Text) (position : Nat) : Option Token :=
  let isLld : Bool := (expression.drop (position + 2)).head? = some '#'
  let inner :=
    if isLld then endOfChars expression isMacroChar '}' (position + 3)
    else endOfMacroName expression (position + 2)
  inner.bind fun ptr =>
    match (expression.drop (ptr + 1)).head? with
    | some '.' =>
      zbxTokenParseFuncMacro expression position (ptr + 2)
        (if isLld then .lldFuncMacro else .funcMacro)
    | some ':' =>
      if isLld then none else zbxTokenParseSimpleMacroKey expression position (ptr + 2)
    | _ => none

/-- The token at an opening brace, by the character after it. -/
def tokenAt (expression : Text) (position : Nat) : Option Token :=
  match (expression.drop (position + 1)).head? with
  | none => none
  | some c =>
    if c = '$' then zbxTokenParseUserMacro expression position
    else if c = '#' then zbxTokenParseLldMacro expression position
    else if c = '{' then zbxTokenParseNestedMacro expression position
    else
      (if c.isDigit then zbxTokenParseObjectid expression position else none).or
        ((zbxTokenParseMacro expression position).or
          (zbxTokenParseSimpleMacro expression position))

/-- `zbx_token_find` with `ZBX_TOKEN_SEARCH_BASIC`: the first token from a position on. -/
def zbxTokenFind (expression : Text) (pos : Nat) : Option Token :=
  (range' pos (expression.length - pos)).findSome? fun position =>
    if expression[position]? = some '{' then tokenAt expression position else none

example : zbxTokenFind "1+\x7b$A:\"\x7d\"\x7d-\x7bhost:key[\"\"].last(0)\x7d".toList 0 =
    some { type := .userMacro, l := 2, r := 9 } := by
  decide

/-! ## Where tokens are -/

section

variable {expression : Text} {position pos : Nat} {token : Token}

/-- A token of another kind than user macros, at a position. -/
def IsOther (position : Nat) (token : Token) : Prop :=
  token.l = position ∧ token.type ≠ .userMacro

theorem isOther_of_map {type : TokenType} {found : Option Nat} (notUser : type ≠ .userMacro)
    (isToken : found.map (fun r => ({ type, l := position, r } : Token)) = some token) :
    IsOther position token := by
  obtain ⟨r, -, rfl⟩ := map_eq_some_iff.mp isToken
  exact ⟨rfl, notUser⟩

theorem simpleMacroKey_isOther {key : Nat}
    (found : zbxTokenParseSimpleMacroKey expression position key = some token) :
    IsOther position token := by
  obtain ⟨ptr, -, isToken⟩ := bind_eq_some_iff.mp found
  split_ifs at isToken
  exact isOther_of_map (by decide) isToken

theorem nestedMacro_isOther
    (found : zbxTokenParseNestedMacro expression position = some token) :
    IsOther position token := by
  obtain ⟨ptr, -, isToken⟩ := bind_eq_some_iff.mp found
  split at isToken
  · unfold zbxTokenParseFuncMacro at isToken
    split_ifs at isToken
    · exact isOther_of_map (by decide) isToken
    · exact isOther_of_map (by decide) isToken
  · split_ifs at isToken
    exact simpleMacroKey_isOther isToken
  · cases isToken

theorem macroOrSimple_isOther
    (found : (zbxTokenParseMacro expression position).or
      (zbxTokenParseSimpleMacro expression position) = some token) :
    IsOther position token := by
  obtain isMacro | ⟨-, isSimple⟩ := or_eq_some_iff.mp found
  · exact isOther_of_map (by decide) isMacro
  · obtain ⟨colon, -, isKey⟩ := bind_eq_some_iff.mp isSimple
    exact simpleMacroKey_isOther isKey

theorem tokenAt_spec (found : tokenAt expression position = some token) :
    ((expression.drop (position + 1)).head? = some '$' ∧
        zbxTokenParseUserMacro expression position = some token) ∨
      ((expression.drop (position + 1)).head? ≠ some '$' ∧ IsOther position token) := by
  unfold tokenAt at found
  cases isNext : (expression.drop (position + 1)).head? with
  | none => simp [isNext] at found
  | some c =>
    simp only [isNext] at found
    by_cases isDollar : c = '$'
    · rw [if_pos isDollar] at found
      exact Or.inl ⟨congrArg some isDollar, found⟩
    · refine Or.inr ⟨fun same => isDollar (some.inj same), ?_⟩
      rw [if_neg isDollar] at found
      split_ifs at found with isLld isNested isDigit
      · exact isOther_of_map (by decide) found
      · exact nestedMacro_isOther found
      · obtain isObject | ⟨-, isOther⟩ := or_eq_some_iff.mp found
        · exact isOther_of_map (by decide) isObject
        · exact macroOrSimple_isOther isOther
      · exact macroOrSimple_isOther (none_or.symm.trans found)

theorem tokenAt_l (found : tokenAt expression position = some token) : token.l = position := by
  obtain ⟨-, isUser⟩ | ⟨-, isOther⟩ := tokenAt_spec found
  · obtain ⟨location, -, rfl⟩ := map_eq_some_iff.mp isUser
    rfl
  · exact isOther.1

theorem findSome?_range'_eq_some {α : Type} {search : Nat → Option α} {count : Nat} {found : α} :
    (range' pos count).findSome? search = some found ↔
      ∃ place, pos ≤ place ∧ place < pos + count ∧ search place = some found ∧
        ∀ earlier, pos ≤ earlier → earlier < place → search earlier = none := by
  constructor
  · intro isFound
    obtain ⟨before, place, after, isRange, isPlace, notBefore⟩ :=
      findSome?_eq_some_iff.mp isFound
    obtain ⟨passed, isCount, isBefore, isRest⟩ := range'_eq_append_iff.mp isRange
    have isStart : place = pos + passed := by
      cases isLeft : count - passed with
      | zero => simp [isLeft] at isRest
      | succ left =>
        rw [isLeft, range'_succ, Nat.mul_one] at isRest
        exact (cons.inj isRest).1
    have isShort : passed < count := by
      have := congrArg List.length isRest
      simp only [length_cons, length_range'] at this
      omega
    refine ⟨place, by omega, by omega, isPlace, fun earlier atLeast isLess => ?_⟩
    apply notBefore
    rw [isBefore, mem_range'_1]
    omega
  · rintro ⟨place, atLeast, isLess, isPlace, notBefore⟩
    obtain ⟨passed, rfl⟩ := Nat.exists_eq_add_of_le atLeast
    have isCount : count = passed + (count - passed - 1 + 1) := by omega
    refine findSome?_eq_some_iff.mpr
      ⟨range' pos passed, pos + passed, range' (pos + passed + 1) (count - passed - 1),
        ?_, isPlace, fun earlier isEarlier => ?_⟩
    · rw [← range'_succ, range'_append_1, ← isCount]
    · obtain ⟨atLeast', isLess'⟩ := mem_range'_1.mp isEarlier
      exact notBefore earlier atLeast' isLess'

theorem findSome?_range'_eq_none {α : Type} {search : Nat → Option α} {count : Nat} :
    (range' pos count).findSome? search = none ↔
      ∀ place, pos ≤ place → place < pos + count → search place = none := by
  simp [findSome?_eq_none_iff, mem_range'_1]

/-- The first token is at the first brace where one is. -/
theorem zbxTokenFind_eq_some (found : zbxTokenFind expression pos = some token) :
    pos ≤ token.l ∧ token.l < expression.length ∧ tokenAt expression token.l = some token ∧
      expression[token.l]? = some '{' ∧
      ∀ earlier, pos ≤ earlier → earlier < token.l → expression[earlier]? = some '{' →
        tokenAt expression earlier = none := by
  obtain ⟨place, atLeast, isLess, isToken, notBefore⟩ := findSome?_range'_eq_some.mp found
  split_ifs at isToken with isBrace
  obtain rfl := tokenAt_l isToken
  refine ⟨atLeast, by omega, isToken, isBrace, fun earlier isLeast isEarlier isBrace' => ?_⟩
  have noToken := notBefore earlier isLeast isEarlier
  rwa [if_pos isBrace'] at noToken

end

end Zabbix.Tokens.Find
