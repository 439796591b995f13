import Zabbix.Common.WrittenParams
import Zabbix.Tokens.Expression

/-!
# User macros in calculated items

The scanner that finds functions in the formula of a calculated item, and the expansion of user
macros, which takes the formula apart at the functions and puts the parts into one buffer.
-/

namespace Zabbix.Tokens.Calcitem

open Common.Text Common.MacroContext Common.FunctionParams Common.WrittenParams Expression.Numbers
open Find Tokens.Expression

/-! ## Functions of a formula -/

/-- The end of the text, or what `"()" ZBX_WHITESPACE` has. -/
def endsOperator (next : Option Char) : Bool :=
  next.all fun c => c = '(' || c = ')' || c = ' ' || c = '\t' || c = '\r' || c = '\n'

def operatorLength (text : Text) : Option Nat :=
  let len :=
    if ['a', 'n', 'd'].isPrefixOf text ∨ ['n', 'o', 't'].isPrefixOf text then some 3
    else if ['o', 'r'].isPrefixOf text then some 2
    else none
  len.bind fun len => if endsOperator (text.drop len).head? then some len else none

/-- The length of what is skipped as a whole out of quotes: a macro, a character that is in no
name, an operator or a unit after a digit. -/
def skippedLength (text : Text) (previous : Option Char) : Option Nat :=
  let userMacro :=
    if ['{', '$'].isPrefixOf text then (zbxUserMacroParse text false).map (·.macroR + 1) else none
  let nestedMacro :=
    if ['{', '{', '#'].isPrefixOf text then
      (zbxTokenParseNestedMacro text 0).map fun token => token.r - token.l + 1
    else none
  let otherChar := if text.head?.any isFunctionChar then none else some 1
  let unitSuffix :=
    if previous.any Char.isDigit && text.head?.any zbxUnitSymbols.contains then some 1 else none
  userMacro.or (nestedMacro.or (otherChar.or ((operatorLength text).or unitSuffix)))

/-- The loop of `zbx_no_function`. -/
def noFunctionLoop (expr : Text) : Nat → Nat → Bool → Nat
  | 0, ptr, _ => ptr
  | turns + 1, ptr, insideQuote =>
    match expr[ptr]? with
    | none => ptr
    | some c =>
      if c = '"' then noFunctionLoop expr turns (ptr + 1) (!insideQuote)
      else if insideQuote then
        if c ≠ '\\' then noFunctionLoop expr turns (ptr + 1) insideQuote
        else if ptr + 1 < expr.length then noFunctionLoop expr turns (ptr + 2) insideQuote
        else ptr + 1
      else
        let previous := if 0 < ptr then expr[ptr - 1]? else none
        match skippedLength (expr.drop ptr) previous with
        | some length => noFunctionLoop expr turns (ptr + length) insideQuote
        | none => ptr

/-- `zbx_no_function`: the number of characters in which no function starts. -/
def zbxNoFunction (expr : Text) : Nat :=
  noFunctionLoop expr (expr.length + 1) 0 false

/-- What `zbx_function_find` returns.  It leaves `par_l` and `par_r` as they were for an empty
text. -/
structure FunctionSearch where
  succeeded : Bool
  funcPos : Nat
  parL : Nat
  parR : Nat
deriving DecidableEq

/-- The loop of `zbx_function_find`; `before` is what the variables were. -/
def findLoop (expr : Text) : Nat → Nat → FunctionSearch → FunctionSearch
  | 0, _, before => before
  | turns + 1, ptr, before =>
    if ptr < expr.length then
      let ptr := ptr + zbxNoFunction (expr.drop ptr)
      match zbxFunctionValidate (expr.drop ptr) with
      | (parL, some parR) =>
        { succeeded := true, funcPos := ptr, parL := parL + ptr, parR := parR + ptr }
      | (parL, none) =>
        let failed := { before with parL, parR := 0 }
        if 0 < parL then failed else findLoop expr turns (ptr + parL) failed
    else before

def zbxFunctionFind (expr : Text) (before : FunctionSearch) : FunctionSearch :=
  findLoop expr (expr.length + 1) 0 { before with succeeded := false }

/-- The host and the key; `none` is `FAIL`. -/
def parseHostKey (exp : Text) : Option (Option Text × Text) :=
  if exp = [] then none
  else
    let host := exp.takeWhile fun c => isHostnameChar c && c ≠ ':'
    match exp.drop host.length with
    | ':' :: key => some (some host, key)
    | _ => some (none, exp)

/-! ## Expansion -/

/-- What is looked up in the configuration cache: hosts by name, and macros for a host. -/
structure Lookup where
  dcFindHost : Text → Option Nat
  dcGetUserMacro : Nat → Resolver

/-- The loop of `dc_expand_user_macros_in_func_params`. -/
def expandParamsLoop (dcGetUserMacro : Resolver) : Nat → Text → Text
  | 0, _ => []
  | turns + 1, params =>
    if params = [] then []
    else
      let location := zbxFunctionParamParse params
      let (param, quoted) :=
        zbxFunctionParamUnquoteDyn (params.drop location.paramPos) location.length
      let resolved := zbxFunctionParamQuote (dcExpandUserMacros param dcGetUserMacro) quoted
      let separator :=
        if (params.drop location.sepPos).head? = some ',' then [','] else []
      resolved.getD ((params.drop location.paramPos).take location.length) ++
        (separator ++ expandParamsLoop dcGetUserMacro turns (params.drop (location.sepPos + 1)))

def dcExpandUserMacrosInFuncParams (params : Text) (dcGetUserMacro : Resolver) : Text :=
  expandParamsLoop dcGetUserMacro params.length params

/-- The host of a function: that of its first parameter, the item's own one, or 0. -/
def functionHostid (lookup : Lookup) (hostid : Nat) (hostkey : Text) : Nat :=
  match parseHostKey hostkey with
  | none => 0
  | some (some host, _) => (lookup.dcFindHost host).getD 0
  | some (none, _) => hostid

/-- What is put into the buffer for a function at the start of a text, whose parentheses are at the
given positions, and for what stands before it. -/
def expandFunction (lookup : Lookup) (hostid : Nat) (e : Text) (parL parR : Nat) : Text :=
  let expanded := dcExpandUserMacrosInExpression (e.take (parL + 1)) (lookup.dcGetUserMacro hostid)
  let location := zbxFunctionParamParse (e.drop (parL + 1))
  let paramPos := location.paramPos + (parL + 1)
  let sepPos := location.sepPos + (parL + 1)
  let firstParam := stretch e (parL + 1) (sepPos + 1)
  let others :=
    if sepPos = parR then []
    else
      let funcHostid := functionHostid lookup hostid
        (zbxFunctionParamUnquoteDyn (e.drop paramPos) location.length).1
      if funcHostid = 0 then stretch e (sepPos + 1) (parR + 1)
      else
        dcExpandUserMacrosInFuncParams (stretch e (sepPos + 1) parR)
          (lookup.dcGetUserMacro funcHostid) ++ [')']
  expanded ++ (firstParam ++ others)

/-- The text in a buffer after some text was appended; `none` is memory that was never written. -/
def append (exp : Option Text) (text : Text) : Option Text :=
  some (exp.getD [] ++ text)

/-- The loop of `dc_expand_user_macros_in_calcitem`, and the copy of what remains. -/
def calcitemLoop (lookup : Lookup) (hostid : Nat) :
    Nat → Text → FunctionSearch → Option Text → Option Text
  | 0, _, _, exp => exp
  | turns + 1, e, before, exp =>
    let search := zbxFunctionFind e before
    if search.succeeded then
      calcitemLoop lookup hostid turns (e.drop (search.parR + 1)) search
        (append exp (expandFunction lookup hostid e search.parL search.parR))
    else if search.parL ≤ search.parR then
      append exp (dcExpandUserMacrosInExpression e (lookup.dcGetUserMacro hostid))
    else exp

/-- `unset` is what stands in the local variables at the start; the result is `none` if the buffer
was never written. -/
def dcExpandUserMacrosInCalcitem (lookup : Lookup) (formula : Text) (hostid : Nat)
    (unset : FunctionSearch) : Option Text :=
  calcitemLoop lookup hostid (formula.length + 1) formula unset none

/-! ## Blanks around parameters -/

/-- Two formulas that differ only in blanks around the parameters of the functions that are found
in the first one. -/
inductive SameUpToBlanks : Text → Text → Prop where
  | same (formula : Text) : SameUpToBlanks formula formula
  | function {before name rest rest' : Text} {params params' : List WrittenParam}
      (isFunction : zbxNoFunction (before ++ (name ++ '(' :: (listText params ++ ')' :: rest))) =
        before.length)
      (nonempty : name ≠ []) (isName : ∀ c ∈ name, isFunctionChar c = true)
      (sameParams : params'.map WrittenParam.content = params.map WrittenParam.content)
      (later : SameUpToBlanks rest rest') :
      SameUpToBlanks (before ++ (name ++ '(' :: (listText params ++ ')' :: rest)))
        (before ++ (name ++ '(' :: (listText params' ++ ')' :: rest')))

def NoMacro (text : Text) : Prop :=
  ∀ l, macroAt text l = none

/-- A formula is returned as it was, up to blanks, whatever stands in the variables that are not
set. -/
def LeftIntact (lookup : Lookup) (formula : Text) (hostid : Nat) : Prop :=
  ∀ unset, ∃ result, dcExpandUserMacrosInCalcitem lookup formula hostid unset = some result ∧
    SameUpToBlanks formula result

/-- Whatever could be the name of a function is one, with parameters in parentheses. -/
inductive AllNamesCall : Text → Prop where
  | done {formula : Text} (isDone : formula.drop (zbxNoFunction formula) = []) :
      AllNamesCall formula
  | function {formula : Text} {parL parR : Nat}
      (isFunction : zbxFunctionValidate (formula.drop (zbxNoFunction formula)) = (parL, some parR))
      (later : AllNamesCall (formula.drop (zbxNoFunction formula + parR + 1))) :
      AllNamesCall formula

end Zabbix.Tokens.Calcitem
