import Zabbix.Expression.Numbers
import Zabbix.Tokens.Find

/-!
# User macros in expressions

The expansion of user macros in an expression, where values are quoted if they are no numbers.
Whether a macro stands in a quoted string is found out from the text between the tokens.
-/

namespace Zabbix.Tokens.Expression

open Common.Text Common.MacroContext Expression.Numbers Find List Option

/-- `dc_get_user_macro` for some hosts: the value of a name and a context, or NULL. -/
abbrev Resolver : Type :=
  Text → Option Text → Option Text

/-- A stretch of a text, which is empty if it ends before it starts. -/
def stretch (text : Text) (first next : Nat) : Text :=
  (text.drop first).take (next - first)

/-- The changes of `cur_token_inside_quote` in a stretch of text. -/
def scanQuotes (insideQuote : Bool) : Text → Bool
  | [] => insideQuote
  | [c] => if c = '"' then !insideQuote else insideQuote
  | c :: next :: rest =>
    if c = '\\' ∧ insideQuote then scanQuotes insideQuote rest
    else if c = '"' then scanQuotes (!insideQuote) (next :: rest)
    else scanQuotes insideQuote (next :: rest)

def zbxEscapeString (src charlist : Text) : Text :=
  src.flatMap fun c => if charlist.contains c then ['\\', c] else [c]

/-- A value as it is put into an expression. -/
def quoteValue (insideQuote : Bool) (value : Text) : Text :=
  let escaped := zbxEscapeString value ['"', '\\']
  if insideQuote = false ∧ evaluateStringToDouble value = none then '"' :: (escaped ++ ['"'])
  else escaped

/-- The local variables of the loop; `scanned` is `prev_token_loc_r + 1`. -/
structure Expansion where
  pos : Nat := 0
  lastPos : Nat := 0
  scanned : Nat := 0
  insideQuote : Bool := false
  str : Text := []
deriving DecidableEq

def macroOf (text : Text) (token : Token) : Option UserMacro :=
  if token.type = .userMacro then zbxUserMacroParseDyn (text.drop token.l) false else none

/-- The loop of `dc_expand_user_macros_in_expression`. -/
def expandLoop (text : Text) (dcGetUserMacro : Resolver) : Nat → Expansion → Text
  | 0, state => state.str ++ text.drop state.lastPos
  | turns + 1, state =>
    match zbxTokenFind text state.pos with
    | none => state.str ++ text.drop state.lastPos
    | some token =>
      let insideQuote := scanQuotes state.insideQuote (stretch text state.scanned token.l)
      match macroOf text token with
      | none =>
        expandLoop text dcGetUserMacro turns
          { state with pos := state.pos + 1, scanned := token.r + 1, insideQuote }
      | some userMacro =>
        let value :=
          ((dcGetUserMacro userMacro.name userMacro.context).map (quoteValue insideQuote)).getD
            (stretch text token.l (token.r + 1))
        expandLoop text dcGetUserMacro turns
          { pos := token.r + 1
            lastPos := token.r + 1
            scanned := token.r + 1
            insideQuote
            str := state.str ++ (stretch text state.lastPos token.l ++ value) }

def dcExpandUserMacrosInExpression (text : Text) (dcGetUserMacro : Resolver) : Text :=
  expandLoop text dcGetUserMacro (text.length + 1) {}

/-- The loop of `dc_expand_user_macros`. -/
def expandPlainLoop (text : Text) (dcGetUserMacro : Resolver) : Nat → Nat → Nat → Text → Text
  | 0, _, lastPos, str => str ++ text.drop lastPos
  | turns + 1, pos, lastPos, str =>
    match zbxTokenFind text pos with
    | none => str ++ text.drop lastPos
    | some token =>
      match macroOf text token with
      | none => expandPlainLoop text dcGetUserMacro turns (pos + 1) lastPos str
      | some userMacro =>
        let value :=
          (dcGetUserMacro userMacro.name userMacro.context).getD
            (stretch text token.l (token.r + 1))
        expandPlainLoop text dcGetUserMacro turns (token.r + 1) (token.r + 1)
          (str ++ (stretch text lastPos token.l ++ value))

def dcExpandUserMacros (text : Text) (dcGetUserMacro : Resolver) : Text :=
  expandPlainLoop text dcGetUserMacro (text.length + 1) 0 0 []

/-! ## Quoted strings -/

/-- Where a reader of an expression is: out of strings, in one, or behind a backslash in one. -/
inductive Mode where
  | outside
  | inside
  | escaped
deriving DecidableEq

/-- What a character is read as. -/
inductive Mark where
  | plain (c : Char)
  | opening
  | content (c : Char)
  | closing
deriving DecidableEq

def readChar : Mode → Char → Mode × List Mark
  | .outside, c => if c = '"' then (.inside, [.opening]) else (.outside, [.plain c])
  | .inside, c =>
    if c = '"' then (.outside, [.closing])
    else if c = '\\' then (.escaped, [])
    else (.inside, [.content c])
  | .escaped, c => (.inside, [.content c])

def readText (mode : Mode) : Text → Mode × List Mark
  | [] => (mode, [])
  | c :: rest =>
    let first := readChar mode c
    let later := readText first.1 rest
    (later.1, first.2 ++ later.2)

/-! ## Macros of a text -/

/-- A user macro and its position. -/
structure MacroSite where
  l : Nat
  userMacro : UserMacro
deriving DecidableEq

/-- The position after a macro. -/
def MacroSite.next (site : MacroSite) : Nat :=
  site.l + site.userMacro.length

def macroAt (text : Text) (l : Nat) : Option UserMacro :=
  if ['{', '$'].isPrefixOf (text.drop l) then zbxUserMacroParseDyn (text.drop l) false else none

def firstMacro (text : Text) (pos : Nat) : Option MacroSite :=
  (range' pos (text.length - pos)).findSome? fun l => (macroAt text l).map (MacroSite.mk l)

/-- The user macros from a position on, of which no two overlap. -/
def macroSites (text : Text) : Nat → Nat → List MacroSite
  | 0, _ => []
  | turns + 1, pos =>
    match firstMacro text pos with
    | none => []
    | some site => site :: macroSites text turns site.next

def allMacros (text : Text) : List MacroSite :=
  macroSites text (text.length + 1) 0

/-- What a macro with a value is to be replaced by. -/
def Contributes (value replacement : Text) : Mode → Prop
  | .outside =>
    (replacement = value ∧ (evaluateStringToDouble replacement).isSome) ∨
      readText .outside replacement = (.outside, .opening :: (value.map .content ++ [.closing]))
  | mode => readText mode replacement = (.inside, value.map .content)

def Mode.behindMacro : Mode → Mode
  | .outside => .outside
  | _ => .inside

/-- A text from a position on, with its macros replaced: what is between them is unchanged, a macro
without a value too, and the others are replaced according to where they stand. -/
def Filled (text : Text) (dcGetUserMacro : Resolver) (mode : Mode) (pos : Nat) :
    List MacroSite → Text → Prop
  | [], result => result = text.drop pos
  | site :: rest, result =>
    let atMacro := (readText mode (stretch text pos site.l)).1
    ∃ replacement later, result = stretch text pos site.l ++ (replacement ++ later) ∧
      (match dcGetUserMacro site.userMacro.name site.userMacro.context with
        | none => replacement = stretch text site.l site.next
        | some value => Contributes value replacement atMacro) ∧
      Filled text dcGetUserMacro atMacro.behindMacro site.next rest later

/-- No value of a macro breaks out of where the macro stands. -/
def ValuesContained (text : Text) : Prop :=
  ∀ dcGetUserMacro, Filled text dcGetUserMacro .outside 0 (allMacros text)
    (dcExpandUserMacrosInExpression text dcGetUserMacro)

/-- The text between the tokens that are found before the macro at `l`.  A token is found again
until its brace is passed, which leaves no text in between. -/
def gapsBefore (text : Text) (l : Nat) : Nat → Nat → Nat → List Text
  | 0, _, _ => []
  | turns + 1, pos, scanned =>
    match zbxTokenFind text pos with
    | none => []
    | some token =>
      stretch text scanned token.l ::
        if token.l = l then [] else gapsBefore text l turns (pos + 1) (token.r + 1)

/-- Where a reader ends who reads nothing but some pieces of a text, each without regard to a
backslash at the end of the last one. -/
def readPieces (mode : Mode) (pieces : List Text) : Mode :=
  pieces.foldl (fun mode piece => (readText mode piece).1.behindMacro) mode

/-- From each macro to the next one, the text between the tokens shows where the text leads. -/
def QuotesSeen (text : Text) (mode : Mode) (pos : Nat) : List MacroSite → Prop
  | [] => True
  | site :: rest =>
    let atMacro := (readText mode (stretch text pos site.l)).1
    atMacro = readPieces mode (gapsBefore text site.l (text.length + 1) pos pos) ∧
      QuotesSeen text atMacro.behindMacro site.next rest

/-! ## Finding macros -/

section

variable {text : Text} {pos position l : Nat} {token : Token} {site : MacroSite}
  {userMacro : UserMacro}

theorem isPrefixOf_macro_iff :
    ['{', '$'].isPrefixOf (text.drop position) = true ↔
      text[position]? = some '{' ∧ (text.drop (position + 1)).head? = some '$' := by
  rw [← drop_drop, ← head?_drop]
  cases text.drop position with
  | nil => simp
  | cons c rest =>
    cases rest with
    | nil => simp
    | cons next rest =>
      simp only [isPrefixOf, Bool.and_true, Bool.and_eq_true, beq_iff_eq, head?_cons,
        some.injEq, drop_succ_cons, drop_zero]
      exact and_congr eq_comm eq_comm

theorem macroAt_eq_none_of_next (notDollar : (text.drop (position + 1)).head? ≠ some '$') :
    macroAt text position = none :=
  if_neg fun isMacro => notDollar (isPrefixOf_macro_iff.mp isMacro).2

theorem macroOf_eq (isBrace : text[token.l]? = some '{')
    (found : tokenAt text token.l = some token) :
    macroOf text token = macroAt text token.l := by
  obtain ⟨isDollar, isUser⟩ | ⟨notDollar, -, notUser⟩ := tokenAt_spec found
  · obtain ⟨location, -, isToken⟩ := map_eq_some_iff.mp isUser
    have isType : token.type = .userMacro := by rw [← isToken]
    rw [macroOf, if_pos isType, macroAt, if_pos (isPrefixOf_macro_iff.mpr ⟨isBrace, isDollar⟩)]
  · rw [macroOf, if_neg notUser, macroAt_eq_none_of_next notDollar]

theorem next_eq (found : tokenAt text token.l = some token)
    (isMacro : macroAt text token.l = some userMacro) :
    token.r + 1 = token.l + userMacro.length := by
  obtain ⟨-, isUser⟩ | ⟨notDollar, -⟩ := tokenAt_spec found
  · obtain ⟨location, isLocation, isToken⟩ := map_eq_some_iff.mp isUser
    rw [macroAt] at isMacro
    split_ifs at isMacro
    obtain ⟨parsed, isParsed, rfl⟩ := map_eq_some_iff.mp isMacro
    obtain rfl := some.inj (isParsed.symm.trans isLocation)
    have isEnd : token.r = token.l + parsed.macroR := congrArg Token.r isToken.symm
    rw [isEnd]
    split_ifs <;> rfl
  · rw [macroAt_eq_none_of_next notDollar] at isMacro
    cases isMacro

theorem length_pos (isMacro : macroAt text position = some userMacro) : 0 < userMacro.length := by
  rw [macroAt] at isMacro
  split_ifs at isMacro
  obtain ⟨parsed, -, rfl⟩ := map_eq_some_iff.mp isMacro
  split_ifs <;> exact Nat.succ_pos _

theorem macroAt_eq_none (noToken : text[position]? = some '{' → tokenAt text position = none) :
    macroAt text position = none := by
  rw [macroAt]
  split_ifs with isMacro
  · obtain ⟨isBrace, isDollar⟩ := isPrefixOf_macro_iff.mp isMacro
    have noUser := noToken isBrace
    simp only [tokenAt, isDollar, if_pos, zbxTokenParseUserMacro, map_eq_none_iff] at noUser
    rw [zbxUserMacroParseDyn, noUser]
    rfl
  · rfl

theorem firstMacro_eq_some_iff :
    firstMacro text pos = some site ↔
      pos ≤ site.l ∧ site.l < text.length ∧ macroAt text site.l = some site.userMacro ∧
        ∀ earlier, pos ≤ earlier → earlier < site.l → macroAt text earlier = none := by
  simp only [firstMacro, findSome?_range'_eq_some, map_eq_some_iff, map_eq_none_iff]
  constructor
  · rintro ⟨l, atLeast, isLess, ⟨userMacro, isMacro, rfl⟩, notBefore⟩
    have isWithin : l < text.length := by omega
    exact ⟨atLeast, isWithin, isMacro, notBefore⟩
  · rintro ⟨atLeast, isLess, isMacro, notBefore⟩
    exact ⟨site.l, atLeast, by omega, ⟨site.userMacro, isMacro, rfl⟩, notBefore⟩

theorem firstMacro_eq_none_iff :
    firstMacro text pos = none ↔
      ∀ l, pos ≤ l → l < text.length → macroAt text l = none := by
  simp only [firstMacro, findSome?_range'_eq_none, map_eq_none_iff]
  exact forall_congr' fun l => forall_congr' fun atLeast => by
    rw [show l < pos + (text.length - pos) ↔ l < text.length by omega]

theorem firstMacro_of_find (found : zbxTokenFind text pos = some token)
    (isMacro : macroOf text token = some userMacro) :
    firstMacro text pos = some { l := token.l, userMacro } ∧
      token.r + 1 = token.l + userMacro.length := by
  obtain ⟨atLeast, isLess, isToken, isBrace, notBefore⟩ := zbxTokenFind_eq_some found
  rw [macroOf_eq isBrace isToken] at isMacro
  refine ⟨firstMacro_eq_some_iff.mpr ⟨atLeast, isLess, isMacro, ?_⟩, next_eq isToken isMacro⟩
  intro earlier isLeast isEarlier
  exact macroAt_eq_none (notBefore earlier isLeast isEarlier)

theorem firstMacro_succ (found : zbxTokenFind text pos = some token)
    (notMacro : macroOf text token = none) :
    firstMacro text (pos + 1) = firstMacro text pos ∧ macroAt text token.l = none := by
  obtain ⟨atLeast, isLess, isToken, isBrace, notBefore⟩ := zbxTokenFind_eq_some found
  rw [macroOf_eq isBrace isToken] at notMacro
  have notHere : macroAt text pos = none := by
    obtain isHere | isEarlier := atLeast.eq_or_lt
    · rw [isHere]
      exact notMacro
    · exact macroAt_eq_none (notBefore pos le_rfl isEarlier)
  refine ⟨?_, notMacro⟩
  rw [firstMacro, firstMacro, show text.length - pos = text.length - (pos + 1) + 1 by omega,
    range'_succ, findSome?_cons, notHere]
  rfl

theorem firstMacro_of_noToken (notFound : zbxTokenFind text pos = none) :
    firstMacro text pos = none := by
  refine firstMacro_eq_none_iff.mpr fun l atLeast isLess => macroAt_eq_none fun isBrace => ?_
  have noToken := findSome?_range'_eq_none.mp notFound l atLeast (by omega)
  rwa [if_pos isBrace] at noToken

end

end Zabbix.Tokens.Expression
