import Zabbix.Common.Text
import Mathlib.Data.List.Basic

/-!
# Contexts of user macros

The parser of user macros with a context, and the function that quotes a context.  Positions
are counted from the start of the macro, as in the source.
-/

namespace Zabbix.Common.MacroContext

open Text List Option

def isMacroChar (c : Char) : Bool :=
  c.isUpper || c = '.' || c = '_' || c.isDigit

inductive ContextOp where
  | equal
  | regexp
deriving DecidableEq

/-- What `zbx_user_macro_parse` returns. -/
structure Location where
  macroR : Nat
  contextL : Nat
  contextR : Nat
  contextOp : ContextOp
deriving DecidableEq

def zbxMacroRegexPrefix : Text :=
  ['r', 'e', 'g', 'e', 'x', ':']

/-- The number of blanks at the start. -/
def blankCount (text : Text) : Nat :=
  (text.takeWhile (· = ' ')).length

/-- The number of characters before the closing quote. -/
def quotedLength : Text → Option Nat
  | [] => none
  | '"' :: _ => some 0
  | '\\' :: '"' :: rest => (quotedLength rest).map (· + 2)
  | _ :: rest => (quotedLength rest).map (· + 1)

/-- The number of characters before the closing brace. -/
def unquotedLength : Text → Option Nat
  | [] => none
  | '}' :: _ => some 0
  | _ :: rest => (unquotedLength rest).map (· + 1)

/-- `zbx_user_macro_parse`; `wantsOp` stands for a `context_op` that is not NULL. -/
def zbxUserMacroParse (text : Text) (wantsOp : Bool) : Option Location :=
  let i := 2 + ((text.drop 2).takeWhile isMacroChar).length
  if i = 2 then none
  else
    match text.drop i with
    | '}' :: _ => some { macroR := i, contextL := 0, contextR := 0, contextOp := .equal }
    | ':' :: rest =>
      let isRegexp := wantsOp && zbxMacroRegexPrefix.isPrefixOf rest
      let contextOp := if isRegexp then ContextOp.regexp else .equal
      let i := if isRegexp then i + 1 + zbxMacroRegexPrefix.length else i + 1
      let contextL := i + blankCount (text.drop i)
      match text.drop contextL with
      | '"' :: quoted =>
        (quotedLength quoted).bind fun length =>
          let contextR := contextL + 1 + length
          let i := contextR + 1 + blankCount (text.drop (contextR + 1))
          if (text.drop i).head? = some '}' then
            some { macroR := i, contextL, contextR, contextOp }
          else none
      | unquoted =>
        (unquotedLength unquoted).map fun length =>
          { macroR := contextL + length, contextL, contextR := contextL + length - 1, contextOp }
    | _ => none

/-- The loop of `zbx_user_macro_unquote_context_dyn`. -/
def copyContext (quoted : Bool) : Nat → Text → Text
  | 0, _ => []
  | _ + 1, [] => []
  | len + 1, '\\' :: '"' :: rest =>
    if quoted then '"' :: copyContext quoted (len - 1) rest
    else '\\' :: copyContext quoted len ('"' :: rest)
  | len + 1, c :: rest => c :: copyContext quoted len rest

def zbxUserMacroUnquoteContextDyn (context : Text) (len : Nat) : Text :=
  match context with
  | '"' :: context => (copyContext true (len - 1) context).dropLast
  | context => copyContext false len context

/-- The name, the context and the length of a macro. -/
structure UserMacro where
  name : Text
  context : Option Text
  length : Nat
  contextOp : ContextOp
deriving DecidableEq

def zbxUserMacroParseDyn (text : Text) (wantsOp : Bool) : Option UserMacro :=
  (zbxUserMacroParse text wantsOp).map fun location =>
    if location.contextL ≠ 0 then
      -- back over the blanks before the context
      let separator := location.contextL - 1 - blankCount (text.take location.contextL).reverse
      let separator :=
        if location.contextOp = .regexp then separator - zbxMacroRegexPrefix.length else separator
      { name := text.take separator ++ ['}']
        context := some (zbxUserMacroUnquoteContextDyn (text.drop location.contextL)
          (location.contextR + 1 - location.contextL))
        length := location.macroR + 1
        contextOp := location.contextOp }
    else
      { name := text.take (location.macroR + 1)
        context := none
        length := location.macroR + 1
        contextOp := location.contextOp }

/-- A backslash before each quote. -/
def escapeQuotes : Text → Text
  | [] => []
  | '"' :: rest => '\\' :: '"' :: escapeQuotes rest
  | c :: rest => c :: escapeQuotes rest

/-- The context starts with a quote or a blank, or has a brace in it. -/
def needsQuotes (context : Text) : Bool :=
  context.head? = some '"' || context.head? = some ' ' || context.contains '}'

def zbxUserMacroQuoteContextDyn (context : Text) (forceQuote : Bool) : Text :=
  if forceQuote || needsQuotes context then '"' :: (escapeQuotes context ++ ['"']) else context

/-! ## Quoted contexts -/

variable {context rest : Text} {c : Char}

theorem quotedLength_cons (notQuote : c ≠ '"') (notEscape : c ≠ '\\' ∨ rest.head? ≠ some '"') :
    quotedLength (c :: rest) = (quotedLength rest).map (· + 1) := by
  rw [quotedLength]
  · exact notQuote
  · rintro others rfl rfl
    exact notEscape.elim (fun other => other rfl) fun other => other rfl

theorem copyContext_cons {quoted : Bool} {len : Nat}
    (notEscape : quoted = false ∨ c ≠ '\\' ∨ rest.head? ≠ some '"') :
    copyContext quoted (len + 1) (c :: rest) = c :: copyContext quoted len rest := by
  by_cases isEscape : c = '\\' ∧ rest.head? = some '"'
  · obtain ⟨rfl, isQuote⟩ := isEscape
    obtain ⟨others, rfl⟩ := head?_eq_some_iff.mp isQuote
    obtain rfl := notEscape.resolve_right fun other => other.elim (· rfl) (· isQuote)
    rw [copyContext, if_neg Bool.false_ne_true]
  · rw [copyContext]
    rintro others rfl rfl
    exact isEscape ⟨rfl, rfl⟩

theorem escapeQuotes_cons (notQuote : c ≠ '"') :
    escapeQuotes (c :: rest) = c :: escapeQuotes rest := by
  rw [escapeQuotes]
  exact notQuote

theorem head?_escapeQuotes_append (nonempty : rest ≠ []) (after : Text) :
    (escapeQuotes rest ++ after).head? ≠ some '"' := by
  cases rest with
  | nil => exact absurd rfl nonempty
  | cons c others =>
    by_cases isQuote : c = '"'
    · subst isQuote
      rw [escapeQuotes, cons_append, head?_cons]
      decide
    · rw [escapeQuotes_cons isQuote, cons_append, head?_cons]
      exact fun same => isQuote (some.inj same)

/-- A backslash of the context is followed by a quote only where the context ends with it. -/
theorem notEscape_of_getLast (complete : (c :: rest).getLast? ≠ some '\\') (after : Text) :
    c ≠ '\\' ∨ (escapeQuotes rest ++ after).head? ≠ some '"' := by
  cases rest with
  | nil => exact Or.inl fun isBackslash => complete (congrArg some isBackslash)
  | cons next others => exact Or.inr (head?_escapeQuotes_append (cons_ne_nil _ _) after)

theorem getLast?_tail (complete : (c :: rest).getLast? ≠ some '\\') :
    rest.getLast? ≠ some '\\' := by
  intro isLast
  rw [getLast?_cons, isLast] at complete
  exact complete rfl

theorem quotedLength_escapeQuotes (complete : context.getLast? ≠ some '\\') (after : Text) :
    quotedLength (escapeQuotes context ++ '"' :: after) = some (escapeQuotes context).length := by
  induction context with
  | nil => rfl
  | cons c rest ih =>
    have later := ih (getLast?_tail complete)
    by_cases isQuote : c = '"'
    · subst isQuote
      rw [escapeQuotes, cons_append, cons_append, quotedLength, later]
      rfl
    · rw [escapeQuotes_cons isQuote, cons_append,
        quotedLength_cons isQuote (notEscape_of_getLast complete _), later]
      rfl

theorem copyContext_escapeQuotes (complete : context.getLast? ≠ some '\\') (len : Nat)
    (after : Text) :
    copyContext true ((escapeQuotes context).length + len) (escapeQuotes context ++ '"' :: after) =
      context ++ copyContext true len ('"' :: after) := by
  induction context with
  | nil =>
    rw [escapeQuotes, length_nil, Nat.zero_add, nil_append, nil_append]
  | cons c rest ih =>
    have later := ih (getLast?_tail complete)
    by_cases isQuote : c = '"'
    · subst isQuote
      rw [escapeQuotes, length_cons, length_cons, Nat.add_right_comm, cons_append,
        cons_append, copyContext, if_pos rfl, Nat.add_right_comm, Nat.add_sub_cancel, later]
      rfl
    · rw [escapeQuotes_cons isQuote, length_cons, Nat.add_right_comm, cons_append,
        copyContext_cons (Or.inr (notEscape_of_getLast complete _)), later]
      rfl

theorem quotedLength_eq_none (noQuote : '"' ∉ rest) : quotedLength rest = none := by
  fun_induction quotedLength rest with
  | case1 => rfl
  | case2 => exact absurd mem_cons_self noQuote
  | case3 => exact absurd (mem_cons_of_mem _ mem_cons_self) noQuote
  | case4 c others _ _ ih =>
    rw [ih fun member => noQuote (mem_cons_of_mem _ member)]
    rfl

theorem quotedLength_of_backslash (isLast : context.getLast? = some '\\')
    (noQuote : '"' ∉ rest) : quotedLength (escapeQuotes context ++ '"' :: rest) = none := by
  induction context with
  | nil => cases isLast
  | cons c others ih =>
    by_cases isEmpty : others = []
    · subst isEmpty
      obtain rfl := some.inj isLast
      rw [escapeQuotes_cons (by decide), escapeQuotes, cons_append, nil_append,
        quotedLength, quotedLength_eq_none noQuote]
      rfl
    · have later : others.getLast? = some '\\' := by
        rw [getLast?_cons] at isLast
        rw [getLast?_eq_some_getLast isEmpty] at isLast ⊢
        exact isLast
      have notEscape := head?_escapeQuotes_append isEmpty ('"' :: rest)
      by_cases isQuote : c = '"'
      · subst isQuote
        rw [escapeQuotes, cons_append, cons_append, quotedLength, ih later]
        rfl
      · rw [escapeQuotes_cons isQuote, cons_append,
          quotedLength_cons isQuote (Or.inr notEscape), ih later]
        rfl

/-! ## Contexts without quotes -/

theorem unquotedLength_append (noBrace : '}' ∉ context) (after : Text) :
    unquotedLength (context ++ '}' :: after) = some context.length := by
  induction context with
  | nil => rfl
  | cons c rest ih =>
    rw [mem_cons, not_or] at noBrace
    obtain ⟨notBrace, later⟩ := noBrace
    rw [cons_append, unquotedLength, ih later]
    · rfl
    · exact fun same => notBrace same.symm

theorem copyContext_plain (len : Nat) (context after : Text) (same : len = context.length) :
    copyContext false len (context ++ after) = context := by
  subst same
  induction context with
  | nil => rw [length_nil, copyContext]
  | cons c rest ih =>
    rw [length_cons, cons_append, copyContext_cons (Or.inl rfl), ih]

/-! ## Macros with a context -/

structure MacroName where
  text : Text
  nonempty : text ≠ []
  isValid : ∀ c ∈ text, isMacroChar c = true

/-- `{$NAME:context}`, where the context is written as given. -/
def macroText (name : MacroName) (written : Text) : Text :=
  ['{', '$'] ++ (name.text ++ ':' :: (written ++ ['}']))

/-- Where the context starts. -/
def contextStart (name : MacroName) : Nat :=
  2 + name.text.length + 1

variable {name : MacroName} {written : Text}

theorem macroText_eq (name : MacroName) (written : Text) :
    macroText name written = (['{', '$'] ++ name.text) ++ ':' :: (written ++ ['}']) :=
  rfl

theorem macroText_eq_start (name : MacroName) (written : Text) :
    macroText name written = (['{', '$'] ++ name.text ++ [':']) ++ (written ++ ['}']) := by
  rw [macroText_eq, append_assoc _ [':'], singleton_append]

theorem length_name (name : MacroName) :
    (['{', '$'] ++ name.text).length = 2 + name.text.length := by
  rw [length_append]
  rfl

theorem length_start (name : MacroName) :
    (['{', '$'] ++ name.text ++ [':']).length = contextStart name := by
  rw [length_append, length_name]
  rfl

theorem takeWhile_name (name : MacroName) (written : Text) :
    ((macroText name written).drop 2).takeWhile isMacroChar = name.text :=
  (split_while name.isValid rfl _).1

theorem drop_name (name : MacroName) (written : Text) :
    (macroText name written).drop (2 + name.text.length) = ':' :: (written ++ ['}']) := by
  rw [macroText_eq, ← length_name, drop_left]

theorem take_name (name : MacroName) (written : Text) :
    (macroText name written).take (2 + name.text.length) = ['{', '$'] ++ name.text := by
  rw [macroText_eq, ← length_name, take_left]

theorem take_contextStart (name : MacroName) (written : Text) :
    (macroText name written).take (contextStart name) = ['{', '$'] ++ name.text ++ [':'] := by
  rw [macroText_eq_start, ← length_start, take_left]

theorem drop_contextStart (name : MacroName) (written : Text) (count : Nat) :
    (macroText name written).drop (contextStart name + count) = (written ++ ['}']).drop count := by
  rw [macroText_eq_start, ← length_start, drop_length_add_append]

theorem zbxUserMacroParseDyn_location {location : Location}
    (isStart : location.contextL = contextStart name) (isEqual : location.contextOp = .equal)
    (parsed : zbxUserMacroParse (macroText name written) false = some location) :
    zbxUserMacroParseDyn (macroText name written) false = some
      { name := ['{', '$'] ++ name.text ++ ['}']
        context := some (zbxUserMacroUnquoteContextDyn (written ++ ['}'])
          (location.contextR + 1 - contextStart name))
        length := location.macroR + 1
        contextOp := .equal } := by
  have notNone : contextStart name ≠ 0 := Nat.succ_ne_zero _
  have noBlanks : blankCount (['{', '$'] ++ name.text ++ [':']).reverse = 0 := by
    rw [reverse_append]
    rfl
  have dropped := drop_contextStart name written 0
  rw [Nat.add_zero, drop_zero] at dropped
  have separator : contextStart name - 1 - 0 = 2 + name.text.length := rfl
  rw [zbxUserMacroParseDyn, parsed, map_some, isStart, isEqual, if_pos notNone,
    take_contextStart, noBlanks, dropped, separator]
  simp only [reduceCtorEq, if_false, take_name]

/-- The context is found right after the separator unless it starts with a blank. -/
theorem zbxUserMacroParse_eq (notBlank : written.head? ≠ some ' ') :
    zbxUserMacroParse (macroText name written) false =
      match written ++ ['}'] with
      | '"' :: quoted =>
        (quotedLength quoted).bind fun length =>
          let contextR := contextStart name + 1 + length
          let i := contextR + 1 + blankCount ((macroText name written).drop (contextR + 1))
          if ((macroText name written).drop i).head? = some '}' then
            some { macroR := i, contextL := contextStart name, contextR, contextOp := .equal }
          else none
      | unquoted =>
        (unquotedLength unquoted).map fun length =>
          { macroR := contextStart name + length, contextL := contextStart name
            contextR := contextStart name + length - 1, contextOp := .equal } := by
  have notEmpty : 2 + name.text.length ≠ 2 := by
    have positive := length_pos_iff.mpr name.nonempty
    omega
  have noBlanks : blankCount (written ++ ['}']) = 0 := by
    cases written with
    | nil => rfl
    | cons c rest =>
      have isOther : c ≠ ' ' := by
        rintro rfl
        exact notBlank rfl
      simp [blankCount, isOther]
  have dropped := drop_contextStart name written 0
  rw [Nat.add_zero, drop_zero, contextStart] at dropped
  rw [zbxUserMacroParse, takeWhile_name, if_neg notEmpty, drop_name]
  simp only [Bool.false_and, Bool.false_eq_true, if_false, dropped, noBlanks, Nat.add_zero]
  rfl

theorem length_macroText (name : MacroName) (written : Text) :
    (macroText name written).length = contextStart name + written.length + 1 := by
  rw [macroText_eq_start, length_append, length_start, length_append]
  rfl

theorem zbxUserMacroParseDyn_plain (isPlain : needsQuotes context = false) :
    zbxUserMacroParseDyn (macroText name context) false = some
      { name := ['{', '$'] ++ name.text ++ ['}']
        context := some context
        length := (macroText name context).length
        contextOp := .equal } := by
  simp only [needsQuotes, Bool.or_eq_false_iff, decide_eq_false_iff_not, contains_eq_mem] at isPlain
  obtain ⟨⟨notQuote, notBlank⟩, noBrace⟩ := isPlain
  have notQuoted (quoted : Text) : context ++ ['}'] ≠ '"' :: quoted := by
    intro same
    cases context with
    | nil => cases same
    | cons c rest => exact notQuote (congrArg some (cons.inj same).1)
  have found : zbxUserMacroParse (macroText name context) false = some
      { macroR := contextStart name + context.length
        contextL := contextStart name
        contextR := contextStart name + context.length - 1
        contextOp := .equal } := by
    rw [zbxUserMacroParse_eq notBlank]
    split
    next quoted shape => exact absurd shape (notQuoted quoted)
    next => rw [unquotedLength_append noBrace, map_some]
  have sameLength : contextStart name + context.length - 1 + 1 - contextStart name =
      context.length := by
    rw [contextStart]
    omega
  rw [zbxUserMacroParseDyn_location rfl rfl found, length_macroText, sameLength,
    zbxUserMacroUnquoteContextDyn]
  · rw [copyContext_plain _ _ _ rfl]
  · exact notQuoted

theorem zbxUserMacroParse_quoted (written : Text) :
    zbxUserMacroParse (macroText name ('"' :: (written ++ ['"']))) false =
      (quotedLength (written ++ ['"', '}'])).bind fun length =>
        let contextR := contextStart name + 1 + length
        let i := contextR + 1 +
          blankCount ((macroText name ('"' :: (written ++ ['"']))).drop (contextR + 1))
        if ((macroText name ('"' :: (written ++ ['"']))).drop i).head? = some '}' then
          some { macroR := i, contextL := contextStart name, contextR, contextOp := .equal }
        else none := by
  rw [zbxUserMacroParse_eq (by simp)]
  simp only [cons_append, append_assoc, nil_append]

theorem zbxUserMacroParseDyn_quoted (complete : context.getLast? ≠ some '\\') :
    zbxUserMacroParseDyn (macroText name ('"' :: (escapeQuotes context ++ ['"']))) false = some
      { name := ['{', '$'] ++ name.text ++ ['}']
        context := some context
        length := (macroText name ('"' :: (escapeQuotes context ++ ['"']))).length
        contextOp := .equal } := by
  have rest : (macroText name ('"' :: (escapeQuotes context ++ ['"']))).drop
      (contextStart name + 1 + (escapeQuotes context).length + 1) = ['}'] := by
    have isCount : contextStart name + 1 + (escapeQuotes context).length + 1 =
        contextStart name + ('"' :: (escapeQuotes context ++ ['"'])).length := by
      rw [length_cons, length_append, length_singleton]
      omega
    rw [isCount, drop_contextStart, drop_left]
  have noBlanks : blankCount ['}'] = 0 := rfl
  have found : zbxUserMacroParse (macroText name ('"' :: (escapeQuotes context ++ ['"']))) false =
      some
      { macroR := contextStart name + 1 + (escapeQuotes context).length + 1
        contextL := contextStart name
        contextR := contextStart name + 1 + (escapeQuotes context).length
        contextOp := .equal } := by
    rw [zbxUserMacroParse_quoted, quotedLength_escapeQuotes complete, bind_some]
    simp only [rest, noBlanks, Nat.add_zero, head?_cons, if_true]
  have sameLength : contextStart name + 1 + (escapeQuotes context).length + 1 - contextStart name =
      (escapeQuotes context).length + 1 + 1 := by
    omega
  have content := copyContext_escapeQuotes complete 1 ['}']
  have closing : copyContext true 1 ['"', '}'] = ['"'] := by decide
  have isContext : zbxUserMacroUnquoteContextDyn ('"' :: (escapeQuotes context ++ ['"']) ++ ['}'])
      ((escapeQuotes context).length + 1 + 1) = context := by
    change (copyContext true ((escapeQuotes context).length + 1)
      (escapeQuotes context ++ ['"'] ++ ['}'])).dropLast = context
    rw [append_assoc, singleton_append, content, closing, dropLast_concat]
  have isLength : contextStart name + 1 + (escapeQuotes context).length + 1 + 1 =
      contextStart name + ('"' :: (escapeQuotes context ++ ['"'])).length + 1 := by
    rw [length_cons, length_append, length_singleton]
    omega
  rw [zbxUserMacroParseDyn_location rfl rfl found, length_macroText, sameLength, isContext, isLength]

/-- What a quoted context is read as: itself, unless a backslash at its end takes the closing
quote for a part of it. -/
theorem zbxUserMacroParseDyn_quote_iff (name : MacroName) (context : Text) (forceQuote : Bool) :
    zbxUserMacroParseDyn (macroText name (zbxUserMacroQuoteContextDyn context forceQuote)) false =
        some
          { name := ['{', '$'] ++ name.text ++ ['}']
            context := some context
            length := (macroText name (zbxUserMacroQuoteContextDyn context forceQuote)).length
            contextOp := .equal } ↔
      ¬((forceQuote || needsQuotes context) = true ∧ context.getLast? = some '\\') := by
  rw [zbxUserMacroQuoteContextDyn]
  split_ifs with isQuoted
  · rw [not_and]
    constructor
    · intro parsed _ isLast
      rw [zbxUserMacroParseDyn, zbxUserMacroParse_quoted,
        quotedLength_of_backslash isLast (by decide)] at parsed
      cases parsed
    · exact fun complete => zbxUserMacroParseDyn_quoted (complete isQuoted)
  · rw [Bool.or_eq_true, not_or, Bool.not_eq_true, Bool.not_eq_true] at isQuoted
    exact iff_of_true (zbxUserMacroParseDyn_plain isQuoted.2) (by simp [isQuoted])

/-- `a\` does not come back from `{$A:"a\"}`. -/
theorem zbxUserMacroParseDyn_trailing_backslash :
    ¬∀ (name : MacroName) (context : Text) (forceQuote : Bool),
      zbxUserMacroParseDyn (macroText name (zbxUserMacroQuoteContextDyn context forceQuote)) false =
        some
          { name := ['{', '$'] ++ name.text ++ ['}']
            context := some context
            length := (macroText name (zbxUserMacroQuoteContextDyn context forceQuote)).length
            contextOp := .equal } := by
  intro roundTrip
  have parsed := roundTrip ⟨['A'], by decide, List.all_eq_true.mp (by decide)⟩ ['a', '\\'] true
  exact absurd parsed (by decide)

end Zabbix.Common.MacroContext
