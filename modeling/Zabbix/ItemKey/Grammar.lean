import Zabbix.ItemKey.Params

/-!
# The grammar of parameter lists

What a parameter list is, apart from the code that reads it.  A list has one or
more parameters with commas between them; a parameter is a value or an array of
values in brackets.  A value is nothing, or unquoted, or in quotes, where a quote
in the text has a backslash before it.  Blanks may stand before a value and after
quotes and brackets.
-/

namespace Zabbix.ItemKey.Grammar

open Common.Text ParseKey Params List

/-- The text between quotes: each quote has a backslash before it, and the last character
is not a backslash. -/
def QuotedBody : Text → Prop
  | [] => True
  | '\\' :: '"' :: rest => QuotedBody rest
  | ['\\'] => False
  | '"' :: _ => False
  | _ :: rest => QuotedBody rest

inductive Content where
  | empty
  | unquoted (first : Char) (rest : Text)
  | quoted (body : Text) (after : Nat)

/-- A character that ends an unquoted value. -/
def isDelimiter (char : Char) : Bool :=
  char == ',' || char == ']'

def Content.Valid : Content → Prop
  | .empty => True
  | .unquoted first rest =>
    first ≠ ' ' ∧ first ≠ '"' ∧ first ≠ '[' ∧ isDelimiter first = false ∧
      ∀ char ∈ rest, isDelimiter char = false
  | .quoted body _ => QuotedBody body

def Content.text : Content → Text
  | .empty => []
  | .unquoted first rest => first :: rest
  | .quoted body _ => '"' :: body ++ ['"']

def Content.isQuoted : Content → Bool
  | .quoted _ _ => true
  | _ => false

def Content.after : Content → Nat
  | .quoted _ after => after
  | _ => 0

/-- A value, with the blanks before it. -/
structure Element where
  before : Nat
  content : Content
  valid : content.Valid

def Element.render (element : Element) : Text :=
  blanks element.before ++ element.content.text ++ blanks element.content.after

/-- One or more things with commas between them. -/
structure Listed (Item : Type) where
  first : Item
  others : List Item

def Listed.toList {Item : Type} (listed : Listed Item) : List Item :=
  listed.first :: listed.others

def Listed.render {Item : Type} (render : Item → Text) (listed : Listed Item) : Text :=
  render listed.first ++ listed.others.flatMap fun item => ',' :: render item

inductive Param where
  | single (element : Element)
  | array (before : Nat) (elements : Listed Element) (after : Nat)

def Param.render : Param → Text
  | .single element => element.render
  | .array before elements after =>
    blanks before ++ '[' :: elements.render Element.render ++ ']' :: blanks after

abbrev ParamList := Listed Param

def renderParams (params : ParamList) : Text :=
  params.render Param.render

/-- What may come after a value: the end, a comma, or the bracket that closes an array. -/
def Ends (array : Bool) (rest : Text) : Prop :=
  rest = [] ∨ rest.head? = some ',' ∨ (array = true ∧ rest.head? = some ']')

variable {array : Bool} {ret : Nat} {text rest body : Text} {char : Char}

theorem ends_nil : Ends array [] :=
  Or.inl rfl

theorem ends_comma : Ends array (',' :: rest) :=
  Or.inr (Or.inl rfl)

theorem ends_bracket : Ends true (']' :: rest) :=
  Or.inr (Or.inr ⟨rfl, rfl⟩)

theorem skipBlanks_ends (ends : Ends array rest) : skipBlanks rest = rest := by
  cases rest with
  | nil => rfl
  | cons char later =>
    apply skipBlanks_cons
    rintro rfl
    rcases ends with empty | isComma | ⟨-, isBracket⟩
    · cases empty
    · simp at isComma
    · simp at isBracket

/-! ## Passing over values -/

/--
A reader of parameter lists passes over the characters of a value one by one, and
comes to what `ends` the value in its initial state.
-/
structure Skims {Result : Type} (ends : Text → Prop) (read : ParamState → Text → Result) :
    Prop where
  noBlank : ∀ rest, ends rest → skipBlanks rest = rest
  blank : ∀ rest, read .init (' ' :: rest) = read .init rest
  quote : ∀ rest, read .init ('"' :: rest) = read .quoted rest
  start :
    ∀ char rest, char ≠ ' ' → char ≠ '"' → char ≠ '[' → isDelimiter char = false →
      read .init (char :: rest) = read .unquoted rest
  plain :
    ∀ char rest, isDelimiter char = false →
      read .unquoted (char :: rest) = read .unquoted rest
  value : ∀ rest, ends rest → read .unquoted rest = read .init rest
  escaped : ∀ rest, read .quoted ('\\' :: '"' :: rest) = read .quoted rest
  inside :
    ∀ char rest, char ≠ '"' → ¬(char = '\\' ∧ rest.head? = some '"') →
      read .quoted (char :: rest) = read .quoted rest
  closed :
    ∀ rest, ends (skipBlanks rest) → read .quoted ('"' :: rest) = read .init (skipBlanks rest)

variable {Result : Type} {ends : Text → Prop} {read : ParamState → Text → Result}

theorem skims_blanks (skims : Skims ends read) (count : Nat) (rest : Text) :
    read .init (blanks count ++ rest) = read .init rest := by
  induction count with
  | zero => rfl
  | succ count ih =>
    rw [blanks, replicate_succ, cons_append, skims.blank]
    exact ih

theorem skims_plain (skims : Skims ends read) (plain : ∀ char ∈ text, isDelimiter char = false)
    (rest : Text) : read .unquoted (text ++ rest) = read .unquoted rest := by
  induction text with
  | nil => rfl
  | cons char later ih =>
    rw [cons_append, skims.plain char _ (plain char (mem_cons_self ..)),
      ih fun other member => plain other (mem_cons_of_mem _ member)]

/-- A character of a body that starts no escape starts none before any text either. -/
theorem not_escape {later : Text} (notEscaped : ∀ rest, char = '\\' → later = '"' :: rest → False)
    (notLast : char = '\\' → later = [] → False) (after : Text) :
    ¬(char = '\\' ∧ (later ++ after).head? = some '"') := by
  rintro ⟨isBackslash, isQuote⟩
  cases later with
  | nil => exact notLast isBackslash rfl
  | cons next rest =>
    obtain rfl := Option.some.inj isQuote
    exact notEscaped rest isBackslash rfl

theorem skims_body (skims : Skims ends read) (isBody : QuotedBody body) (rest : Text) :
    read .quoted (body ++ '"' :: rest) = read .quoted ('"' :: rest) := by
  fun_induction QuotedBody body with
  | case1 => rfl
  | case2 later ih =>
    rw [cons_append, cons_append, skims.escaped, ih isBody]
  | case3 => exact isBody.elim
  | case4 => exact isBody.elim
  | case5 char later notEscaped notLast notQuote ih =>
    rw [cons_append, skims.inside char _ notQuote, ih isBody]
    exact not_escape notEscaped notLast _

theorem skims_element (skims : Skims ends read) (element : Element) (isEnd : ends rest) :
    read .init (element.render ++ rest) = read .init rest := by
  obtain ⟨before, content, valid⟩ := element
  rw [Element.render, append_assoc, append_assoc, skims_blanks skims]
  cases content with
  | empty => rfl
  | unquoted first later =>
    obtain ⟨notBlank, notQuote, notBracket, notDelimiter, plain⟩ := valid
    change read .init (first :: (later ++ rest)) = _
    rw [skims.start first _ notBlank notQuote notBracket notDelimiter, skims_plain skims plain,
      skims.value rest isEnd]
  | quoted body after =>
    have skipped : skipBlanks (blanks after ++ rest) = rest := by
      rw [skipBlanks_blanks, skims.noBlank rest isEnd]
    change read .init ('"' :: (body ++ ['"'] ++ (blanks after ++ rest))) = _
    rw [skims.quote, append_assoc, singleton_append, skims_body skims valid,
      skims.closed _ (by rw [skipped]; exact isEnd), skipped]

/-- A reader that also passes over arrays: `inner` is the reader inside the brackets. -/
structure SkimsParams {Result : Type} (ends : Text → Prop)
    (outer inner : ParamState → Text → Result) : Prop where
  values : Skims ends outer
  elements : Skims (Ends true) inner
  comma : ∀ rest, inner .init (',' :: rest) = inner .init rest
  opened : ∀ rest, outer .init ('[' :: rest) = inner .init rest
  closed :
    ∀ rest, ends (skipBlanks rest) → inner .init (']' :: rest) = outer .init (skipBlanks rest)

variable {outer inner : ParamState → Text → Result}

/-- A reader passes over the values of an array. -/
theorem skims_elements (skims : SkimsParams ends outer inner) (elements : Listed Element)
    (rest : Text) :
    inner .init (elements.render Element.render ++ ']' :: rest) = inner .init (']' :: rest) := by
  obtain ⟨first, others⟩ := elements
  rw [Listed.render, append_assoc]
  induction others generalizing first with
  | nil => exact skims_element skims.elements first ends_bracket
  | cons next later ih =>
    rw [flatMap_cons, append_assoc, cons_append,
      skims_element skims.elements first ends_comma, skims.comma]
    exact ih next

theorem skims_param (skims : SkimsParams ends outer inner) (param : Param) (isEnd : ends rest) :
    outer .init (param.render ++ rest) = outer .init rest := by
  cases param with
  | single element => exact skims_element skims.values element isEnd
  | array before elements after =>
    have skipped : skipBlanks (blanks after ++ rest) = rest := by
      rw [skipBlanks_blanks, skims.values.noBlank rest isEnd]
    rw [Param.render, append_assoc, append_assoc, skims_blanks skims.values]
    change outer .init ('[' :: (elements.render Element.render ++ ']' :: (blanks after ++ rest))) = _
    rw [skims.opened, skims_elements skims, skims.closed _ (by rw [skipped]; exact isEnd), skipped]

end Zabbix.ItemKey.Grammar
