import Zabbix.Common.MacroContext
import Zabbix.ItemKey.Agents
import Zabbix.ItemKey.Calls
import Mathlib.Data.List.Forall2

/-!
# Macros in the parameters of item keys

`substitute_key_macros` replaces the macros of each value in a parameter list, and writes the new
value with quotes where it needs them.  Whatever the macros stand for, no value gets out of its
parameter.
-/

namespace Zabbix.ItemKey.KeyMacros

open Common.Text Common.MacroContext ParseKey Params Replace Grammar Reading Values Calls List
open Agents (parse_name parse_params closed_iff params_render)
open Recognition (quotedBody_cons)
open Requests (parseItemKey)

/-- The backslashes before quotes are left out, and so is the last character. -/
def unquoteKeyParam (param : Text) : Text :=
  if param.head? = some '"' then (unescape param.tail).dropLast else param

/-- The text would not be read as an unquoted value. -/
def isSpecial (param : Text) : Bool :=
  param.head? = some '"' || param.head? = some ' ' || param.head? = some '[' ||
    param.contains ',' || param.contains ']'

/-- `quote_key_param`; `none` is `FAIL`. -/
def quoteKeyParam (param : Text) (forced : Bool) : Option Text :=
  if !forced && !isSpecial param then some param
  else if param.getLast? = some '\\' then none
  else some ('"' :: (escapeQuotes param ++ ['"']))

/-- `replace_key_param_cb` for an item key; `substitute` is what the macros in a text are
replaced by. -/
def replaceKeyParamCb (substitute : Text → Text) : ReplaceKeyParam := fun call =>
  if call.level = 0 then (true, none)
  else if call.text.contains '{' then
    let param := quoteKeyParam (substitute (unquoteKeyParam call.text)) call.quoted
    (param.isSome, param)
  else (true, none)

/-- `substitute_key_macros_impl` for `MACRO_TYPE_ITEM_KEY`. -/
def substituteKeyMacrosImpl (substitute : Text → Text) (data : Text) : Replaced :=
  replaceKeyParamsDyn data (replaceKeyParamCb substitute)

variable {substitute : Text → Text} {text rest body value done : Text} {char : Char}
variable {element : Element} {level : Int} {num : Nat} {calls : List Call}

/-! ## Quotes -/

theorem unescape_other (notEscape : ¬(char = '\\' ∧ body.head? = some '"')) :
    unescape (char :: body) = char :: unescape body :=
  @bodyText_cons 0 body char notEscape

theorem unescape_closed (isBody : QuotedBody body) :
    unescape (body ++ ['"']) = unescape body ++ ['"'] := by
  fun_induction QuotedBody body with
  | case1 => rfl
  | case2 later ih => simp [unescape, ih isBody]
  | case3 => exact isBody.elim
  | case4 => exact isBody.elim
  | case5 char later notEscaped notLast notQuote ih =>
    have notEscape (after : Text) := not_escape notEscaped notLast after
    rw [cons_append, unescape_other (notEscape _), ih isBody,
      unescape_other (append_nil later ▸ notEscape []), cons_append]

theorem brace_unescape (text : Text) : '{' ∈ unescape text ↔ '{' ∈ text := by
  fun_induction unescape text with
  | case1 => rfl
  | case2 rest ih => simp [ih]
  | case3 char rest _ ih => simp [ih]

theorem quotedBody_escapeQuotes (complete : text.getLast? ≠ some '\\') :
    QuotedBody (escapeQuotes text) ∧ unescape (escapeQuotes text) = text := by
  induction text with
  | nil => exact ⟨trivial, rfl⟩
  | cons char later ih =>
    have isComplete : later.getLast? ≠ some '\\' := fun isLast => complete (by
      rw [getLast?_cons, isLast, Option.getD_some])
    obtain ⟨isBody, same⟩ := ih isComplete
    by_cases isQuote : char = '"'
    · subst isQuote
      exact ⟨isBody, congrArg ('"' :: ·) same⟩
    · have notEscape (after : Text) :
          ¬(char = '\\' ∧ (escapeQuotes later ++ after).head? = some '"') := by
        rintro ⟨rfl, isHead⟩
        cases later with
        | nil => exact complete rfl
        | cons next others => exact head?_escapeQuotes_append (cons_ne_nil _ _) _ isHead
      rw [escapeQuotes_cons isQuote,
        unescape_other (append_nil (escapeQuotes later) ▸ notEscape []), same]
      exact ⟨quotedBody_cons isQuote isBody (notEscape ('"' :: [])), rfl⟩

/-! ## Values -/

/-- What a value is after the substitution. -/
def substituted (substitute : Text → Text) (value : Text) : Text :=
  if '{' ∈ value then substitute value else value

/-- The new value can be written in place of the old one. -/
def Fits (substitute : Text → Text) (element : Element) : Prop :=
  '{' ∈ Element.value element →
    (quoteKeyParam (substitute (Element.value element)) element.content.isQuoted).isSome

/-- A value is replaced where it stands. -/
structure Becomes (substitute : Text → Text) (element after : Element) : Prop where
  fits : Fits substitute element
  value : Element.value after = substituted substitute (Element.value element)

theorem unquoteKeyParam_text (element : Element) :
    unquoteKeyParam element.content.text = Element.value element := by
  obtain ⟨before, content, valid⟩ := element
  cases content with
  | empty => rfl
  | unquoted first later =>
    exact if_neg fun isQuote => valid.2.1 (Option.some.inj isQuote)
  | quoted body after =>
    have closed := congrArg dropLast (unescape_closed valid)
    rw [dropLast_concat] at closed
    exact closed

theorem brace_text (element : Element) :
    element.content.text.contains '{' ↔ '{' ∈ Element.value element := by
  obtain ⟨before, content, valid⟩ := element
  rw [contains_iff_mem]
  cases content with
  | empty => rfl
  | unquoted first later => rfl
  | quoted body after =>
    simp only [Content.text, Element.value, brace_unescape]
    simp

/-- What `quote_key_param` writes is a value of the grammar. -/
theorem quoteKeyParam_content {forced : Bool} (written : quoteKeyParam value forced = some text)
    (before after : Nat) (unforced : forced = false → after = 0) :
    ∃ element : Element, element.before = before ∧ element.content.after = after ∧
      element.content.text = text ∧ Element.value element = value := by
  unfold quoteKeyParam at written
  split_ifs at written with plain isLast
  · obtain rfl := Option.some.inj written
    obtain ⟨notForced, isPlain⟩ := (Bool.and_eq_true ..).mp plain
    obtain rfl := unforced (by simpa using notForced)
    cases value with
    | nil => exact ⟨⟨before, .empty, trivial⟩, rfl, rfl, rfl, rfl⟩
    | cons first later =>
      refine ⟨⟨before, .unquoted first later, ?_⟩, rfl, rfl, rfl, rfl⟩
      simp only [isSpecial, head?_cons, Option.some.injEq, Bool.not_eq_true', Bool.or_eq_false_iff,
        contains_eq_mem, decide_eq_false_iff_not, mem_cons, not_or] at isPlain
      obtain ⟨⟨⟨⟨notQuote, notBlank⟩, notBracket⟩, noComma⟩, noClosing⟩ := isPlain
      refine ⟨notBlank, notQuote, notBracket, ?_, fun other isOther => ?_⟩
      · simp [isDelimiter, Ne.symm noComma.1, Ne.symm noClosing.1]
      · simp only [isDelimiter, Bool.or_eq_false_iff, beq_eq_false_iff_ne]
        exact ⟨fun same => noComma.2 (same ▸ isOther), fun same => noClosing.2 (same ▸ isOther)⟩
  · obtain rfl := Option.some.inj written
    obtain ⟨isBody, same⟩ := quotedBody_escapeQuotes isLast
    exact ⟨⟨before, .quoted _ after, isBody⟩, rfl, rfl, rfl, same⟩

theorem replaceKeyParamCb_element (opened : level ≠ 0) (num : Nat) (element : Element) :
    (¬Fits substitute element ∧
        (replaceKeyParamCb substitute (Element.call level num element)).1 = false) ∨
      ∃ after : Element, Becomes substitute element after ∧ after.before = element.before ∧
        after.content.after = element.content.after ∧
        (replaceKeyParamCb substitute (Element.call level num element)).1 = true ∧
        (replaceKeyParamCb substitute (Element.call level num element)).2.getD
          element.content.text = after.content.text := by
  have isCall : replaceKeyParamCb substitute (Element.call level num element) =
      if '{' ∈ Element.value element then
        ((quoteKeyParam (substitute (Element.value element)) element.content.isQuoted).isSome,
          quoteKeyParam (substitute (Element.value element)) element.content.isQuoted)
      else (true, none) := by
    rw [← unquoteKeyParam_text]
    exact (if_neg opened).trans
      (if_congr (unquoteKeyParam_text element ▸ brace_text element) rfl rfl)
  rw [isCall]
  by_cases hasMacro : '{' ∈ Element.value element
  · rw [if_pos hasMacro]
    cases written : quoteKeyParam (substitute (Element.value element)) element.content.isQuoted with
    | none =>
      refine .inl ⟨fun fits => ?_, rfl⟩
      have isWritten := fits hasMacro
      rw [written] at isWritten
      cases isWritten
    | some text =>
      obtain ⟨after, before, blanks, isText, isValue⟩ :=
        quoteKeyParam_content written element.before element.content.after (by
          cases element.content <;> simp [Content.isQuoted, Content.after])
      refine .inr ⟨after, ⟨fun _ => by simp [written], ?_⟩, before, blanks, rfl, isText.symm⟩
      rw [isValue, substituted, if_pos hasMacro]
  · rw [if_neg hasMacro]
    exact .inr ⟨element, ⟨fun isMacro => absurd isMacro hasMacro, (if_neg hasMacro).symm⟩, rfl, rfl,
      rfl, rfl⟩

/-! ## The loop -/

/-- The loop goes on behind a text with a new text in its place, or it fails. -/
def Replaces (substitute : Text → Text) (level next : Int) (state : ParserState) (text : Text)
    (fails : Prop) (becomes : Text → Prop) : Prop :=
  ∀ done num calls rest,
    (fails ∧ (replaceLoop (replaceKeyParamCb substitute) ⟨done, level, num, calls⟩ .new
      (text ++ rest)).ret = false) ∨
    ∃ new num' calls', becomes new ∧
      replaceLoop (replaceKeyParamCb substitute) ⟨done, level, num, calls⟩ .new (text ++ rest) =
        replaceLoop (replaceKeyParamCb substitute) ⟨done ++ new, next, num', calls'⟩ state rest

/-- A part of a list is replaced, up to the comma or the bracket behind it. -/
def Passes {Item : Type} (substitute : Text → Text) (level : Int) (render : Item → Text)
    (fits : Item → Prop) (becomes : Item → Item → Prop) (item : Item) : Prop :=
  ∀ char, (char = ',' ∨ char = ']') →
    Replaces substitute level (if char = ',' then level else level - 1) (stateAfter char)
      (render item ++ [char]) (¬fits item)
      fun new => ∃ after, becomes item after ∧ new = render after ++ [char]

theorem passes_element (opened : level ≠ 0) (element : Element) :
    Passes substitute level Element.render (Fits substitute) (Becomes substitute) element := by
  intro char isEnd done num calls rest
  rw [append_assoc, singleton_append]
  obtain ⟨stops, goesOn⟩ := @replaceLoop_value done char level num calls
    (replaceKeyParamCb substitute) opened element isEnd rest
  obtain ⟨notFits, isRet⟩ | ⟨after, becomes, before, blanks, isRet, isText⟩ :=
    @replaceKeyParamCb_element substitute level opened num element
  · exact .inl ⟨notFits, stops isRet⟩
  · refine .inr ⟨_, if char = ',' ∧ level = 1 then num + 1 else num,
      calls ++ [Element.call level num element], ⟨after, becomes, rfl⟩, (goesOn isRet).trans ?_⟩
    rw [isText, ← before, ← blanks]
    obtain rfl | rfl := isEnd
    · by_cases isOuter : level = 1 <;>
        simp [passed, stateAfter, Progress.nextNum, Progress.advance, Element.render, isOuter]
    · simp [passed, stateAfter, Progress.advance, Element.render]

theorem replaces_listed {Item : Type} {render : Item → Text} {fits : Item → Prop}
    {becomes : Item → Item → Prop}
    (passes : ∀ item, Passes substitute level render fits becomes item) (listed : Listed Item) :
    Replaces substitute level (level - 1) .ended (listed.render render ++ [']'])
      (∃ item ∈ listed.toList, ¬fits item)
      fun new => ∃ after : Listed Item, Forall₂ becomes listed.toList after.toList ∧
        new = after.render render ++ [']'] := by
  obtain ⟨first, others⟩ := listed
  induction others generalizing first with
  | nil =>
    intro done num calls rest
    simp only [Listed.render, Listed.toList, flatMap_nil, append_nil]
    obtain ⟨notFits, isRet⟩ | ⟨_, num', calls', ⟨after, becomes, rfl⟩, looped⟩ :=
      passes first ']' (.inr rfl) done num calls rest
    · exact .inl ⟨⟨first, mem_cons_self, notFits⟩, isRet⟩
    · refine .inr ⟨_, num', calls', ⟨⟨after, []⟩, .cons becomes .nil, ?_⟩, looped⟩
      simp
  | cons next later ih =>
    intro done num calls rest
    have split : Listed.render render ⟨first, next :: later⟩ ++ [']'] ++ rest =
        render first ++ [','] ++ (Listed.render render ⟨next, later⟩ ++ [']'] ++ rest) := by
      simp [Listed.render]
    rw [split]
    obtain ⟨notFits, isRet⟩ | ⟨_, num', calls', ⟨after, becomes, rfl⟩, looped⟩ :=
      passes first ',' (.inl rfl) done num calls
        (Listed.render render ⟨next, later⟩ ++ [']'] ++ rest)
    · exact .inl ⟨⟨first, mem_cons_self, notFits⟩, isRet⟩
    · rw [looped]
      obtain ⟨⟨item, member, notFits⟩, isRet⟩ | ⟨_, num'', calls'', ⟨last, all, rfl⟩, looped⟩ :=
        ih next (done ++ (render after ++ [','])) num' calls' rest
      · exact .inl ⟨⟨item, mem_cons_of_mem _ member, notFits⟩, isRet⟩
      · refine .inr ⟨_, num'', calls'', ⟨⟨after, last.toList⟩, .cons becomes all, rfl⟩,
          looped.trans ?_⟩
        simp [Listed.render, Listed.toList]

/-- The values of a parameter. -/
def Param.elements : Param → List Element
  | .single element => [element]
  | .array _ elements _ => elements.toList

/-- A value stays a value, and an array an array of as many values. -/
inductive ParamBecomes (substitute : Text → Text) : Param → Param → Prop where
  | single {element after : Element} (becomes : Becomes substitute element after) :
    ParamBecomes substitute (.single element) (.single after)
  | array (before : Nat) {elements after : Listed Element} (blanks : Nat)
      (becomes : Forall₂ (Becomes substitute) elements.toList after.toList) :
    ParamBecomes substitute (.array before elements blanks) (.array before after blanks)

theorem passes_param (param : Param) :
    Passes substitute 1 Param.render (fun param => ∀ element ∈ Param.elements param,
      Fits substitute element) (ParamBecomes substitute) param := by
  intro char isEnd done num calls rest
  cases param with
  | single element =>
    obtain ⟨notFits, isRet⟩ | ⟨_, num', calls', ⟨after, becomes, rfl⟩, looped⟩ :=
      @passes_element substitute 1 (by decide) element char isEnd done num calls rest
    · exact .inl ⟨fun fits => notFits (fits element (mem_singleton_self element)), isRet⟩
    · exact .inr ⟨_, num', calls', ⟨_, .single becomes, rfl⟩, looped⟩
  | array before elements after =>
    have opened : replaceLoop (replaceKeyParamCb substitute) ⟨done, 1, num, calls⟩ .new
          (Param.render (.array before elements after) ++ [char] ++ rest) =
        replaceLoop (replaceKeyParamCb substitute) ⟨done ++ blanks before ++ ['['], 2, num, calls⟩
          .new (elements.render Element.render ++ [']'] ++ (blanks after ++ char :: rest)) := by
      rw [Param.render, append_assoc, append_assoc, append_assoc,
        replaceLoop_blanks .new (.inl rfl), cons_append, replaceLoop]
      simp only [Char.reduceEq, if_false, if_true, Int.reduceEq]
      simp [Progress.nextNum, Progress.advance]
    rw [opened]
    obtain ⟨⟨element, member, notFits⟩, isRet⟩ | ⟨_, num', calls', ⟨last, all, rfl⟩, looped⟩ :=
      @replaces_listed substitute 2 _ _ _ _ (passes_element (by decide)) elements
        (done ++ blanks before ++ ['[']) num calls (blanks after ++ char :: rest)
    · exact .inl ⟨fun fits => notFits (fits element member), isRet⟩
    · rw [looped, replaceLoop_blanks .ended (.inr rfl), replaceLoop_ended (by simp) isEnd]
      refine .inr ⟨_, if char = ',' then num' + 1 else num', calls',
        ⟨_, .array before after all, rfl⟩, ?_⟩
      obtain rfl | rfl := isEnd <;>
        simp [passed, stateAfter, Progress.nextNum, Progress.advance, Param.render]

/-! ## Keys -/

/-- The values of the parameters that a request has. -/
def valuesOf (request : Requests.AgentRequest) : List (Option Text) :=
  request.params.map fun param => param.map Prod.fst

theorem exists_of_parseItemKey {itemkey : Text} {request : Requests.AgentRequest}
    (parsed : parseItemKey itemkey = some request) :
    ∃ name : Text, (name ≠ [] ∧ ∀ char ∈ name, isKeyChar char = true) ∧ request.key = name ∧
      (itemkey = name ∧ valuesOf request = [] ∨ ∃ params : ParamList,
        itemkey = name ++ '[' :: (renderParams params ++ [']']) ∧
          valuesOf request = (params.toList.map Param.value).map some) := by
  obtain noName | ⟨nonempty, isName⟩ | ⟨name, char, rest, nonempty, isName, isEnd, rfl⟩ :=
    Agents.key_cases itemkey
  · rw [(Agents.parse_noName noName).1] at parsed
    cases parsed
  · rw [(parse_name isName nonempty).1] at parsed
    obtain rfl := Option.some.inj parsed
    exact ⟨itemkey, ⟨nonempty, isName⟩, rfl, .inl ⟨rfl, rfl⟩⟩
  · by_cases isBracket : char = '['
    · subst isBracket
      rw [(parse_params isName nonempty rest).1] at parsed
      split_ifs at parsed with isClosed
      obtain ⟨params, rfl⟩ := (closed_iff rest).mp isClosed
      obtain rfl := Option.some.inj parsed
      refine ⟨name, ⟨nonempty, isName⟩, rfl, .inr ⟨params, rfl, ?_⟩⟩
      rw [dropLast_concat]
      exact params_render params
    · rw [(Agents.parse_other isName nonempty isEnd isBracket rest).1] at parsed
      cases parsed

theorem parseItemKey_render {name : Text} (nonempty : name ≠ [])
    (isName : ∀ char ∈ name, isKeyChar char = true) (params : ParamList) :
    ∃ request, parseItemKey (name ++ '[' :: (renderParams params ++ [']'])) = some request ∧
      request.key = name ∧ valuesOf request = (params.toList.map Param.value).map some := by
  have parsed := (parse_params isName nonempty (renderParams params ++ [']'])).1
  rw [if_pos ((closed_iff _).mpr ⟨params, rfl⟩), dropLast_concat] at parsed
  exact ⟨_, parsed, rfl, params_render params⟩

theorem ParamBecomes.fits {param after : Param} (becomes : ParamBecomes substitute param after) :
    ∀ element ∈ Param.elements param, Fits substitute element := by
  cases becomes with
  | single becomes => exact fun _ member => mem_singleton.mp member ▸ becomes.fits
  | array before blanks becomes =>
    exact ((forall₂_and_left _ _).mp (becomes.imp fun _ _ becomes => ⟨becomes.fits, becomes⟩)).1

theorem substitute_params {name : Text} (nonempty : name ≠ [])
    (isName : ∀ char ∈ name, isKeyChar char = true) (params : ParamList) {replaced : Replaced}
    (isReplaced : substituteKeyMacrosImpl substitute
      (name ++ '[' :: (renderParams params ++ [']'])) = replaced) :
    (replaced.ret = false ∧
      ∃ param ∈ params.toList, ¬∀ element ∈ Param.elements param, Fits substitute element) ∨
    replaced.ret = true ∧ ∃ after : ParamList,
      replaced.data = name ++ '[' :: (renderParams after ++ [']']) ∧
        Forall₂ (ParamBecomes substitute) params.toList after.toList := by
  rw [substituteKeyMacrosImpl, replaceKeyParamsDyn_kept rfl nonempty isName (.inr rfl),
    replaceLoop] at isReplaced
  simp only [Char.reduceEq, if_false, if_true, Int.reduceEq] at isReplaced
  change clean (replaceLoop _ ⟨name ++ ['['], 1, 1, [⟨name, 0, 0, false⟩]⟩ .new _) = _ at isReplaced
  have passed := @replaces_listed substitute 1 _ _ _ _ passes_param params (name ++ ['['])
    1 [⟨name, 0, 0, false⟩] []
  rw [append_nil, ← renderParams] at passed
  subst isReplaced
  obtain ⟨notFits, isRet⟩ | ⟨_, num, calls, ⟨after, all, rfl⟩, looped⟩ := passed
  · refine .inl ⟨?_, notFits⟩
    simp only [clean, isRet, Bool.false_and]
  · refine .inr ?_
    rw [looped, replaceLoop]
    refine ⟨?_, after, ?_, all⟩
    · simp [clean]
    · simp [clean, renderParams]

end Zabbix.ItemKey.KeyMacros
