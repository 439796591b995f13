import Zabbix.ItemKey.Reading

/-!
# Values of parameters

What `get_param_dyn` copies of a list of the grammar.  Of a quoted value it is the
text between the quotes without the escapes, of an array the values as they are
written, without the blanks around them.
-/

namespace Zabbix.ItemKey.Values

open Common.Text ParseKey Params Grammar Reading List Option

/-- A quoted text without the backslashes before quotes. -/
def unescape : Text → Text
  | [] => []
  | '\\' :: '"' :: rest => '"' :: unescape rest
  | char :: rest => char :: unescape rest

def Element.value (element : Element) : Text :=
  match element.content with
  | .empty => []
  | .unquoted first rest => first :: rest
  | .quoted body _ => unescape body

def Param.value : Param → Text
  | .single element => Element.value element
  | .array _ elements _ => elements.render fun element => element.content.text

/-! ## Collecting -/

variable {Value : Type} {collector : Collector Value} {num array : Nat} {value : Value}
  {text rest body : Text} {char : Char}

def takeAll (collector : Collector Value) (text : Text) (value : Value) : Option Value :=
  text.foldlM (fun value char => collector.assign char value) value

@[simp]
theorem takeAll_nil (collector : Collector Value) (value : Value) :
    takeAll collector [] value = some value :=
  rfl

theorem takeAll_cons (collector : Collector Value) (char : Char) (text : Text) (value : Value) :
    takeAll collector (char :: text) value = (collector.assign char value).bind (takeAll collector text) := by
  rfl

theorem takeAll_append (collector : Collector Value) (text later : Text) (value : Value) :
    takeAll collector (text ++ later) value =
      (takeAll collector text value).bind (takeAll collector later) := by
  rw [takeAll, foldlM_append]
  rfl

/-- A collector that does not keep the type. -/
def Untyped (collector : Collector Value) : Prop :=
  ∀ type value, collector.note type value = value

theorem see_untyped (untyped : Untyped collector) (wanted : Bool) (type : RequestParameterType)
    (value : Value) : collector.see wanted type value = value := by
  cases wanted with
  | true => exact untyped type value
  | false => rfl

theorem take_wanted (collector : Collector Value) (num : Nat) (char : Char) (value : Value) :
    collector.take (num == num) char value = collector.assign char value := by
  rw [Collector.take, beq_self_eq_true, if_pos rfl]

theorem gathers_blanks (count : Nat) (rest : Text) :
    paramLoop collector num array num value .init (blanks count ++ rest) =
      paramLoop collector num array num value .init rest := by
  induction count with
  | zero => rfl
  | succ count ih =>
    rw [blanks, replicate_succ, cons_append, paramLoop]
    simp only [Char.reduceEq, false_and, if_false, ne_eq, not_true_eq_false]
    exact ih

theorem gathers_plain (plain : ∀ char ∈ text, isDelimiter char = false) (rest : Text) :
    paramLoop collector num array num value .unquoted (text ++ rest) =
      (takeAll collector text value).bind fun value =>
        paramLoop collector num array num value .unquoted rest := by
  induction text generalizing value with
  | nil => rfl
  | cons char later ih =>
    obtain ⟨notComma, notClosing⟩ :=
      isDelimiter_eq_false (plain char (mem_cons_self ..))
    rw [cons_append, paramLoop, if_neg (by simp [notComma, notClosing]), take_wanted,
      takeAll_cons, bind_assoc]
    apply Option.bind_congr
    intro value _
    exact ih fun other member => plain other (mem_cons_of_mem _ member)

/-- The text of a quoted value, with its escapes in an array. -/
def bodyText (array : Nat) (body : Text) : Text :=
  if array = 0 then unescape body else body

theorem takeAll_inArray (num array : Nat) (char : Char) (value : Value) :
    collector.take ((num == num) && array != 0) char value =
      takeAll collector (if array = 0 then [] else [char]) value := by
  by_cases isSingle : array = 0
  · simp [isSingle]
  · rw [if_neg isSingle, takeAll_cons, Collector.take, if_pos (by simpa using isSingle)]
    exact (bind_fun_some _).symm

theorem bodyText_escape (array : Nat) (body : Text) :
    bodyText array ('\\' :: '"' :: body) =
      (if array = 0 then [] else ['\\']) ++ '"' :: bodyText array body := by
  unfold bodyText
  split_ifs
  · rw [unescape]; rfl
  · rfl

theorem bodyText_cons (notEscape : ¬(char = '\\' ∧ body.head? = some '"')) :
    bodyText array (char :: body) = char :: bodyText array body := by
  unfold bodyText
  split_ifs
  · rw [unescape]
    rintro later rfl rfl
    exact notEscape ⟨rfl, rfl⟩
  · rfl

theorem gathers_body (isBody : QuotedBody body) (rest : Text) :
    paramLoop collector num array num value .quoted (body ++ '"' :: rest) =
      (takeAll collector (bodyText array body) value).bind fun value =>
        paramLoop collector num array num value .quoted ('"' :: rest) := by
  fun_induction QuotedBody body generalizing value with
  | case1 => simp [bodyText, unescape]
  | case2 later ih =>
    rw [bodyText_escape, takeAll_append, ← takeAll_inArray num]
    conv => lhs; rw [cons_append, cons_append, paramLoop]
    simp only [Char.reduceEq, if_false, head?_cons, and_self, if_true, tail_cons,
      bind_assoc, take_wanted, takeAll_cons]
    apply Option.bind_congr
    intro value _
    apply Option.bind_congr
    intro value _
    exact ih isBody
  | case3 => exact isBody.elim
  | case4 => exact isBody.elim
  | case5 char later notEscaped notLast notQuote ih =>
    have notEscape : ¬(char = '\\' ∧ later.head? = some '"') := by
      simpa using not_escape notEscaped notLast []
    rw [bodyText_cons notEscape, takeAll_cons, cons_append, paramLoop, if_neg notQuote,
      if_neg (not_escape notEscaped notLast _), take_wanted, bind_assoc]
    apply Option.bind_congr
    intro value _
    exact ih isBody

/-- What is taken of a value, with its quotes and escapes in an array. -/
def takenText (array : Nat) (element : Element) : Text :=
  if array = 0 then Element.value element else element.content.text

theorem gathers_element (untyped : Untyped collector) (element : Element)
    (isEnd : Ends (array != 0) rest) :
    paramLoop collector num array num value .init (element.render ++ rest) =
      (takeAll collector (takenText array element) value).bind fun value =>
        paramLoop collector num array num value .init rest := by
  obtain ⟨before, content, valid⟩ := element
  rw [Element.render, append_assoc, append_assoc, gathers_blanks]
  cases content with
  | empty =>
    have nothing : takenText array ⟨before, .empty, valid⟩ = [] := by
      rw [takenText]
      split_ifs
      · rfl
      · rfl
    rw [nothing, takeAll_nil, bind_some]
    rfl
  | unquoted first later =>
    obtain ⟨notBlank, notQuote, notBracket, notDelimiter, plain⟩ := id valid
    obtain ⟨notComma, notClosing⟩ := isDelimiter_eq_false notDelimiter
    have same : takenText array ⟨before, .unquoted first later, valid⟩ = first :: later := by
      rw [takenText]
      split_ifs
      · rfl
      · rfl
    change paramLoop collector num array num value .init (first :: (later ++ rest)) = _
    rw [same, paramLoop, if_neg notComma, if_neg notQuote, if_neg notBracket,
      if_neg fun closes => notClosing closes.1, if_pos notBlank, see_untyped untyped,
      take_wanted, takeAll_cons, bind_assoc]
    apply Option.bind_congr
    intro value _
    rw [gathers_plain plain]
    apply Option.bind_congr
    intro value _
    exact paramLoop_value isEnd
  | quoted body after =>
    have skipped : skipBlanks (blanks after ++ rest) = rest := by
      rw [skipBlanks_blanks, skipBlanks_ends isEnd]
    have same : takenText array ⟨before, .quoted body after, valid⟩ =
        (if array = 0 then [] else ['"']) ++ bodyText array body ++
          if array = 0 then [] else ['"'] := by
      rw [takenText, bodyText]
      split_ifs
      · rw [nil_append, append_nil]
        rfl
      · rfl
    change paramLoop collector num array num value .init
      ('"' :: (body ++ ['"'] ++ (blanks after ++ rest))) = _
    rw [same, takeAll_append, takeAll_append, ← takeAll_inArray num, paramLoop,
      if_neg (by decide), if_pos rfl, see_untyped untyped, bind_assoc, bind_assoc]
    apply Option.bind_congr
    intro value _
    rw [append_assoc, singleton_append, gathers_body valid]
    apply Option.bind_congr
    intro value _
    rw [paramLoop_closed (by rw [skipped]; exact isEnd), skipped, takeAll_inArray]

/-- What is taken of the values in an array, with the commas between them. -/
def elementsText (elements : Listed Element) : Text :=
  elements.render fun element => element.content.text

theorem gathers_elements (untyped : Untyped collector) (elements : Listed Element) (rest : Text) :
    paramLoop collector num 1 num value .init (elements.render Element.render ++ ']' :: rest) =
      (takeAll collector (elementsText elements) value).bind fun value =>
        paramLoop collector num 1 num value .init (']' :: rest) := by
  obtain ⟨first, others⟩ := elements
  rw [elementsText, Listed.render, Listed.render, append_assoc]
  induction others generalizing first value with
  | nil =>
    rw [flatMap_nil, nil_append, flatMap_nil, append_nil]
    exact gathers_element untyped first ends_bracket
  | cons next later ih =>
    rw [flatMap_cons, append_assoc, cons_append, flatMap_cons, takeAll_append, bind_assoc]
    refine (gathers_element untyped first ends_comma).trans ?_
    apply Option.bind_congr
    intro value _
    rw [cons_append, takeAll_cons, bind_assoc, paramLoop]
    simp only [if_true, Nat.one_ne_zero, if_false, take_wanted]
    apply Option.bind_congr
    intro value _
    exact ih next

theorem gathers_param (untyped : Untyped collector) (param : Param) (isEnd : Ends false rest) :
    paramLoop collector num 0 num value .init (param.render ++ rest) =
      (takeAll collector (Param.value param) value).bind fun value =>
        paramLoop collector num 0 num value .init rest := by
  cases param with
  | single element => exact gathers_element untyped element isEnd
  | array before elements after =>
    have skipped : skipBlanks (blanks after ++ rest) = rest := by
      rw [skipBlanks_blanks, skipBlanks_ends isEnd]
    rw [Param.render, append_assoc, append_assoc, gathers_blanks]
    change paramLoop collector num 0 num value .init
      ('[' :: (elements.render Element.render ++ ']' :: (blanks after ++ rest))) = _
    rw [paramLoop, if_neg (by decide), if_neg (by decide), if_pos rfl, see_untyped untyped,
      takeAll_inArray, if_pos rfl, takeAll_nil, bind_some, gathers_elements untyped]
    apply Option.bind_congr
    intro value _
    rw [paramLoop_bracket (by rw [skipped]; exact isEnd), skipped]

theorem paramLoop_render (untyped : Untyped collector) (params : ParamList) {idx : Nat}
    {param : Param} (isParam : params.toList[num - idx]? = some param) (before : idx ≤ num) :
    paramLoop collector num 0 idx value .init (renderParams params) =
      takeAll collector (Param.value param) value := by
  obtain ⟨first, others⟩ := params
  rw [renderParams, Listed.render]
  rw [Listed.toList] at isParam
  induction others generalizing first idx with
  | nil =>
    have isFirst : num - idx = 0 := by
      by_contra isLater
      obtain ⟨index, isIndex⟩ := Nat.exists_eq_succ_of_ne_zero isLater
      rw [isIndex] at isParam
      cases isParam
    obtain rfl : idx = num := by omega
    rw [Nat.sub_self] at isParam
    obtain rfl : first = param := some.inj isParam
    rw [flatMap_nil, gathers_param untyped first ends_nil]
    refine Eq.trans ?_ (bind_fun_some _)
    apply Option.bind_congr
    intro value _
    rw [paramLoop]
    simp
  | cons next later ih =>
    rw [flatMap_cons, cons_append]
    by_cases isFirst : idx = num
    · subst isFirst
      rw [Nat.sub_self] at isParam
      obtain rfl : first = param := some.inj isParam
      rw [gathers_param untyped first ends_comma]
      refine Eq.trans ?_ (bind_fun_some _)
      apply Option.bind_congr
      intro value _
      rw [paramLoop]
      simp
    · have isLater : (next :: later)[num - (idx + 1)]? = some param := by
        have shifted : num - idx = num - (idx + 1) + 1 := by omega
        rw [shifted] at isParam
        exact isParam
      rw [skims_param (skimsParams_paramLoop (idle_of_ne collector value isFirst)) first ends_comma,
        paramLoop, if_pos rfl, if_pos rfl, if_neg (by omega)]
      exact ih (by omega) next isLater

/-! ## Copies -/

/-- The text that `get_param` copies to a buffer of a limited size. -/
def boundedCollector (maxLen : Nat) : Collector Text where
  note _ text := text
  assign char text := if text.length = maxLen then none else some (text ++ [char])

theorem maps_bounded (maxLen : Nat) :
    Maps (copyCollector maxLen) (boundedCollector maxLen) Prod.fst where
  note _ _ := rfl
  assign char buffer := by
    simp only [copyCollector, boundedCollector]
    split_ifs
    · rfl
    · rfl

theorem takeAll_length (text : Text) (size : Nat) :
    takeAll lengthCollector text size = some (size + text.length) := by
  induction text generalizing size with
  | nil => rfl
  | cons char rest ih =>
    rw [takeAll_cons]
    change takeAll lengthCollector rest (size + 1) = _
    rw [ih, length_cons]
    congr 1
    omega

theorem takeAll_bounded {maxLen : Nat} {done : Text} (room : done.length + text.length ≤ maxLen) :
    takeAll (boundedCollector maxLen) text done = some (done ++ text) := by
  induction text generalizing done with
  | nil => rw [takeAll_nil, append_nil]
  | cons char rest ih =>
    rw [length_cons] at room
    have free : ¬done.length = maxLen := by omega
    have assigned : (boundedCollector maxLen).assign char done = some (done ++ [char]) :=
      if_neg free
    rw [takeAll_cons, assigned, bind_some, ih, append_assoc]
    · rfl
    · rw [length_append, length_singleton]
      omega

theorem getParamDyn_render (params : ParamList) {i : Nat} {param : Param}
    (isParam : params.toList[i]? = some param) :
    (getParamDyn (renderParams params) (i + 1)).map Prod.fst = some (Param.value param) := by
  have measured : getParamLen (renderParams params) (i + 1) =
      some (Param.value param).length := by
    rw [getParamLen, if_pos (Nat.le_add_left 1 i),
      paramLoop_render (fun _ _ => rfl) params isParam (Nat.le_add_left 1 i), takeAll_length,
      Nat.zero_add]
  rw [getParamDyn, measured, bind_some, getParam, if_neg (Nat.succ_ne_zero _),
    if_pos (Nat.le_add_left 1 i), Nat.add_sub_cancel, paramLoop_map (maps_bounded _),
    paramLoop_render (fun _ _ => rfl) params isParam (Nat.le_add_left 1 i), takeAll_bounded]
  · rfl
  · exact Nat.le_of_eq (Nat.zero_add _)

end Zabbix.ItemKey.Values
