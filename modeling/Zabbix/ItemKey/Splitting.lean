import Zabbix.ItemKey.ItemUtil
import Zabbix.ItemKey.Recognition
import Zabbix.ItemKey.Values

/-!
# Splitting in agent 2

What the parser of agent 2 makes of a list of the grammar, and that it accepts no
other list.  It does not skip blanks after the bracket that closes an array.
-/

namespace Zabbix.ItemKey.Splitting

open Common.Text Grammar Values List Option
open Recognition (ends_of_delimiter)
open ItemUtil

/-- There are no blanks after the bracket that closes an array. -/
def Param.Tight : Param → Prop
  | .single _ => True
  | .array _ _ after => after = 0

variable {text rest body data param left : Text} {last char : Char}

/-! ## Quoted values -/

def pending (last : Char) : Text :=
  if last = '\\' then ['\\'] else []

theorem pending_backslash : pending '\\' = ['\\'] :=
  rfl

theorem pending_of_ne (isOther : last ≠ '\\') : pending last = [] :=
  if_neg isOther

theorem quotedBody_backslash (notQuote : char ≠ '"') :
    QuotedBody ('\\' :: char :: body) ↔ QuotedBody (char :: body) := by
  rw [QuotedBody]
  · rintro rest - same
    exact notQuote (cons.inj same).1
  · simp
  · exact by decide

theorem quotedBody_cons_iff (notQuote : char ≠ '"') (notBackslash : char ≠ '\\') :
    QuotedBody (char :: body) ↔ QuotedBody body := by
  rw [QuotedBody]
  · exact fun rest isBackslash => absurd isBackslash notBackslash
  · exact fun isBackslash => absurd isBackslash notBackslash
  · exact notQuote

theorem quotedBody_pending (notQuote : char ≠ '"') :
    QuotedBody (pending last ++ char :: body) ↔ QuotedBody (pending char ++ body) := by
  have behind : QuotedBody (pending last ++ char :: body) ↔ QuotedBody (char :: body) := by
    by_cases isEscape : last = '\\'
    · rw [isEscape]
      exact quotedBody_backslash notQuote
    · rw [pending_of_ne isEscape, nil_append]
  rw [behind]
  by_cases isBackslash : char = '\\'
  · rw [isBackslash]
    rfl
  · rw [pending_of_ne isBackslash, nil_append, quotedBody_cons_iff notQuote isBackslash]

theorem quotedBody_quote :
    QuotedBody (pending last ++ '"' :: body) ↔ last = '\\' ∧ QuotedBody body := by
  by_cases isEscape : last = '\\'
  · rw [isEscape]
    exact (and_iff_right rfl).symm
  · rw [pending_of_ne isEscape, nil_append]
    exact iff_of_false id fun both => isEscape both.1

theorem closingQuote_body (isBody : QuotedBody (pending last ++ body)) (rest : Text) :
    closingQuote last (body ++ '"' :: rest) = some (body ++ ['"'], skipBlanks rest) := by
  induction body generalizing last with
  | nil =>
    have notEscape : last ≠ '\\' := by
      rintro rfl
      exact isBody
    rw [nil_append, closingQuote, if_pos ⟨rfl, notEscape⟩]
    rfl
  | cons char later ih =>
    rw [cons_append, closingQuote]
    by_cases isQuote : char = '"'
    · subst isQuote
      obtain ⟨isEscape, isLater⟩ := quotedBody_quote.mp isBody
      rw [if_neg fun closes => closes.2 isEscape, @ih '"' isLater]
      rfl
    · rw [if_neg fun closes => isQuote closes.1,
        ih ((quotedBody_pending isQuote).mp isBody)]
      rfl

theorem exists_body_of_closingQuote (found : closingQuote last data = some (param, left)) :
    ∃ body after, data = body ++ '"' :: (blanks after ++ left) ∧
      QuotedBody (pending last ++ body) ∧ param = body ++ ['"'] := by
  induction data generalizing last param with
  | nil => cases found
  | cons char rest ih =>
    rw [closingQuote] at found
    split_ifs at found with closes
    · obtain ⟨rfl, notEscape⟩ := closes
      obtain ⟨rfl, rfl⟩ := Prod.mk.inj (some.inj found)
      obtain ⟨after, same⟩ := blanks_skipBlanks rest
      refine ⟨[], after, congrArg ('"' :: ·) same, ?_, rfl⟩
      rw [pending_of_ne notEscape]
      trivial
    · obtain ⟨⟨later, end'⟩, isLater, same⟩ := map_eq_some_iff.mp found
      obtain ⟨rfl, rfl⟩ := Prod.mk.inj same
      obtain ⟨body, after, rfl, isBody, rfl⟩ := ih isLater
      refine ⟨char :: body, after, rfl, ?_, rfl⟩
      by_cases isQuote : char = '"'
      · subst isQuote
        exact quotedBody_quote.mpr ⟨not_not.mp fun notEscape => closes ⟨rfl, notEscape⟩, isBody⟩
      · exact (quotedBody_pending isQuote).mpr isBody

theorem unescape_cons (notBackslash : char ≠ '\\') (text : Text) :
    unescape (char :: text) = char :: unescape text := by
  rw [unescape]
  exact fun _ isBackslash => absurd isBackslash notBackslash

theorem unescape_pending (notQuote : char ≠ '"') (text : Text) :
    unescape (pending last ++ char :: text) = pending last ++ unescape (char :: text) := by
  by_cases isEscape : last = '\\'
  · rw [isEscape, pending_backslash, singleton_append, unescape]
    · rfl
    · rintro rest - same
      exact notQuote (cons.inj same).1
  · rw [pending_of_ne isEscape, nil_append, nil_append]

theorem unquoteLoop_body (isBody : QuotedBody (pending last ++ body)) :
    unquoteLoop last (body ++ ['"']) = unescape (pending last ++ body) := by
  induction body generalizing last with
  | nil =>
    have notEscape : last ≠ '\\' := by
      rintro rfl
      exact isBody
    rw [nil_append, unquoteLoop, if_pos rfl, if_pos notEscape, pending_of_ne notEscape]
    rfl
  | cons char later ih =>
    rw [cons_append, unquoteLoop]
    by_cases isQuote : char = '"'
    · subst isQuote
      obtain ⟨rfl, isLater⟩ := quotedBody_quote.mp isBody
      rw [if_pos rfl, if_neg (not_not.mpr rfl), @ih '"' isLater]
      rfl
    · have isLater := ih ((quotedBody_pending isQuote).mp isBody)
      rw [if_neg isQuote, isLater, unescape_pending isQuote]
      by_cases isBackslash : char = '\\'
      · rw [isBackslash]
        rfl
      · rw [unescape_cons isBackslash, pending_of_ne isBackslash, nil_append]
        exact if_neg isBackslash

theorem parseQuotedParam_body (isBody : QuotedBody body) (rest : Text) :
    parseQuotedParam ('"' :: (body ++ '"' :: rest)) =
      some ('"' :: body ++ ['"'], skipBlanks rest) := by
  have closing : closingQuote '\x00' (body ++ '"' :: rest) =
      some (body ++ ['"'], skipBlanks rest) :=
    closingQuote_body (by rw [pending_of_ne (by decide)]; exact isBody) rest
  rw [parseQuotedParam, tail_cons, closing]
  rfl

theorem exists_body_of_parseQuotedParam
    (found : parseQuotedParam ('"' :: data) = some (param, left)) :
    ∃ body after, data = body ++ '"' :: (blanks after ++ left) ∧ QuotedBody body ∧
      param = '"' :: body ++ ['"'] := by
  obtain ⟨⟨later, end'⟩, isLater, same⟩ := map_eq_some_iff.mp found
  obtain ⟨rfl, rfl⟩ := Prod.mk.inj same
  obtain ⟨body, after, isData, isBody, rfl⟩ := exists_body_of_closingQuote isLater
  rw [pending_of_ne (by decide)] at isBody
  exact ⟨body, after, isData, isBody, rfl⟩

theorem unquoteParam_body (isBody : QuotedBody body) :
    unquoteParam ('"' :: body ++ ['"']) = unescape body := by
  have unquoted : unquoteLoop '\x00' (body ++ ['"']) = unescape (pending '\x00' ++ body) :=
    unquoteLoop_body (by rw [pending_of_ne (by decide)]; exact isBody)
  rw [pending_of_ne (by decide)] at unquoted
  exact unquoted

/-! ## Unquoted values -/

/-- What follows a value in a list with its closing bracket. -/
def Delimited (rest : Text) : Prop :=
  ∃ char ∈ rest.head?, isDelimiter char = true

theorem parseUnquotedParam_plain (plain : ∀ char ∈ text, isDelimiter char = false)
    (delimited : Delimited rest) : parseUnquotedParam (text ++ rest) = some (text, rest) := by
  induction text with
  | nil =>
    obtain ⟨char, isHead, isDelimited⟩ := delimited
    cases rest with
    | nil => cases isHead
    | cons first later =>
      obtain rfl := some.inj isHead
      have closes : first = ',' ∨ first = ']' := by simpa [isDelimiter] using isDelimited
      rw [nil_append, parseUnquotedParam, if_pos closes]
  | cons char later ih =>
    obtain ⟨notComma, notClosing⟩ :=
      Reading.isDelimiter_eq_false (plain char (mem_cons_self ..))
    rw [cons_append, parseUnquotedParam, if_neg (by simp [notComma, notClosing]),
      ih fun other member => plain other (mem_cons_of_mem _ member)]
    rfl

theorem plain_of_parseUnquotedParam (found : parseUnquotedParam data = some (param, left)) :
    data = param ++ left ∧ (∀ char ∈ param, isDelimiter char = false) ∧ Delimited left := by
  induction data generalizing param with
  | nil => cases found
  | cons char rest ih =>
    rw [parseUnquotedParam] at found
    split_ifs at found with closes
    · obtain ⟨rfl, rfl⟩ := Prod.mk.inj (some.inj found)
      refine ⟨rfl, by simp, char, rfl, ?_⟩
      simpa [isDelimiter] using closes
    · obtain ⟨⟨later, end'⟩, isLater, same⟩ := map_eq_some_iff.mp found
      obtain ⟨rfl, rfl⟩ := Prod.mk.inj same
      obtain ⟨rfl, plain, delimited⟩ := ih isLater
      refine ⟨rfl, fun other member => ?_, delimited⟩
      rcases mem_cons.mp member with rfl | isLater
      · simpa [isDelimiter] using closes
      · exact plain other isLater

/-! ## Values -/

theorem ends_of_delimited (delimited : Delimited rest) : Ends true rest :=
  ends_of_delimiter (Or.inr delimited)

theorem skipBlanks_element (element : Element) (delimited : Delimited rest) :
    skipBlanks (element.render ++ rest) =
      element.content.text ++ (blanks element.content.after ++ rest) := by
  obtain ⟨before, content, valid⟩ := element
  rw [Element.render, append_assoc, append_assoc, skipBlanks_blanks]
  cases content with
  | empty => exact skipBlanks_ends (ends_of_delimited delimited)
  | unquoted first later => exact skipBlanks_cons valid.1
  | quoted body after => exact skipBlanks_cons (by decide)

/-- An item of an array is a value as it is written. -/
theorem expandItem_element (element : Element) (delimited : Delimited rest) :
    expandItem (element.render ++ rest) = some (element.content.text, rest) := by
  rw [expandItem, skipBlanks_element element delimited]
  obtain ⟨before, content, valid⟩ := element
  cases content with
  | empty =>
    have nothing := @parseUnquotedParam_plain [] rest (fun _ member => (nomatch member)) delimited
    obtain ⟨char, isHead, isDelimited⟩ := delimited
    cases rest with
    | nil => cases isHead
    | cons first later =>
      obtain rfl := some.inj isHead
      have notQuote : first ≠ '"' := by
        rintro rfl
        cases isDelimited
      exact (if_neg notQuote).trans nothing
  | unquoted first later =>
    obtain ⟨notBlank, notQuote, notBracket, notDelimiter, plain⟩ := id valid
    have isPlain : ∀ char ∈ first :: later, isDelimiter char = false := by
      intro char member
      rcases mem_cons.mp member with rfl | isLater
      · exact notDelimiter
      · exact plain char isLater
    exact (if_neg notQuote).trans (parseUnquotedParam_plain isPlain delimited)
  | quoted body after =>
    have quoted := parseQuotedParam_body valid (blanks after ++ rest)
    rw [skipBlanks_blanks, skipBlanks_ends (ends_of_delimited delimited)] at quoted
    change (if '"' = '"' then
      parseQuotedParam ('"' :: (body ++ ['"'] ++ (blanks after ++ rest))) else _) = _
    rw [if_pos rfl, append_assoc, singleton_append, quoted]
    rfl

/-- A value does not begin with a bracket, so it is taken as an item and as a parameter. -/
theorem head?_element (element : Element) (delimited : Delimited rest) :
    ∃ char later, skipBlanks (element.render ++ rest) = char :: later ∧ char ≠ '[' := by
  rw [skipBlanks_element element delimited]
  obtain ⟨before, content, valid⟩ := element
  cases content with
  | empty =>
    obtain ⟨char, isHead, isDelimited⟩ := delimited
    cases rest with
    | nil => cases isHead
    | cons first later =>
      obtain rfl := some.inj isHead
      refine ⟨first, later, rfl, ?_⟩
      rintro rfl
      cases isDelimited
  | unquoted first later => exact ⟨first, _, rfl, valid.2.2.1⟩
  | quoted body after => exact ⟨'"', _, rfl, by decide⟩

theorem arrayItem_eq {later : Text} (isData : skipBlanks data = char :: later)
    (notBracket : char ≠ '[') : arrayItem data = (expandItem data).map Prod.snd := by
  rw [arrayItem, expandItem, isData]
  dsimp only
  rw [if_neg notBracket]
  split_ifs
  · rfl
  · rfl

theorem arrayItem_element (element : Element) (delimited : Delimited rest) :
    arrayItem (element.render ++ rest) = some rest := by
  obtain ⟨char, later, isData, notBracket⟩ := head?_element element delimited
  rw [arrayItem_eq isData notBracket, expandItem_element element delimited]
  rfl

/-- What is taken as an item begins with a value. -/
theorem exists_element_of_expandItem {later : Text} (isData : skipBlanks data = char :: later)
    (notBracket : char ≠ '[') (found : expandItem data = some (param, left)) :
    ∃ element : Element, data = element.render ++ left ∧ param = element.content.text ∧
      (element.content.isQuoted = false → Delimited left) := by
  obtain ⟨before, same⟩ := blanks_skipBlanks data
  have notBlank := head?_skipBlanks data
  rw [expandItem, isData] at found
  rw [isData] at same notBlank
  dsimp only at found
  split_ifs at found with isQuote
  · subst isQuote
    obtain ⟨body, after, rfl, isBody, rfl⟩ := exists_body_of_parseQuotedParam found
    refine ⟨⟨before, .quoted body after, isBody⟩, ?_, rfl, fun notQuoted => (nomatch notQuoted)⟩
    rw [same, Element.render]
    simp [Content.text, Content.after]
  · obtain ⟨isParam, plain, delimited⟩ := plain_of_parseUnquotedParam found
    rw [same, isParam]
    cases param with
    | nil =>
      refine ⟨⟨before, .empty, trivial⟩, ?_, rfl, fun _ => delimited⟩
      simp [Element.render, Content.text, Content.after, blanks]
    | cons first rest =>
      obtain ⟨rfl, -⟩ := cons.inj isParam
      refine ⟨⟨before, .unquoted char rest, ?_⟩, ?_, rfl, fun _ => delimited⟩
      · exact ⟨fun isBlank => notBlank (congrArg some isBlank), isQuote, notBracket,
          plain char (mem_cons_self ..),
          fun other member => plain other (mem_cons_of_mem _ member)⟩
      · simp [Element.render, Content.text, Content.after, blanks]

/-! ## Arrays -/

theorem delimited_comma (rest : Text) : Delimited (',' :: rest) :=
  ⟨',', rfl, rfl⟩

theorem delimited_bracket (rest : Text) : Delimited (']' :: rest) :=
  ⟨']', rfl, rfl⟩

theorem closingBracket_of_bracket (isItem : arrayItem data = some (']' :: left)) :
    closingBracket data = some left := by
  have nonempty : data ≠ [] := by
    rintro rfl
    cases isItem
  rw [closingBracket, if_neg nonempty]
  split
  case h_1 found => rw [isItem] at found; cases found; rfl
  case h_2 found => rw [isItem] at found; cases found
  case h_3 other _ => exact absurd isItem (other left)

theorem closingBracket_of_comma (isItem : arrayItem data = some (',' :: rest)) :
    closingBracket data = closingBracket rest := by
  have nonempty : data ≠ [] := by
    rintro rfl
    cases isItem
  rw [closingBracket, if_neg nonempty]
  split
  case h_1 found => rw [isItem] at found; cases found
  case h_2 found => rw [isItem] at found; cases found; rfl
  case h_3 _ other => exact absurd isItem (other rest)

theorem expandLoop_of_item (isItem : expandItem data = some (param, char :: rest)) :
    expandLoop data =
      if char = ']' then some param
      else (expandLoop rest).map fun later => param ++ ',' :: later := by
  have nonempty : data ≠ [] := by
    rintro rfl
    cases isItem
  rw [expandLoop, if_neg nonempty]
  split
  case h_1 found => rw [isItem] at found; cases found; rfl
  case h_2 other => exact absurd isItem (other param char rest)

theorem closingBracket_elements (elements : Listed Element) (rest : Text) :
    closingBracket (elements.render Element.render ++ ']' :: rest) = some rest := by
  obtain ⟨first, others⟩ := elements
  rw [Listed.render, append_assoc]
  induction others generalizing first with
  | nil => exact closingBracket_of_bracket (arrayItem_element first (delimited_bracket rest))
  | cons next later ih =>
    rw [flatMap_cons, append_assoc, cons_append,
      closingBracket_of_comma (arrayItem_element first (delimited_comma _))]
    exact ih next

theorem expandLoop_elements (elements : Listed Element) (rest : Text) :
    expandLoop (elements.render Element.render ++ ']' :: rest) =
      some (elementsText elements) := by
  obtain ⟨first, others⟩ := elements
  rw [elementsText, Listed.render, Listed.render, append_assoc]
  induction others generalizing first with
  | nil =>
    rw [flatMap_nil, nil_append,
      expandLoop_of_item (expandItem_element first (delimited_bracket rest)), if_pos rfl,
      flatMap_nil, append_nil]
  | cons next later ih =>
    rw [flatMap_cons, append_assoc, cons_append,
      expandLoop_of_item (expandItem_element first (delimited_comma _)), if_neg (by decide),
      ih next]
    rfl

/-- An array of the grammar is cut out and expanded to its values. -/
theorem parseArrayParam_elements (elements : Listed Element) (rest : Text) :
    parseArrayParam ('[' :: (elements.render Element.render ++ ']' :: rest)) =
      some ('[' :: (elements.render Element.render ++ [']']), rest) := by
  rw [parseArrayParam, tail_cons, closingBracket_elements]
  have cut : '[' :: (elements.render Element.render ++ ']' :: rest) =
      ('[' :: (elements.render Element.render ++ [']'])) ++ rest := by simp
  rw [map_some, cut, length_append, Nat.add_sub_cancel, take_left]

theorem exists_element_of_arrayItem (isItem : arrayItem data = some (char :: left))
    (notBlank : char ≠ ' ') : ∃ element : Element, data = element.render ++ char :: left := by
  cases isData : skipBlanks data with
  | nil =>
    rw [arrayItem, isData] at isItem
    obtain rfl := some.inj isItem
    rw [skipBlanks_cons notBlank] at isData
    cases isData
  | cons first later =>
    by_cases isBracket : first = '['
    · subst isBracket
      rw [arrayItem, isData] at isItem
      cases isItem
    · rw [arrayItem_eq isData isBracket] at isItem
      obtain ⟨⟨value, end'⟩, isValue, rfl⟩ := map_eq_some_iff.mp isItem
      obtain ⟨element, same, -⟩ := exists_element_of_expandItem isData isBracket isValue
      exact ⟨element, same⟩

/-- What is taken as an array is one of the grammar. -/
theorem exists_elements_of_closingBracket (found : closingBracket data = some left) :
    ∃ elements : Listed Element, data = elements.render Element.render ++ ']' :: left := by
  fun_induction closingBracket data with
  | case1 => cases found
  | case2 data nonempty after isItem =>
    obtain rfl := some.inj found
    obtain ⟨element, same⟩ := exists_element_of_arrayItem isItem (by decide)
    refine ⟨⟨element, []⟩, ?_⟩
    rw [Listed.render, flatMap_nil, append_nil]
    exact same
  | case3 data nonempty rest isItem ih =>
    obtain ⟨element, rfl⟩ := exists_element_of_arrayItem isItem (by decide)
    obtain ⟨⟨first, others⟩, rfl⟩ := ih found
    refine ⟨⟨element, first :: others⟩, ?_⟩
    simp [Listed.render]
  | case4 => cases found

/-! ## Parameters -/

theorem parseParam_single (element : Element) (delimited : Delimited rest) :
    parseParam (element.render ++ rest) = some (Element.value element, rest) := by
  rw [parseParam, skipBlanks_element element delimited]
  obtain ⟨before, content, valid⟩ := element
  cases content with
  | empty =>
    obtain ⟨char, isHead, isDelimited⟩ := delimited
    cases rest with
    | nil => cases isHead
    | cons first later =>
      obtain rfl := some.inj isHead
      have closes : first = ',' ∨ first = ']' := by simpa [isDelimiter] using isDelimited
      rcases closes with rfl | rfl
      · rfl
      · rfl
  | unquoted first later =>
    obtain ⟨notBlank, notQuote, notBracket, notDelimiter, plain⟩ := id valid
    obtain ⟨notComma, notClosing⟩ := Reading.isDelimiter_eq_false notDelimiter
    have isPlain : ∀ char ∈ first :: later, isDelimiter char = false := by
      intro char member
      rcases mem_cons.mp member with rfl | isLater
      · exact notDelimiter
      · exact plain char isLater
    have taken := parseUnquotedParam_plain isPlain delimited
    exact ((if_neg notQuote).trans (if_neg notBracket)).trans
      ((if_neg (by simp [notComma, notClosing])).trans taken)
  | quoted body after =>
    have quoted := parseQuotedParam_body valid (blanks after ++ rest)
    rw [skipBlanks_blanks, skipBlanks_ends (ends_of_delimited delimited)] at quoted
    change (if '"' = '"' then
      (parseQuotedParam ('"' :: (body ++ ['"'] ++ (blanks after ++ rest)))).map _ else _) = _
    rw [if_pos rfl, append_assoc, singleton_append, quoted]
    exact congrArg (fun value => some (value, rest)) (unquoteParam_body valid)

theorem parseParam_array (before : Nat) (elements : Listed Element) (rest : Text) :
    parseParam (blanks before ++ '[' :: (elements.render Element.render ++ ']' :: rest)) =
      some (elementsText elements, rest) := by
  have isData : skipBlanks
      (blanks before ++ '[' :: (elements.render Element.render ++ ']' :: rest)) =
        '[' :: (elements.render Element.render ++ ']' :: rest) := by
    rw [skipBlanks_blanks, skipBlanks_cons (by decide)]
  have expanded : expandArray ('[' :: (elements.render Element.render ++ [']'])) =
      some (elementsText elements) :=
    expandLoop_elements elements []
  rw [parseParam, isData]
  change (parseArrayParam ('[' :: (elements.render Element.render ++ ']' :: rest))).bind _ = _
  rw [parseArrayParam_elements, bind_some]
  exact congrArg (Option.map fun param => (param, rest)) expanded

/-- What is taken as a parameter is one of the grammar, without blanks after an array. -/
theorem exists_param_of_parseParam (found : parseParam data = some (param, left)) :
    ∃ item : Param, data = item.render ++ left ∧ Param.Tight item := by
  cases isData : skipBlanks data with
  | nil =>
    rw [parseParam, isData] at found
    cases found
  | cons first later =>
    obtain ⟨before, same⟩ := blanks_skipBlanks data
    rw [isData] at same
    have item : ∀ raw : Text, first ≠ '[' → expandItem data = some (raw, left) →
        ∃ item : Param, data = item.render ++ left ∧ Param.Tight item := by
      intro raw notBracket isItem
      obtain ⟨element, isElement, -⟩ := exists_element_of_expandItem isData notBracket isItem
      exact ⟨.single element, isElement, trivial⟩
    rw [parseParam, isData] at found
    dsimp only at found
    split_ifs at found with isQuote isBracket closes
    · obtain ⟨⟨quoted, end'⟩, isQuoted, rest⟩ := map_eq_some_iff.mp found
      obtain ⟨rfl, rfl⟩ := Prod.mk.inj rest
      apply item quoted (by rw [isQuote]; decide)
      rw [expandItem, isData]
      exact (if_pos isQuote).trans isQuoted
    · obtain ⟨⟨array, end'⟩, isArray, expanded⟩ := bind_eq_some_iff.mp found
      obtain ⟨value, -, rest⟩ := map_eq_some_iff.mp expanded
      obtain ⟨rfl, rfl⟩ := Prod.mk.inj rest
      obtain ⟨after, isAfter, cut⟩ := map_eq_some_iff.mp isArray
      obtain ⟨-, rfl⟩ := Prod.mk.inj cut
      obtain ⟨elements, rfl⟩ := exists_elements_of_closingBracket isAfter
      refine ⟨.array before elements 0, ?_, rfl⟩
      rw [same, isBracket]
      simp [Param.render, blanks]
    · obtain ⟨rfl, rfl⟩ := Prod.mk.inj (some.inj found)
      refine ⟨.single ⟨before, .empty, trivial⟩, ?_, trivial⟩
      rw [same]
      simp [Param.render, Element.render, Content.text, Content.after, blanks]
    · apply item param isBracket
      rw [expandItem, isData]
      exact (if_neg isQuote).trans found

/-! ## Parameter lists -/

theorem paramsLoop_of_bracket (isParam : parseParam data = some (param, ']' :: left)) :
    paramsLoop data = some ([param], left) := by
  rw [paramsLoop]
  split
  case h_1 found => rw [isParam] at found; cases found; rfl
  case h_2 found => rw [isParam] at found; cases found
  case h_3 other _ => exact absurd isParam (other param left)

theorem paramsLoop_of_comma (isParam : parseParam data = some (param, ',' :: rest)) :
    paramsLoop data =
      (paramsLoop rest).map fun (params, left) => (param :: params, left) := by
  rw [paramsLoop]
  split
  case h_1 found => rw [isParam] at found; cases found
  case h_2 found => rw [isParam] at found; cases found; rfl
  case h_3 _ other => exact absurd isParam (other param rest)

theorem paramsLoop_of_blank (isParam : parseParam data = some (param, ' ' :: rest)) :
    paramsLoop data = none := by
  rw [paramsLoop]
  split
  case h_1 found => rw [isParam] at found; cases found
  case h_2 found => rw [isParam] at found; cases found
  case h_3 => rfl

theorem parseParam_tight {item : Param} (tight : Param.Tight item) (delimited : Delimited rest) :
    parseParam (item.render ++ rest) = some (Param.value item, rest) := by
  cases item with
  | single element => exact parseParam_single element delimited
  | array before elements after =>
    obtain rfl : after = 0 := tight
    have rendered : (Param.array before elements 0).render ++ rest =
        blanks before ++ '[' :: (elements.render Element.render ++ ']' :: rest) := by
      simp [Param.render, blanks]
    rw [rendered]
    exact parseParam_array before elements rest

/-- A list without blanks after its arrays is split into the values. -/
theorem paramsLoop_tight (params : ParamList) (tight : ∀ item ∈ params.toList, Param.Tight item)
    (rest : Text) :
    paramsLoop (renderParams params ++ ']' :: rest) =
      some (params.toList.map Param.value, rest) := by
  obtain ⟨first, others⟩ := params
  rw [renderParams, Listed.render, Listed.toList, append_assoc]
  rw [Listed.toList] at tight
  induction others generalizing first with
  | nil =>
    exact paramsLoop_of_bracket
      (parseParam_tight (tight first (mem_cons_self ..)) (delimited_bracket rest))
  | cons next later ih =>
    rw [flatMap_cons, append_assoc, cons_append, paramsLoop_of_comma
      (parseParam_tight (tight first (mem_cons_self ..)) (delimited_comma _)),
      ih next fun item member => tight item (mem_cons_of_mem _ member)]
    rfl

theorem paramsLoop_loose_first {item : Param} (loose : ¬Param.Tight item) (rest : Text) :
    paramsLoop (item.render ++ rest) = none := by
  cases item with
  | single element => exact absurd trivial loose
  | array before elements after =>
    obtain ⟨count, rfl⟩ := Nat.exists_eq_succ_of_ne_zero loose
    have rendered : (Param.array before elements (count + 1)).render ++ rest =
        blanks before ++ '[' ::
          (elements.render Element.render ++ ']' :: ' ' :: (blanks count ++ rest)) := by
      simp [Param.render, blanks, replicate_succ]
    rw [rendered]
    exact paramsLoop_of_blank (parseParam_array before elements _)

/-- A list with blanks after one of its arrays is refused. -/
theorem paramsLoop_loose (params : ParamList) (loose : ∃ item ∈ params.toList, ¬Param.Tight item)
    (rest : Text) : paramsLoop (renderParams params ++ ']' :: rest) = none := by
  obtain ⟨first, others⟩ := params
  rw [renderParams, Listed.render, append_assoc]
  rw [Listed.toList] at loose
  induction others generalizing first with
  | nil =>
    obtain ⟨item, member, isLoose⟩ := loose
    rw [mem_singleton.mp member] at isLoose
    exact paramsLoop_loose_first isLoose _
  | cons next later ih =>
    by_cases tight : Param.Tight first
    · obtain ⟨item, member, isLoose⟩ := loose
      have isLater : item ∈ next :: later := by
        rcases mem_cons.mp member with rfl | isLater
        · exact absurd tight isLoose
        · exact isLater
      rw [flatMap_cons, append_assoc, cons_append, paramsLoop_of_comma
        (parseParam_tight tight (delimited_comma _)), ih next ⟨item, isLater, isLoose⟩]
      rfl
    · exact paramsLoop_loose_first tight _

/-- A list that is split is one of the grammar, without blanks after its arrays. -/
theorem exists_params_of_paramsLoop {values : List Text}
    (found : paramsLoop data = some (values, left)) :
    ∃ params : ParamList, data = renderParams params ++ ']' :: left ∧
      ∀ item ∈ params.toList, Param.Tight item := by
  fun_induction paramsLoop data generalizing values with
  | case1 data param after isParam =>
    obtain ⟨rfl, rfl⟩ := Prod.mk.inj (some.inj found)
    obtain ⟨item, same, tight⟩ := exists_param_of_parseParam isParam
    refine ⟨⟨item, []⟩, ?_, fun other member => ?_⟩
    · rw [renderParams, Listed.render, flatMap_nil, append_nil]
      exact same
    · rw [mem_singleton.mp member]
      exact tight
  | case2 data param rest isParam ih =>
    obtain ⟨⟨later, end'⟩, isLater, same⟩ := map_eq_some_iff.mp found
    obtain ⟨rfl, rfl⟩ := Prod.mk.inj same
    obtain ⟨item, rfl, tight⟩ := exists_param_of_parseParam isParam
    obtain ⟨⟨first, others⟩, rfl, allTight⟩ := ih isLater
    refine ⟨⟨item, first :: others⟩, ?_, fun other member => ?_⟩
    · simp [renderParams, Listed.render]
    · rcases mem_cons.mp member with rfl | isOther
      · exact tight
      · exact allTight other isOther
  | case3 => cases found

end Zabbix.ItemKey.Splitting
