import Zabbix.ItemKey.Reading

/-!
# What the parsers accept

A parameter list that `num_param` counts, or in which `parse_key` finds the end of
the key, is a list of the grammar.  Both parsers are strict in the same way: they
accept the rest after a value only where a value may end.
-/

namespace Zabbix.ItemKey.Recognition

open Common.Text ParseKey Params Grammar Reading List

variable {text rest body : Text} {char : Char}

/-- A reader that accepts nothing after a value but what `ends` it. -/
structure Strict (ends : Text → Prop) (accepts : ParamState → Text → Prop) : Prop where
  skims : Skims ends accepts
  unclosed : ¬accepts .quoted []
  quoted : ∀ rest, accepts .quoted ('"' :: rest) → ends (skipBlanks rest)
  unquoted :
    ∀ rest, rest = [] ∨ (∃ char ∈ rest.head?, isDelimiter char = true) → accepts .unquoted rest →
      ends rest
  init :
    ∀ rest, rest = [] ∨ (∃ char ∈ rest.head?, isDelimiter char = true) → accepts .init rest →
      ends rest

variable {ends : Text → Prop} {accepts outer inner : ParamState → Text → Prop}

theorem quotedBody_cons (notQuote : char ≠ '"') (isBody : QuotedBody body)
    (notEscape : ¬(char = '\\' ∧ (body ++ '"' :: rest).head? = some '"')) :
    QuotedBody (char :: body) := by
  cases body with
  | nil =>
    by_cases isBackslash : char = '\\'
    · exact absurd ⟨isBackslash, rfl⟩ notEscape
    · rw [QuotedBody]
      · trivial
      · exact fun _ same _ => absurd same isBackslash
      · exact fun same _ => absurd same isBackslash
      · exact notQuote
  | cons next later =>
    rw [QuotedBody]
    · exact isBody
    · rintro after rfl same
      obtain ⟨rfl, -⟩ := cons.inj same
      exact notEscape ⟨rfl, rfl⟩
    · rintro - same
      cases same
    · exact notQuote

theorem strict_quoted (strict : Strict ends accepts) (accepted : accepts .quoted text) :
    ∃ body rest, text = body ++ '"' :: rest ∧ QuotedBody body ∧ accepts .quoted ('"' :: rest) := by
  induction isLength : text.length using Nat.strong_induction_on generalizing text with
  | _ length ih =>
    cases text with
    | nil => exact absurd accepted strict.unclosed
    | cons char rest =>
      rw [length_cons] at isLength
      by_cases isQuote : char = '"'
      · subst isQuote
        exact ⟨[], rest, rfl, trivial, accepted⟩
      · by_cases isEscape : char = '\\' ∧ rest.head? = some '"'
        · obtain ⟨rfl, isHead⟩ := isEscape
          obtain ⟨later, rfl⟩ := head?_eq_some_iff.mp isHead
          rw [strict.skims.escaped] at accepted
          rw [length_cons] at isLength
          obtain ⟨body, after, rfl, isBody, closing⟩ :=
            ih later.length (by omega) accepted rfl
          exact ⟨'\\' :: '"' :: body, after, rfl, isBody, closing⟩
        · rw [strict.skims.inside char rest isQuote isEscape] at accepted
          obtain ⟨body, after, rfl, isBody, closing⟩ :=
            ih rest.length (by omega) accepted rfl
          exact ⟨char :: body, after, rfl, quotedBody_cons isQuote isBody isEscape, closing⟩

theorem exists_plain (text : Text) :
    ∃ plain rest, text = plain ++ rest ∧ (∀ char ∈ plain, isDelimiter char = false) ∧
      (rest = [] ∨ ∃ char ∈ rest.head?, isDelimiter char = true) := by
  induction text with
  | nil => exact ⟨[], [], rfl, fun _ member => (nomatch member), Or.inl rfl⟩
  | cons char later ih =>
    cases isDelimited : isDelimiter char with
    | true => exact ⟨[], char :: later, rfl, fun _ member => (nomatch member),
        Or.inr ⟨char, rfl, isDelimited⟩⟩
    | false =>
      obtain ⟨plain, rest, rfl, isPlain, isEnd⟩ := ih
      refine ⟨char :: plain, rest, rfl, ?_, isEnd⟩
      intro other member
      rcases mem_cons.mp member with rfl | inRest
      · exact isDelimited
      · exact isPlain other inRest

theorem strict_element (strict : Strict ends accepts) (accepted : accepts .init text) :
    (∃ before rest, text = blanks before ++ '[' :: rest ∧ accepts .init ('[' :: rest)) ∨
      ∃ (element : Element) (rest : Text),
        text = element.render ++ rest ∧ ends rest ∧ accepts .init rest := by
  obtain ⟨before, same⟩ := blanks_skipBlanks text
  have notBlank := head?_skipBlanks text
  generalize skipBlanks text = later at same notBlank
  subst same
  rw [skims_blanks strict.skims] at accepted
  have asEmpty : ends later → ∃ (element : Element) (rest : Text),
      blanks before ++ later = element.render ++ rest ∧ ends rest ∧ accepts .init rest := by
    intro isEnd
    refine ⟨⟨before, .empty, trivial⟩, later, ?_, isEnd, accepted⟩
    simp [Element.render, Content.text, Content.after, blanks]
  cases later with
  | nil => exact Or.inr (asEmpty (strict.init [] (Or.inl rfl) accepted))
  | cons char rest =>
    have notBlankChar : char ≠ ' ' := fun isBlank => notBlank (congrArg some isBlank)
    by_cases isBracket : char = '['
    · subst isBracket
      exact Or.inl ⟨before, rest, rfl, accepted⟩
    · right
      by_cases isQuote : char = '"'
      · subst isQuote
        rw [strict.skims.quote] at accepted
        obtain ⟨body, after, rfl, isBody, closing⟩ := strict_quoted strict accepted
        have isEnd := strict.quoted after closing
        rw [strict.skims.closed after isEnd] at closing
        obtain ⟨count, split⟩ := blanks_skipBlanks after
        refine ⟨⟨before, .quoted body count, isBody⟩, skipBlanks after, ?_, isEnd, closing⟩
        conv => lhs; rw [split]
        simp [Element.render, Content.text, Content.after]
      · cases isDelimited : isDelimiter char with
        | true =>
          exact asEmpty (strict.init _ (Or.inr ⟨char, rfl, isDelimited⟩) accepted)
        | false =>
          rw [strict.skims.start char rest notBlankChar isQuote isBracket isDelimited]
            at accepted
          obtain ⟨plain, after, rfl, isPlain, stops⟩ := exists_plain rest
          rw [skims_plain strict.skims isPlain] at accepted
          have isEnd := strict.unquoted after stops accepted
          rw [strict.skims.value after isEnd] at accepted
          refine ⟨⟨before, .unquoted char plain,
            ⟨notBlankChar, isQuote, isBracket, isDelimited, isPlain⟩⟩, after, ?_, isEnd,
            accepted⟩
          simp [Element.render, Content.text, Content.after, blanks]

/-- A strict reader of parameters, with the reader inside the brackets of an array. -/
structure StrictParams (ends : Text → Prop) (outer inner : ParamState → Text → Prop) : Prop where
  skims : SkimsParams ends outer inner
  values : Strict ends outer
  elements : Strict (Ends true) inner
  nested : ∀ rest, ¬inner .init ('[' :: rest)
  unclosed : ¬inner .init []
  closed : ∀ rest, inner .init (']' :: rest) → ends (skipBlanks rest)

theorem isDelimiter_of_ends {array : Bool} (isEnd : Ends array (char :: rest)) :
    char = ',' ∨ char = ']' := by
  rcases delimiter_of_ends isEnd with isComma | ⟨isBracket, -⟩
  · exact Or.inl isComma
  · exact Or.inr isBracket

/-- In brackets there are values with commas between them, and a closing bracket. -/
theorem strict_elements (strict : StrictParams ends outer inner) (accepted : inner .init text) :
    ∃ (elements : Listed Element) (rest : Text),
      text = elements.render Element.render ++ ']' :: rest ∧ inner .init (']' :: rest) := by
  induction isLength : text.length using Nat.strong_induction_on generalizing text with
  | _ length ih =>
    rcases strict_element strict.elements accepted with ⟨before, rest, -, nested⟩ |
      ⟨element, rest, rfl, isEnd, later⟩
    · exact absurd nested (strict.nested rest)
    · cases rest with
      | nil => exact absurd later strict.unclosed
      | cons char after =>
        rcases isDelimiter_of_ends isEnd with rfl | rfl
        · rw [strict.skims.comma] at later
          rw [length_append, length_cons] at isLength
          obtain ⟨⟨first, others⟩, rest, rfl, closing⟩ :=
            ih after.length (by omega) later rfl
          exact ⟨⟨element, first :: others⟩, rest, by simp [Listed.render], closing⟩
        · exact ⟨⟨element, []⟩, after, by simp [Listed.render], later⟩

theorem strict_param (strict : StrictParams ends outer inner) (accepted : outer .init text) :
    ∃ (param : Param) (rest : Text),
      text = param.render ++ rest ∧ ends rest ∧ outer .init rest := by
  rcases strict_element strict.values accepted with ⟨before, rest, rfl, opening⟩ |
    ⟨element, rest, rfl, isEnd, later⟩
  · rw [strict.skims.opened] at opening
    obtain ⟨elements, after, rfl, closing⟩ := strict_elements strict opening
    have isEnd := strict.closed after closing
    rw [strict.skims.closed after isEnd] at closing
    obtain ⟨count, split⟩ := blanks_skipBlanks after
    refine ⟨.array before elements count, skipBlanks after, ?_, isEnd, closing⟩
    conv => lhs; rw [split]
    simp [Param.render]
  · exact ⟨.single element, rest, rfl, isEnd, later⟩

/-! ## The two parsers -/

/-- `num_param` does not fail from here. -/
def Counts (array : Bool) (ret : Nat) (state : ParamState) (text : Text) : Prop :=
  numParamLoop array ret state text ≠ 0

theorem skims_comp {Result Result' : Type} {read : ParamState → Text → Result}
    (skims : Skims ends read) (convert : Result → Result') :
    Skims ends fun state text => convert (read state text) where
  noBlank := skims.noBlank
  blank rest := congrArg convert (skims.blank rest)
  quote rest := congrArg convert (skims.quote rest)
  start char rest notBlank notQuote notBracket notDelimiter :=
    congrArg convert (skims.start char rest notBlank notQuote notBracket notDelimiter)
  plain char rest notDelimiter := congrArg convert (skims.plain char rest notDelimiter)
  value rest isEnd := congrArg convert (skims.value rest isEnd)
  escaped rest := congrArg convert (skims.escaped rest)
  inside char rest notQuote notEscape := congrArg convert (skims.inside char rest notQuote notEscape)
  closed rest isEnd := congrArg convert (skims.closed rest isEnd)

theorem skimsParams_comp {Result Result' : Type} {outer inner : ParamState → Text → Result}
    (skims : SkimsParams ends outer inner) (convert : Result → Result') :
    SkimsParams ends (fun state text => convert (outer state text))
      fun state text => convert (inner state text) where
  values := skims_comp skims.values convert
  elements := skims_comp skims.elements convert
  comma rest := congrArg convert (skims.comma rest)
  opened rest := congrArg convert (skims.opened rest)
  closed rest isEnd := congrArg convert (skims.closed rest isEnd)

theorem strict_counts (array : Bool) (ret : Nat) : Strict (Ends array) (Counts array ret) where
  skims := skims_comp (skims_numParam array ret) (· ≠ 0)
  unclosed := by simp [Counts, numParamLoop]
  quoted rest accepted := by
    rw [Counts, numParamLoop, if_pos rfl] at accepted
    dsimp only at accepted
    split_ifs at accepted with isWrong
    · exact absurd rfl accepted
    · rw [not_and_or, not_and_or, not_or] at isWrong
      rcases isWrong with isComma | isEnd | ⟨isArray, isBracket⟩
      · exact Or.inr (Or.inl (not_not.mp isComma))
      · exact Or.inl (not_not.mp isEnd)
      · exact Or.inr (Or.inr ⟨by simpa using isArray, not_not.mp isBracket⟩)
  unquoted rest stops accepted := by
    rcases stops with rfl | ⟨char, isHead, isDelimited⟩
    · exact ends_nil
    · obtain ⟨later, rfl⟩ := head?_eq_some_iff.mp isHead
      rw [Counts, numParamLoop] at accepted
      split_ifs at accepted with delimits isBracket
      · rcases delimits with rfl | ⟨rfl, rfl⟩
        · exact ends_comma
        · exact ends_bracket
      · exact absurd rfl accepted
      · simp only [isDelimiter, Bool.or_eq_true, beq_iff_eq] at isDelimited
        rcases isDelimited with isComma | isBracket'
        · exact absurd (Or.inl isComma) delimits
        · exact absurd isBracket' isBracket
  init rest stops accepted := by
    rcases stops with rfl | ⟨char, isHead, isDelimited⟩
    · exact ends_nil
    · obtain ⟨later, rfl⟩ := head?_eq_some_iff.mp isHead
      simp only [isDelimiter, Bool.or_eq_true, beq_iff_eq] at isDelimited
      rcases isDelimited with rfl | rfl
      · exact ends_comma
      · cases array with
        | true => exact ends_bracket
        | false =>
          rw [Counts, numParamLoop] at accepted
          simp at accepted

theorem strictParams_counts (ret : Nat) :
    StrictParams (Ends false) (Counts false ret) (Counts true ret) where
  skims := skimsParams_comp (skimsParams_numParam ret) (· ≠ 0)
  values := strict_counts false ret
  elements := strict_counts true ret
  nested rest := by rw [Counts, numParamLoop]; simp
  unclosed := by rw [Counts, numParamLoop]; simp
  closed rest accepted := by
    rw [Counts, numParamLoop] at accepted
    simp only [Char.reduceEq, if_false, true_and, if_true] at accepted
    split_ifs at accepted with isWrong
    · exact absurd rfl accepted
    · rw [not_and_or] at isWrong
      rcases isWrong with isComma | isEnd
      · exact Or.inr (Or.inl (not_not.mp isComma))
      · exact Or.inl (not_not.mp isEnd)

theorem exists_params_of_numParam (counted : 1 ≤ numParam text) :
    ∃ params : ParamList, text = renderParams params := by
  suffices general : ∀ ret, Counts false ret .init text →
      ∃ params : ParamList, text = renderParams params from
    general 1 (Nat.one_le_iff_ne_zero.mp counted)
  intro ret accepted
  clear counted
  induction isLength : text.length using Nat.strong_induction_on generalizing text ret with
  | _ length ih =>
    obtain ⟨param, rest, rfl, isEnd, later⟩ := strict_param (strictParams_counts ret) accepted
    cases rest with
    | nil => exact ⟨⟨param, []⟩, by simp [renderParams, Listed.render]⟩
    | cons char after =>
      rcases delimiter_of_ends isEnd with rfl | ⟨-, impossible⟩
      · rw [Counts, numParamLoop] at later
        simp only [if_true, Bool.false_eq_true, if_false] at later
        rw [length_append, length_cons] at isLength
        obtain ⟨⟨first, others⟩, rfl⟩ := ih after.length (by omega) (ret + 1) later rfl
        exact ⟨⟨param, first :: others⟩, by simp [renderParams, Listed.render]⟩
      · cases impossible

/-- `parse_key` finds the closing bracket, and `final` after it. -/
def Finds (final : Text) (array : Bool) (state : ParamState) (text : Text) : Prop :=
  parseParams array state text = (true, final)

theorem ends_of_delimiter (stops : rest = [] ∨ ∃ char ∈ rest.head?, isDelimiter char = true) :
    Ends true rest := by
  rcases stops with rfl | ⟨char, isHead, isDelimited⟩
  · exact ends_nil
  · simp only [isDelimiter, Bool.or_eq_true, beq_iff_eq] at isDelimited
    rcases isDelimited with rfl | rfl
    · exact Or.inr (Or.inl isHead)
    · exact Or.inr (Or.inr ⟨rfl, isHead⟩)

theorem strict_finds (final : Text) (array : Bool) : Strict (Ends true) (Finds final array) where
  skims := skims_comp (skims_parseParams array) (· = (true, final))
  unclosed := by simp [Finds, parseParams]
  quoted rest accepted := by
    rw [Finds, parseParams, if_pos rfl] at accepted
    dsimp only at accepted
    split_ifs at accepted with isKeyEnd isWrong
    · exact Or.inr (Or.inr ⟨rfl, isKeyEnd.2⟩)
    · cases accepted
    · rw [not_and_or] at isWrong
      rcases isWrong with isComma | isBracket
      · exact Or.inr (Or.inl (not_not.mp isComma))
      · exact Or.inr (Or.inr ⟨rfl, (not_not.mp isBracket).2⟩)
  unquoted _ stops _ := ends_of_delimiter stops
  init _ stops _ := ends_of_delimiter stops

theorem strictParams_finds (final : Text) :
    StrictParams (Ends true) (Finds final false) (Finds final true) where
  skims := skimsParams_comp skimsParams_parseParams (· = (true, final))
  values := strict_finds final false
  elements := strict_finds final true
  nested rest := by rw [Finds, parseParams]; simp
  unclosed := by rw [Finds, parseParams]; simp
  closed rest accepted := by
    rw [Finds, parseParams] at accepted
    simp only [Char.reduceEq, if_false, true_and, if_true] at accepted
    split_ifs at accepted with isKeyEnd isWrong
    · exact Or.inr (Or.inr ⟨rfl, isKeyEnd⟩)
    · cases accepted
    · exact Or.inr (Or.inl (not_not.mp isWrong))

/-- Where `parse_key` finds the closing bracket, a list of the grammar comes before it. -/
theorem exists_params_of_parseParams {final : Text}
    (found : parseParams false .init text = (true, final)) :
    ∃ params : ParamList, text = renderParams params ++ ']' :: final := by
  have accepted : Finds final false .init text := found
  clear found
  induction isLength : text.length using Nat.strong_induction_on generalizing text with
  | _ length ih =>
    obtain ⟨param, rest, rfl, isEnd, later⟩ := strict_param (strictParams_finds final) accepted
    cases rest with
    | nil => simp [Finds, parseParams] at later
    | cons char after =>
      rw [Finds, parseParams] at later
      rcases isDelimiter_of_ends isEnd with rfl | rfl
      · simp only [if_true] at later
        rw [length_append, length_cons] at isLength
        obtain ⟨⟨first, others⟩, rfl⟩ := ih after.length (by omega) later rfl
        exact ⟨⟨param, first :: others⟩, by simp [renderParams, Listed.render]⟩
      · simp only [Char.reduceEq, if_false, Bool.false_eq_true, and_false, if_true] at later
        obtain ⟨-, rfl⟩ := Prod.mk.inj later
        exact ⟨⟨param, []⟩, by simp [renderParams, Listed.render]⟩

end Zabbix.ItemKey.Recognition
