import Zabbix.ItemKey.Recognition
import Zabbix.KeyAccess.Rules
import Mathlib.Data.List.Forall2

/-!
# The meaning of one rule

A pattern is parsed to a rule that applies to the requests which the pattern covers.
-/

namespace Zabbix.KeyAccess.RuleMeaning

open Common.Text Library.Wildcard ItemKey.Params ItemKey.Grammar List Option
open ItemKey.Reading (numParam_render)
open ItemKey.Recognition (exists_params_of_numParam)
open ItemKey.Values WildcardMatch Rules Plain

variable {text key param element : Text} {elements params others : List Text}

/-! ## Asterisks -/

theorem minimizeLoop_stars (allStars : ∀ char ∈ text, char = '*') : minimizeLoop true text = [] := by
  induction text with
  | nil => rfl
  | cons char rest ih =>
    obtain ⟨isStar, isRest⟩ := forall_mem_cons.mp allStars
    rw [minimizeLoop, if_pos isStar, if_pos rfl]
    exact ih isRest

theorem stars_of_minimizeLoop {w : Bool} (isEmpty : minimizeLoop w text = []) :
    ∀ char ∈ text, char = '*' := by
  induction text generalizing w with
  | nil => simp
  | cons char rest ih =>
    rw [minimizeLoop] at isEmpty
    split_ifs at isEmpty with isStar
    rw [forall_mem_cons]
    exact ⟨isStar, ih isEmpty⟩

theorem minimize_eq_star : zbxWildcardMinimize text = ['*'] ↔ isStars text = true := by
  rw [isStars, zbxWildcardMinimize]
  cases text with
  | nil => exact iff_of_false (cons_ne_nil _ _ ∘ Eq.symm) Bool.false_ne_true
  | cons char rest =>
    rw [minimizeLoop]
    by_cases isStar : char = '*'
    · subst isStar
      have stars : (∀ char ∈ rest, char = '*') ↔ minimizeLoop true rest = [] :=
        ⟨minimizeLoop_stars, stars_of_minimizeLoop⟩
      simp [← stars]
    · simp [isStar]

/-- The repeated asterisks at the end of the parameters, as a pattern says it. -/
theorem removeRepeated_minimize (elements : List Text) :
    removeRepeated (elements.map zbxWildcardMinimize) =
      if isOpen elements then (essential elements).map zbxWildcardMinimize ++ [['*']]
      else elements.map zbxWildcardMinimize := by
  rcases eq_nil_or_concat elements with rfl | ⟨before, last, rfl⟩
  · rfl
  · rw [concat_eq_append, isOpen, getLast?_concat, any_some, removeRepeated, map_append,
      map_singleton, reverse_concat]
    dsimp only
    by_cases isLast : isStars last = true
    · have same : (fun text => zbxWildcardMinimize text == ['*']) = isStars := by
        funext text
        rw [Bool.eq_iff_iff, beq_iff_eq, minimize_eq_star]
      rw [if_pos isLast, minimize_eq_star.mpr isLast, if_pos rfl, essential, reverse_concat,
        dropWhile_cons_of_pos isLast, reverse_cons, ← map_reverse, dropWhile_map,
        Function.comp_def, same, ← map_reverse]
    · rw [if_neg isLast, if_neg fun isStar => isLast (minimize_eq_star.mp isStar)]

/-! ## Parameters -/

theorem getLast?_minimize (elements : List Text) :
    (elements.map zbxWildcardMinimize).getLast? = some ['*'] ↔ isOpen elements = true := by
  rw [getLast?_map, isOpen]
  cases elements.getLast? with
  | none => simp
  | some last => simpa using minimize_eq_star

/-- The elements that the loop matches with parameters. -/
def fixed (elements : List Text) : List Text :=
  if elements.getLast? = some ['*'] then elements.dropLast else elements

theorem fixed_cons (nonempty : elements ≠ []) : fixed (element :: elements) = element :: fixed elements := by
  cases elements with
  | nil => exact absurd rfl nonempty
  | cons next later =>
    rw [fixed, fixed, getLast?_cons_cons]
    split_ifs
    · rfl
    · rfl

def MatchesEach (elements params : List Text) : Prop :=
  List.Forall₂ (fun element param => zbxWildcardMatch param element = true) elements params

theorem paramsMatch_iff (elements params : List Text) :
    paramsMatch elements params = true ↔
      elements ≠ [] ∧ ∃ first rest, params = first ++ rest ∧ MatchesEach (fixed elements) first := by
  have missing : ∀ {element : Text} {others : List Text},
      ¬∃ first rest, [] = first ++ rest ∧ MatchesEach (element :: others) first := by
    rintro element others ⟨first, rest, same, isMatch⟩
    rw [(append_eq_nil_iff.mp same.symm).1] at isMatch
    cases isMatch
  have matched : ∀ {element param : Text} {others params : List Text},
      (∃ first rest, param :: params = first ++ rest ∧ MatchesEach (element :: others) first) ↔
        zbxWildcardMatch param element = true ∧
          ∃ first rest, params = first ++ rest ∧ MatchesEach others first := by
    intro element param others params
    constructor
    · rintro ⟨first, rest, same, isMatch⟩
      cases isMatch with
      | cons isFirst isLater =>
        obtain ⟨rfl, rfl⟩ := cons.inj same
        exact ⟨isFirst, _, _, rfl, isLater⟩
    · rintro ⟨isFirst, first, rest, rfl, isLater⟩
      exact ⟨param :: first, rest, rfl, List.Forall₂.cons isFirst isLater⟩
  fun_induction paramsMatch elements params with
  | case1 params => exact iff_of_false Bool.false_ne_true fun both => both.1 rfl
  | case2 params => exact iff_of_true rfl ⟨cons_ne_nil _ _, [], params, rfl, List.Forall₂.nil⟩
  | case3 last notStar =>
    have whole : fixed [last] = [last] := if_neg fun same => notStar (some.inj same)
    rw [whole]
    exact iff_of_false Bool.false_ne_true fun both => missing both.2
  | case4 last notStar param rest =>
    have whole : fixed [last] = [last] := if_neg fun same => notStar (some.inj same)
    rw [whole, matched]
    constructor
    · exact fun isMatch => ⟨cons_ne_nil _ _, isMatch, [], rest, rfl, List.Forall₂.nil⟩
    · exact fun both => both.2.1
  | case5 element next later =>
    rw [fixed_cons (cons_ne_nil _ _)]
    exact iff_of_false Bool.false_ne_true fun both => missing both.2
  | case6 element elements param params nonempty ih =>
    rw [fixed_cons nonempty, matched, Bool.and_eq_true]
    constructor
    · exact fun both => ⟨cons_ne_nil _ _, both.1, (ih.mp both.2).2⟩
    · exact fun both => ⟨both.2.1, ih.mpr ⟨nonempty, both.2.2⟩⟩

theorem match_minimize (elements params : List Text) :
    MatchesEach (elements.map zbxWildcardMinimize) params ↔ Match elements params := by
  rw [MatchesEach, List.forall₂_map_left_iff, Match]
  simp only [zbxWildcardMatch_iff, matches_minimize]

theorem key_minimize (name key : Text) :
    zbxWildcardMatch key (zbxWildcardMinimize name) = true ↔ Matches '*' name key := by
  rw [zbxWildcardMatch_iff, matches_minimize]

/-! ## Rules -/

variable {type : AccessType} {name : Text}

theorem isMatchAll_iff (type : AccessType) (name : Text) (emptyArguments : Bool) :
    isMatchAll ⟨type, zbxWildcardMinimize name, [], emptyArguments⟩ = true ↔
      isStars name = true := by
  rw [isMatchAll, Bool.and_eq_true, beq_iff_eq, minimize_eq_star]
  exact and_iff_left rfl

/-- A rule without brackets. -/
theorem applies_name (type : AccessType) (name key : Text) (params : List Text) :
    applies ⟨type, zbxWildcardMinimize name, [], false⟩ key params = true ↔
      Covers ⟨name, none⟩ key params := by
  rw [applies, Covers]
  dsimp only
  by_cases isAll : isStars name = true
  · rw [if_pos ((isMatchAll_iff type name false).mpr isAll)]
    exact iff_of_true rfl (Or.inl isAll)
  · rw [if_neg fun all => isAll ((isMatchAll_iff type name false).mp all)]
    by_cases isMatch : Matches '*' name key
    · have matched := (key_minimize name key).mpr isMatch
      by_cases noParams : params = []
      · simp [matched, isMatch, noParams]
      · simp [matched, isAll, isMatch, noParams, paramsMatch]
    · have notMatched : ¬zbxWildcardMatch key (zbxWildcardMinimize name) = true :=
        fun matched => isMatch ((key_minimize name key).mp matched)
      simp [notMatched, isAll, isMatch]

theorem applies_empty (notAll : ¬isStars name = true) (key : Text) (params : List Text) :
    applies ⟨type, zbxWildcardMinimize name, [], true⟩ key params = true ↔
      Covers ⟨name, some [[]]⟩ key params := by
  have closed : ¬isOpen [[]] = true := by decide
  have one : Match [[]] params ↔ params = [[]] := by
    rw [Match]
    constructor
    · intro isMatch
      cases isMatch with
      | cons isFirst isLater =>
        cases isLater with
        | nil => rw [matches_nil.mp isFirst]
    · rintro rfl
      exact List.Forall₂.cons rfl List.Forall₂.nil
  rw [applies, Covers]
  dsimp only
  rw [if_neg fun all => notAll ((isMatchAll_iff type name true).mp all), if_neg closed, one]
  by_cases isMatch : Matches '*' name key
  · have matched := (key_minimize name key).mpr isMatch
    simp [matched, isMatch]
  · have notMatched : ¬zbxWildcardMatch key (zbxWildcardMinimize name) = true :=
      fun matched => isMatch ((key_minimize name key).mp matched)
    simp [notMatched, isMatch]

theorem applies_some (nonempty : elements ≠ []) (type : AccessType) (ruleKey key : Text)
    (params : List Text) :
    applies ⟨type, ruleKey, elements, false⟩ key params = true ↔
      zbxWildcardMatch key ruleKey = true ∧
        if elements.getLast? = some ['*'] then params ≠ [] ∧ paramsMatch elements params = true
        else params.length = elements.length ∧ paramsMatch elements params = true := by
  have notAll : ¬isMatchAll ⟨type, ruleKey, elements, false⟩ = true := by
    simp [isMatchAll, nonempty]
  have positive : 0 < elements.length := length_pos_iff.mpr nonempty
  rw [applies]
  dsimp only
  rw [if_neg notAll]
  by_cases isMatch : zbxWildcardMatch key ruleKey = true
  · by_cases isStar : elements.getLast? = some ['*']
    · by_cases noParams : params = []
      · have notOnly : ¬elements.length = 1 → paramsMatch elements [] = false := by
          intro several
          cases elements with
          | nil => exact absurd rfl nonempty
          | cons element others =>
            cases others with
            | nil => exact absurd rfl several
            | cons next later => rfl
        simpa [isMatch, isStar, noParams, nonempty] using notOnly
      · simp [isMatch, isStar, noParams, nonempty]
    · by_cases same : params.length = elements.length
      · simp [isMatch, isStar, same, nonempty]
      · have notLonger : elements.length ≤ params.length →
            params.length ≤ elements.length ∨ params = [[]] → paramsMatch elements params = false := by
          rintro long (short | rfl)
          · exact absurd (Nat.le_antisymm short long) same
          · exact absurd (Nat.le_antisymm positive long) same
        simpa [isMatch, isStar, same, nonempty] using notLonger
  · simp [isMatch]

theorem applies_params (nonempty : elements ≠ []) (type : AccessType) (name key : Text)
    (params : List Text) :
    applies ⟨type, zbxWildcardMinimize name,
        removeRepeated (elements.map zbxWildcardMinimize), false⟩ key params = true ↔
      Covers ⟨name, some elements⟩ key params := by
  have isNonempty : removeRepeated (elements.map zbxWildcardMinimize) ≠ [] := by
    rw [removeRepeated_minimize]
    split_ifs
    · simp
    · simpa using nonempty
  rw [applies_some isNonempty, key_minimize, Covers]
  apply and_congr_right
  intro _
  rw [removeRepeated_minimize]
  by_cases isOpened : isOpen elements = true
  · rw [if_pos isOpened, if_pos isOpened, getLast?_concat, if_pos rfl, paramsMatch_iff, fixed,
      getLast?_concat, if_pos rfl, dropLast_concat]
    simp only [match_minimize]
    exact and_congr_right fun _ => and_iff_right (by simp)
  · rw [if_neg isOpened, if_neg isOpened,
      if_neg fun isStar => isOpened ((getLast?_minimize elements).mp isStar), paramsMatch_iff, fixed,
      if_neg fun isStar => isOpened ((getLast?_minimize elements).mp isStar)]
    simp only [match_minimize]
    constructor
    · rintro ⟨same, -, first, rest, rfl, isMatch⟩
      have sameLength := isMatch.length_eq
      rw [length_append, length_map] at same
      have isEmpty : rest = [] := eq_nil_of_length_eq_zero (by omega)
      rw [isEmpty, append_nil]
      exact isMatch
    · intro isMatch
      refine ⟨?_, by simpa using nonempty, params, [], (append_nil params).symm, isMatch⟩
      rw [length_map, isMatch.length_eq]

/-! ## Parsing -/

/-- The rule that a pattern is parsed to. -/
def ruleOf (rule : WrittenRule) : AccessRule :=
  match rule.pattern.params with
  | none => ⟨rule.type, zbxWildcardMinimize rule.pattern.name, [], false⟩
  | some elements =>
    if rule.text = rule.pattern.name ++ ['[', ']'] then
      ⟨rule.type, zbxWildcardMinimize rule.pattern.name, [], true⟩
    else
      ⟨rule.type, zbxWildcardMinimize rule.pattern.name,
        removeRepeated (elements.map zbxWildcardMinimize), false⟩

theorem mapM_some {Index Value : Type} {read : Index → Option Value} {value : Index → Value}
    {indices : List Index} (isValue : ∀ index ∈ indices, read index = some (value index)) :
    indices.mapM read = some (indices.map value) := by
  induction indices with
  | nil => rfl
  | cons first later ih =>
    obtain ⟨isFirst, isLater⟩ := forall_mem_cons.mp isValue
    rw [mapM_cons, isFirst, ih isLater]
    rfl

theorem patternParams_render (params : ParamList) :
    patternParams (renderParams params) =
      some ((params.toList.map Param.value).map zbxWildcardMinimize) := by
  have isValue : ∀ i ∈ range (numParam (renderParams params)),
      (getParamDyn (renderParams params) (i + 1)).map (fun param => zbxWildcardMinimize param.1) =
        some (zbxWildcardMinimize ((params.toList.map Param.value).getD i [])) := by
    intro i member
    have within : i < params.toList.length := by
      rw [mem_range, numParam_render] at member
      exact member
    have isParam := getElem?_eq_getElem within
    have copied := getParamDyn_render params isParam
    obtain ⟨param, isCopied, isText⟩ := map_eq_some_iff.mp copied
    rw [isCopied, map_some, isText, getD_eq_getElem?_getD, getElem?_map, isParam]
    rfl
  rw [patternParams, mapM_some isValue]
  congr 1
  apply ext_getElem
  · rw [length_map, length_range, numParam_render, length_map, length_map]
    rfl
  · intro i isLeft isRight
    rw [length_map] at isRight
    simp only [getElem_map, getElem_range, getD_eq_getElem?_getD,
      getElem?_eq_getElem isRight, getD_some]

theorem render_eq_nil {params : ParamList} (isEmpty : renderParams params = []) :
    params.toList.map Param.value = [[]] := by
  obtain ⟨first, others⟩ := params
  obtain ⟨firstEmpty, othersEmpty⟩ := append_eq_nil_iff.mp isEmpty
  have noOthers : others = [] := by
    cases others with
    | nil => rfl
    | cons next later => cases othersEmpty
  subst noOthers
  cases first with
  | array before elements after =>
    have nonempty := congrArg length firstEmpty
    simp [Param.render] at nonempty
  | single element =>
    obtain ⟨before, content, valid⟩ := element
    cases content with
    | empty => rfl
    | unquoted first rest =>
      have nonempty := congrArg length firstEmpty
      simp [Param.render, Element.render, Content.text] at nonempty
    | quoted body after =>
      have nonempty := congrArg length firstEmpty
      simp [Param.render, Element.render, Content.text] at nonempty

theorem patternParams_other {inside : Text}
    (notParams : ¬∃ params : ParamList, inside = renderParams params) :
    patternParams inside = some [] := by
  have noneCounted : numParam inside = 0 := by
    by_contra counted
    exact notParams (exists_params_of_numParam (Nat.one_le_iff_ne_zero.mpr counted))
  rw [patternParams, noneCounted]
  rfl

/-- A parameter with nothing in it. -/
def emptyElement : Element where
  before := 0
  content := .empty
  valid := trivial

theorem parse_written (rule : WrittenRule) :
    parseKeyAccessRule rule.type rule.text = some (ruleOf rule) := by
  obtain ⟨type, text, ⟨name, params⟩, reads⟩ := rule
  obtain ⟨nonempty, isName, isText⟩ := id reads
  cases params with
  | none =>
    rcases isText with rfl | ⟨inside, rfl, notParams⟩
    · have isWhole : text.takeWhile isPatternChar = text := takeWhile_eq_self_iff.mpr isName
      have isRest : text.dropWhile isPatternChar = [] := dropWhile_eq_nil_iff.mpr isName
      rw [parseKeyAccessRule, isWhole, isRest, if_neg nonempty]
      rfl
    · obtain ⟨isTaken, isDropped⟩ := @split_while name '[' isPatternChar isName (by decide)
        (inside ++ [']'])
      have isWritten : inside ≠ [] := by
        rintro rfl
        exact notParams ⟨⟨.single emptyElement, []⟩, rfl⟩
      rw [parseKeyAccessRule, isTaken, isDropped, if_neg nonempty]
      simp only [getLast?_concat, ne_eq, not_true_eq_false, if_false, dropLast_concat,
        if_neg isWritten, patternParams_other notParams]
      rfl
  | some elements =>
    obtain ⟨list, rfl, rfl⟩ := isText
    obtain ⟨isTaken, isDropped⟩ := @split_while name '[' isPatternChar isName (by decide)
      (renderParams list ++ [']'])
    dsimp only at nonempty
    rw [parseKeyAccessRule, isTaken, isDropped, if_neg nonempty]
    simp only [getLast?_concat, dropLast_concat, ne_eq, not_true_eq_false, if_false]
    have isEmpty : name ++ '[' :: (renderParams list ++ [']']) = name ++ ['[', ']'] ↔
        renderParams list = [] := by simp
    rw [ruleOf, patternParams_render]
    simp only [isEmpty]
    split_ifs
    · rfl
    · rfl

theorem exists_written {type : AccessType} {text : Text} {rule : AccessRule}
    (parsed : parseKeyAccessRule type text = some rule) : ∃ pattern, Reads text pattern := by
  have split := takeWhile_append_dropWhile (p := isPatternChar) (l := text)
  have isName : ∀ char ∈ text.takeWhile isPatternChar, isPatternChar char = true :=
    fun _ => mem_takeWhile_imp
  rw [parseKeyAccessRule] at parsed
  generalize text.takeWhile isPatternChar = name at parsed split isName
  generalize text.dropWhile isPatternChar = rest at parsed split
  split_ifs at parsed with isEmpty
  split at parsed
  · rw [append_nil] at split
    exact ⟨⟨name, none⟩, isEmpty, isName, Or.inl split.symm⟩
  case h_2 later =>
    by_cases isClosed : later.getLast? = some ']'
    · obtain ⟨inside, rfl⟩ : ∃ inside, later = inside ++ [']'] :=
        ⟨later.dropLast, (dropLast_append_getLast? ']' isClosed).symm⟩
      by_cases isList : ∃ params : ParamList, inside = renderParams params
      · obtain ⟨params, rfl⟩ := isList
        exact ⟨⟨name, some (params.toList.map Param.value)⟩, isEmpty, isName,
          params, split.symm, rfl⟩
      · exact ⟨⟨name, none⟩, isEmpty, isName, Or.inr ⟨inside, split.symm, isList⟩⟩
    · rw [if_pos isClosed] at parsed
      cases parsed
  · cases parsed

theorem applies_ruleOf (rule : WrittenRule) (notAll : ¬IsEmptyAll rule.text) (key : Text)
    (params : List Text) :
    applies (ruleOf rule) key params = true ↔ Covers rule.pattern key params := by
  obtain ⟨type, text, ⟨name, written⟩, reads⟩ := rule
  cases written with
  | none => exact applies_name type name key params
  | some elements =>
    obtain ⟨list, isText, isElements⟩ := id reads.isText
    rw [ruleOf]
    dsimp only at isText isElements ⊢
    split_ifs with isEmpty
    · have noStars : ¬isStars name = true := fun isStars => notAll ⟨name, isStars, isEmpty⟩
      have oneEmpty : elements = [[]] := by
        rw [isElements]
        apply render_eq_nil
        rw [isText] at isEmpty
        simpa using isEmpty
      rw [oneEmpty]
      exact applies_empty noStars key params
    · apply applies_params
      rw [isElements]
      exact cons_ne_nil _ _

end Zabbix.KeyAccess.RuleMeaning
