import Zabbix.ItemKey.Agents
import Zabbix.KeyAccess.Agent2Rules
import Zabbix.KeyAccess.RuleMeaning

/-!
# Patterns in both agents

The patterns that the agent and agent 2 read alike.  Agent 2 keeps a rule with empty
brackets as a rule with one empty parameter.
-/

namespace Zabbix.KeyAccess.SameReading

open Common.Text ItemKey ItemKey.Grammar List Option
open ItemKey.ParseKey (isKeyChar)
open ItemKey.Values
open ItemKey.Splitting (paramsLoop_tight exists_params_of_paramsLoop Param.Tight)
open ItemKey.Agents (isKeyChar_eq)
open WildcardMatch Rules Plain RuleMeaning
open Agent2Wildcard (minimize minimize_eq isUtf8 runeTail_ascii)
open Agent2Rules (Rule parse cutRepeated)

/-- The rule of agent 2 for a rule of the agent. -/
def toAgent2 (rule : AccessRule) : Rule :=
  ⟨rule.type, rule.key, if rule.emptyArguments then [[]] else rule.params⟩

/-- At most one parameter is an asterisk, or they all are at the end. -/
def StarsTrail (elements : List Text) : Prop :=
  elements.countP isStars ≤ 1 ∨ elements.countP isStars = (elements.reverse.takeWhile isStars).length

/--
Both agents read the pattern alike.  Its brackets hold a list of parameters, with no
blanks after arrays, in UTF-8, and asterisks are repeated only at the end; and it is
not `*[]`.
-/
def ReadAlike (text : Text) : Prop :=
  ∀ name inside, name ≠ [] → (∀ char ∈ name, isPatternChar char = true) →
    text = name ++ '[' :: (inside ++ [']']) →
      (inside = [] → isStars name = false) ∧
        ∃ params : ParamList, inside = renderParams params ∧
          (∀ item ∈ params.toList, Param.Tight item) ∧
            StarsTrail (params.toList.map Param.value) ∧
              ∀ value ∈ params.toList.map Param.value, isUtf8 value = true

variable {text name rest : Text} {elements : List Text} {type : AccessType} {char : Char}

/-! ## Names -/

theorem isKeyChar_wildcard (char : Char) :
    ItemUtil.isKeyChar char true = isPatternChar char := by
  rw [isPatternChar, ← isKeyChar_eq]
  simp [ItemUtil.isKeyChar]

theorem isUtf8_ascii (isAscii : ∀ char ∈ text, char.toNat < 0x80) : isUtf8 text = true := by
  induction text with
  | nil => rw [isUtf8]
  | cons char rest ih =>
    obtain ⟨isFirst, isRest⟩ := forall_mem_cons.mp isAscii
    rw [isUtf8, runeTail_ascii isFirst, drop_zero, ih isRest]
    simp [Agent2Wildcard.isRune, isFirst]

theorem ascii_of_isPatternChar (isChar : isPatternChar char = true) : char.toNat < 0x80 := by
  have within : ∀ {limit : Char}, char ≤ limit → char.toNat ≤ limit.toNat :=
    fun isLess => UInt32.le_iff_toNat_le.mp (Char.le_def.mp isLess)
  rw [← isKeyChar_wildcard, ItemUtil.isKeyChar] at isChar
  simp only [Bool.or_eq_true, Bool.and_eq_true, decide_eq_true_eq, beq_iff_eq, true_and] at isChar
  rcases isChar with (((isLower | isMark) | isDigit) | isUpper) | rfl
  · exact Nat.lt_of_le_of_lt (within isLower.2) (by decide)
  · rcases isMark with (rfl | rfl) | rfl
    · decide
    · decide
    · decide
  · exact Nat.lt_of_le_of_lt (within isDigit.2) (by decide)
  · exact Nat.lt_of_le_of_lt (within isUpper.2) (by decide)
  · decide

theorem minimize_name (isName : ∀ char ∈ name, isPatternChar char = true) :
    minimize name = zbxWildcardMinimize name :=
  minimize_eq (isUtf8_ascii fun char member => ascii_of_isPatternChar (isName char member))

/-! ## Asterisks at the end -/

theorem count_minimize (elements : List Text) :
    (elements.map zbxWildcardMinimize).count ['*'] = elements.countP isStars := by
  rw [count_eq_countP, countP_map]
  congr 1
  funext text
  rw [Bool.eq_iff_iff, Function.comp_apply, beq_iff_eq, minimize_eq_star]

theorem exists_trail (elements : List Text) :
    ∃ stars, elements = essential elements ++ stars ∧ (∀ text ∈ stars, isStars text = true) ∧
      stars.length = (elements.reverse.takeWhile isStars).length ∧
        (isOpen elements = true ↔ stars ≠ []) := by
  have split := takeWhile_append_dropWhile (p := isStars) (l := elements.reverse)
  refine ⟨(elements.reverse.takeWhile isStars).reverse, ?_, ?_, length_reverse, ?_⟩
  · rw [essential, ← reverse_append, split, reverse_reverse]
  · intro text member
    exact mem_takeWhile_imp (mem_reverse.mp member)
  · rw [isOpen, ← head?_reverse, ne_eq, reverse_eq_nil_iff]
    cases elements.reverse with
    | nil => simp
    | cons last before =>
      by_cases isLast : isStars last = true
      · simp [isLast]
      · simp [isLast]

theorem cutRepeated_minimize (trail : StarsTrail elements) :
    cutRepeated (elements.map zbxWildcardMinimize) =
      removeRepeated (elements.map zbxWildcardMinimize) := by
  obtain ⟨stars, isSplit, allStars, isCount, opened⟩ := exists_trail elements
  have minimized : stars.map zbxWildcardMinimize = replicate stars.length ['*'] := by
    rw [eq_replicate_iff, length_map]
    refine ⟨rfl, fun text member => ?_⟩
    obtain ⟨star, isStar, rfl⟩ := List.mem_map.mp member
    exact minimize_eq_star.mpr (allStars star isStar)
  have mapped : elements.map zbxWildcardMinimize =
      (essential elements).map zbxWildcardMinimize ++ replicate stars.length ['*'] := by
    rw [← minimized, ← map_append, ← isSplit]
  have counted : elements.countP isStars =
      (essential elements).countP isStars + stars.length := by
    conv_lhs => rw [isSplit]
    rw [countP_append, countP_eq_length.mpr allStars]
  have sameLength := congrArg length isSplit
  rw [length_append] at sameLength
  rw [cutRepeated, count_minimize, removeRepeated_minimize, length_map]
  by_cases isOpened : isOpen elements = true
  · have positive : 0 < stars.length := length_pos_iff.mpr (opened.mp isOpened)
    rw [if_pos isOpened]
    rcases trail with few | atEnd
    · have one : stars.length = 1 := by omega
      rw [if_neg (by omega), mapped, one]
      rfl
    · rw [← isCount] at atEnd
      split_ifs with several
      · have kept : elements.length - elements.countP isStars + 1 =
            ((essential elements).map zbxWildcardMinimize).length + 1 := by
          rw [length_map]
          omega
        rw [kept, mapped, take_length_add_append, take_replicate, Nat.min_eq_left positive]
        rfl
      · have one : stars.length = 1 := by omega
        rw [mapped, one]
        rfl
  · have noStars : stars = [] := by
      by_contra some
      exact isOpened (opened.mpr some)
    rw [if_neg isOpened, if_neg]
    rw [noStars] at isCount counted
    rcases trail with few | atEnd
    · omega
    · rw [← isCount] at atEnd
      simp [atEnd]

/-! ## Patterns -/

/-- The reading of agent 2, by the name and what follows it. -/
theorem parseWildcardKey_eq (text : Text) :
    ItemUtil.parseWildcardKey text =
      if text.takeWhile isPatternChar = [] then none
      else
        match text.dropWhile isPatternChar with
        | [] => some (text.takeWhile isPatternChar, [])
        | '[' :: rest =>
          (ItemUtil.paramsLoop rest).bind fun (params, left) =>
            if left = [] then some (text.takeWhile isPatternChar, params) else none
        | _ => none := by
  have same : (fun char => ItemUtil.isKeyChar char true) = isPatternChar :=
    funext isKeyChar_wildcard
  have split := takeWhile_append_dropWhile (p := isPatternChar) (l := text)
  rw [ItemUtil.parseWildcardKey, ItemUtil.parseMetricKey, ItemUtil.parseKey, same]
  cases isRest : text.dropWhile isPatternChar with
  | nil =>
    rw [isRest, append_nil] at split
    rw [split]
    split_ifs
    · rfl
    · rfl
  | cons char rest =>
    have nonempty : text ≠ [] := by
      rintro rfl
      cases isRest
    rw [if_neg nonempty]
    split_ifs with isEmpty
    · rfl
    · by_cases isBracket : char = '['
      · subst isBracket
        simp only [ne_eq, not_true_eq_false, if_false, ItemUtil.parseParams, bind_map]
        rfl
      · simp only [ne_eq, isBracket, not_false_eq_true, if_true, bind_some, reduceCtorEq,
          if_false]
        split
        case h_1 found => cases found
        case h_2 found => exact absurd (cons.inj found).1 isBracket
        case h_3 => rfl

/-- Both agents refuse a pattern whose name ends at anything but a bracket. -/
theorem parse_other {rest : Text} (isRest : text.dropWhile isPatternChar = char :: rest)
    (notBracket : char ≠ '[') (type : AccessType) :
    parse type text = none ∧ parseKeyAccessRule type text = none := by
  rw [parse, parseWildcardKey_eq, parseKeyAccessRule, isRest]
  constructor
  · split_ifs
    · rfl
    · split
      case h_1 found => cases found
      case h_2 found => exact absurd (cons.inj found).1 notBracket
      case h_3 => rfl
  · split_ifs
    · rfl
    · split
      case h_1 found => cases found
      case h_2 found => exact absurd (cons.inj found).1 notBracket
      case h_3 => rfl

/-- Both agents refuse a pattern, or they read the same rule. -/
theorem parse_toAgent2 (alike : ReadAlike text) (type : AccessType) :
    parse type text = (parseKeyAccessRule type text).map toAgent2 := by
  by_cases isOther : ∃ char rest, text.dropWhile isPatternChar = char :: rest ∧ char ≠ '['
  · obtain ⟨char, rest, isRest, notBracket⟩ := isOther
    obtain ⟨refused, refused'⟩ := parse_other isRest notBracket type
    rw [refused, refused', map_none]
  have split := takeWhile_append_dropWhile (p := isPatternChar) (l := text)
  have isName : ∀ char ∈ text.takeWhile isPatternChar, isPatternChar char = true :=
    fun _ => mem_takeWhile_imp
  rw [parse, parseWildcardKey_eq, parseKeyAccessRule]
  generalize text.takeWhile isPatternChar = name at split isName
  generalize text.dropWhile isPatternChar = rest at split isOther
  dsimp only
  split_ifs with isEmpty
  · rfl
  · cases rest with
    | nil =>
      dsimp only
      rw [map_some, map_some, minimize_name isName]
      rfl
    | cons char later =>
      obtain rfl : char = '[' :=
        by_contra fun notBracket => isOther ⟨char, later, rfl, notBracket⟩
      by_cases isClosed : later.getLast? = some ']'
      · obtain ⟨inside, rfl⟩ : ∃ inside, later = inside ++ [']'] :=
          ⟨later.dropLast, (dropLast_append_getLast? ']' isClosed).symm⟩
        obtain ⟨notAll, params, rfl, tight, trail, isText⟩ :=
          alike name inside isEmpty isName split.symm
        have same : (params.toList.map Param.value).map minimize =
            (params.toList.map Param.value).map zbxWildcardMinimize :=
          map_congr_left fun value member => minimize_eq (isText value member)
        simp only [paramsLoop_tight params tight [], bind_some, if_true, isClosed, ne_eq,
          not_true_eq_false, if_false, dropLast_concat, patternParams_render]
        rw [map_some, same, cutRepeated_minimize trail, minimize_name isName]
        split_ifs with isNil
        · rw [render_eq_nil isNil]
          rfl
        · rfl
      · simp only [ne_eq, isClosed, not_false_eq_true, if_true]
        cases isLoop : ItemUtil.paramsLoop later with
        | none => rfl
        | some found =>
          obtain ⟨values, left⟩ := found
          obtain ⟨params, rfl, -⟩ := exists_params_of_paramsLoop isLoop
          have notEnd : left ≠ [] := by
            rintro rfl
            exact isClosed (by simp)
          simp only [bind_some, notEnd, if_false]
          rfl

end Zabbix.KeyAccess.SameReading
