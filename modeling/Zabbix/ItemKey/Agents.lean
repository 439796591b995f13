import Zabbix.ItemKey.Splitting
import Mathlib.Data.List.Basic

/-!
# The two agents

`parse_item_key` of the agent and `ParseKey` of agent 2 on the same key.
-/

namespace Zabbix.ItemKey.Agents

open Common.Text ParseKey Params Grammar List Option
open Reading (numParam_render)
open Recognition (exists_params_of_numParam)
open Values Splitting Requests

/-- Both agents refuse a key, or read the same name and the same parameters. -/
def Agree (itemkey : Text) : Prop :=
  match parseItemKey itemkey, ItemUtil.parseItemKey itemkey with
  | none, none => True
  | some request, some (key, params) =>
    request.key = key ∧
      request.params.map (fun param => param.map Prod.fst) = params.map some
  | _, _ => False

/-- The key has a parameter list with blanks after the bracket that closes an array. -/
def BlankAfterArray (itemkey : Text) : Prop :=
  ∃ (name : Text) (params : ParamList),
    (∀ char ∈ name, isKeyChar char = true) ∧ name ≠ [] ∧
      itemkey = name ++ '[' :: (renderParams params ++ [']']) ∧
        ∃ item ∈ params.toList, ¬Param.Tight item

variable {name rest text : Text} {char : Char}

/-! ## Names -/

theorem isKeyChar_eq (char : Char) : ItemUtil.isKeyChar char false = isKeyChar char := by
  have isLetter : char.isAlpha = (decide (char.val ≥ 'A'.val ∧ char.val ≤ 'Z'.val) ||
      char.val ≥ 'a'.val && char.val ≤ 'z'.val) := rfl
  rw [Bool.eq_iff_iff]
  simp only [ItemUtil.isKeyChar, isKeyChar, Char.isAlphanum, isLetter, Char.isDigit,
    Bool.or_eq_true, Bool.and_eq_true, decide_eq_true_eq, beq_iff_eq, Char.le_def, ge_iff_le,
    Bool.false_eq_true, false_and, or_false]
  tauto

theorem key_cases (itemkey : Text) :
    itemkey.takeWhile isKeyChar = [] ∨
      (itemkey ≠ [] ∧ ∀ char ∈ itemkey, isKeyChar char = true) ∨
        ∃ name char rest, name ≠ [] ∧ (∀ char ∈ name, isKeyChar char = true) ∧
          isKeyChar char = false ∧ itemkey = name ++ char :: rest := by
  by_cases noName : itemkey.takeWhile isKeyChar = []
  · exact Or.inl noName
  · have split := takeWhile_append_dropWhile (p := isKeyChar) (l := itemkey)
    have isName : ∀ char ∈ itemkey.takeWhile isKeyChar, isKeyChar char = true :=
      fun _ member => mem_takeWhile_imp member
    cases isRest : itemkey.dropWhile isKeyChar with
    | nil =>
      rw [isRest, append_nil] at split
      rw [split] at noName isName
      exact Or.inr (Or.inl ⟨noName, isName⟩)
    | cons char rest =>
      have notKey := head?_dropWhile_not isKeyChar itemkey
      rw [isRest] at notKey split
      exact Or.inr (Or.inr ⟨_, char, rest, noName, isName, notKey, split.symm⟩)

/-! ## The readings of a key -/

theorem parse_noName (noName : text.takeWhile isKeyChar = []) :
    parseItemKey text = none ∧ ItemUtil.parseItemKey text = none := by
  constructor
  · rw [parseItemKey, parseCommandDyn]
    simp only [noName, if_true]
  · have same : (fun char => ItemUtil.isKeyChar char false) = isKeyChar := funext isKeyChar_eq
    rw [ItemUtil.parseItemKey, ItemUtil.parseMetricKey, ItemUtil.parseKey, same]
    split_ifs with isEmpty
    · rfl
    · cases isRest : text.dropWhile isKeyChar with
      | nil =>
        have split := takeWhile_append_dropWhile (p := isKeyChar) (l := text)
        rw [noName, isRest] at split
        exact absurd split.symm isEmpty
      | cons char rest => simp only [bind_none]

variable (isName : ∀ char ∈ name, isKeyChar char = true)

include isName

theorem parse_name (nonempty : name ≠ []) :
    parseItemKey name = some ⟨name, []⟩ ∧ ItemUtil.parseItemKey name = some (name, []) := by
  have isWhole : name.takeWhile isKeyChar = name := takeWhile_eq_self_iff.mpr isName
  have isEmpty : name.dropWhile isKeyChar = [] := dropWhile_eq_nil_iff.mpr isName
  have same : (fun char => ItemUtil.isKeyChar char false) = isKeyChar := funext isKeyChar_eq
  constructor
  · rw [parseItemKey, parseCommandDyn]
    simp only [isWhole, isEmpty, if_neg nonempty]
  · rw [ItemUtil.parseItemKey, ItemUtil.parseMetricKey, ItemUtil.parseKey, same]
    simp only [isWhole, isEmpty, if_neg nonempty, bind_some, if_true]

theorem parse_other (nonempty : name ≠ [])
    (isEnd : isKeyChar char = false) (notBracket : char ≠ '[') (rest : Text) :
    parseItemKey (name ++ char :: rest) = none ∧
      ItemUtil.parseItemKey (name ++ char :: rest) = none := by
  obtain ⟨isTaken, isDropped⟩ := split_while isName isEnd rest
  have same : (fun char => ItemUtil.isKeyChar char false) = isKeyChar := funext isKeyChar_eq
  constructor
  · have isError : parseCommandDyn (name ++ char :: rest) = .error := by
      rw [parseCommandDyn, isTaken, isDropped, if_neg nonempty]
      split
      case h_1 found => cases found
      case h_2 found => exact absurd (cons.inj found).1 notBracket
      case h_3 => rfl
    rw [parseItemKey, isError]
  · rw [ItemUtil.parseItemKey, ItemUtil.parseMetricKey, if_neg (by simp), ItemUtil.parseKey, same,
      isTaken, isDropped]
    simp only [if_neg nonempty, if_pos notBracket, bind_some, reduceCtorEq, if_false]

theorem parse_params (nonempty : name ≠ [])
    (rest : Text) :
    (parseItemKey (name ++ '[' :: rest) =
      if rest.getLast? = some ']' ∧ numParam rest.dropLast ≠ 0 then
        some ⟨name, (range (numParam rest.dropLast)).map fun i =>
          getParamDyn rest.dropLast (i + 1)⟩
      else none) ∧
    ItemUtil.parseItemKey (name ++ '[' :: rest) =
      (ItemUtil.paramsLoop rest).bind fun (params, left) =>
        if left = [] then some (name, params) else none := by
  obtain ⟨isTaken, isDropped⟩ := @split_while name '[' isKeyChar isName (by decide) rest
  have same : (fun char => ItemUtil.isKeyChar char false) = isKeyChar := funext isKeyChar_eq
  constructor
  · rw [parseItemKey, parseCommandDyn, isTaken, isDropped, if_neg nonempty]
    by_cases isClosed : rest.getLast? = some ']'
    · simp only [if_pos isClosed]
      by_cases isWrong : numParam rest.dropLast = 0
      · rw [if_pos isWrong, if_neg fun both => both.2 isWrong]
      · rw [if_neg isWrong, if_pos ⟨isClosed, isWrong⟩]
    · simp only [if_neg isClosed, if_neg fun both => isClosed (And.left both)]
  · rw [ItemUtil.parseItemKey, ItemUtil.parseMetricKey, if_neg (by simp), ItemUtil.parseKey, same,
      isTaken, isDropped]
    dsimp only
    rw [if_neg nonempty, if_neg (not_not.mpr rfl), ItemUtil.parseParams, bind_map]
    rfl

omit isName

/-! ## Agreement -/

/-- The agent accepts a list of the grammar in brackets, and nothing else. -/
theorem closed_iff (rest : Text) :
    rest.getLast? = some ']' ∧ numParam rest.dropLast ≠ 0 ↔
      ∃ params : ParamList, rest = renderParams params ++ [']'] := by
  constructor
  · rintro ⟨isClosed, isRight⟩
    obtain ⟨params, same⟩ := exists_params_of_numParam (Nat.one_le_iff_ne_zero.mpr isRight)
    refine ⟨params, ?_⟩
    rw [← same]
    exact (dropLast_append_getLast? ']' isClosed).symm
  · rintro ⟨params, rfl⟩
    refine ⟨by simp, ?_⟩
    rw [dropLast_concat, numParam_render]
    exact Nat.succ_ne_zero _

theorem params_render (params : ParamList) :
    ((range (numParam (renderParams params))).map fun i =>
        getParamDyn (renderParams params) (i + 1)).map (fun param => param.map Prod.fst) =
      (params.toList.map Param.value).map some := by
  rw [numParam_render, List.map_map, List.map_map]
  apply ext_getElem
  · simp [Listed.toList]
  · intro i isLeft isRight
    have within : i < params.toList.length := by simpa using isRight
    have isParam : params.toList[i]? = some params.toList[i] := getElem?_eq_getElem within
    simp only [getElem_map, getElem_range, Function.comp_apply]
    exact getParamDyn_render params isParam

variable (isName : ∀ char ∈ name, isKeyChar char = true)

include isName

theorem agree_render (nonempty : name ≠ [])
    (params : ParamList) :
    Agree (name ++ '[' :: (renderParams params ++ [']'])) ↔
      ∀ item ∈ params.toList, Param.Tight item := by
  obtain ⟨agent, agent2⟩ := parse_params isName nonempty (renderParams params ++ [']'])
  rw [if_pos ((closed_iff _).mpr ⟨params, rfl⟩), dropLast_concat] at agent
  rw [Agree, agent, agent2]
  by_cases tight : ∀ item ∈ params.toList, Param.Tight item
  · rw [paramsLoop_tight params tight []]
    exact iff_of_true ⟨rfl, params_render params⟩ tight
  · have loose : ∃ item ∈ params.toList, ¬Param.Tight item := by
      by_contra none
      exact tight fun item member => by_contra fun isLoose => none ⟨item, member, isLoose⟩
    rw [paramsLoop_loose params loose []]
    exact iff_of_false id tight

theorem agree_refused (nonempty : name ≠ [])
    (notParams : ¬∃ params : ParamList, rest = renderParams params ++ [']']) :
    Agree (name ++ '[' :: rest) := by
  obtain ⟨agent, agent2⟩ := parse_params isName nonempty rest
  rw [if_neg fun accepted => notParams ((closed_iff rest).mp accepted)] at agent
  have refused : ItemUtil.parseItemKey (name ++ '[' :: rest) = none := by
    rw [agent2]
    cases isSplit : ItemUtil.paramsLoop rest with
    | none => rfl
    | some split =>
      obtain ⟨values, left⟩ := split
      obtain ⟨params, same, -⟩ := exists_params_of_paramsLoop isSplit
      apply if_neg
      rintro rfl
      exact notParams ⟨params, same⟩
  rw [Agree, agent, refused]
  trivial

theorem name_inj {name' rest' : Text} (isName' : ∀ char ∈ name', isKeyChar char = true)
    (same : name ++ '[' :: rest = name' ++ '[' :: rest') : name = name' ∧ rest = rest' := by
  obtain ⟨isTaken, isDropped⟩ := @split_while name '[' isKeyChar isName (by decide) rest
  obtain ⟨isTaken', isDropped'⟩ := @split_while name' '[' isKeyChar isName' (by decide) rest'
  rw [same, isTaken'] at isTaken
  rw [same, isDropped'] at isDropped
  exact ⟨isTaken.symm, (cons.inj isDropped).2.symm⟩

omit isName

/--
The two agents read a key in the same way, except where blanks follow the bracket
that closes an array: there the agent accepts the key and agent 2 refuses it.
-/
theorem agents_agree_iff (itemkey : Text) : Agree itemkey ↔ ¬BlankAfterArray itemkey := by
  rcases key_cases itemkey with noName | ⟨nonempty, isName⟩ |
    ⟨name, char, rest, nonempty, isName, isEnd, rfl⟩
  · obtain ⟨agent, agent2⟩ := parse_noName noName
    rw [Agree, agent, agent2]
    refine iff_of_true trivial ?_
    rintro ⟨name, params, isName, nonempty, rfl, -⟩
    rw [(split_while isName (by decide) _).1] at noName
    exact nonempty noName
  · obtain ⟨agent, agent2⟩ := parse_name isName nonempty
    rw [Agree, agent, agent2]
    refine iff_of_true ⟨rfl, rfl⟩ ?_
    rintro ⟨name, params, -, -, rfl, -⟩
    have isBracket := isName '[' (mem_append_right _ (mem_cons_self ..))
    cases isBracket
  · by_cases isBracket : char = '['
    · subst isBracket
      by_cases isParams : ∃ params : ParamList, rest = renderParams params ++ [']']
      · obtain ⟨params, rfl⟩ := isParams
        constructor
        · rintro agree ⟨name', params', isName', nonempty', same, loose⟩
          obtain ⟨rfl, -⟩ := name_inj isName isName' same
          rw [same, agree_render isName nonempty params'] at agree
          obtain ⟨item, member, isLoose⟩ := loose
          exact isLoose (agree item member)
        · intro notBlank
          rw [agree_render isName nonempty params]
          intro item member
          by_contra isLoose
          exact notBlank ⟨name, params, isName, nonempty, rfl, item, member, isLoose⟩
      · refine iff_of_true (agree_refused isName nonempty isParams) ?_
        rintro ⟨name', params, isName', -, same, -⟩
        exact isParams ⟨params, (name_inj isName isName' same).2⟩
    · obtain ⟨agent, agent2⟩ := parse_other isName nonempty isEnd isBracket rest
      rw [Agree, agent, agent2]
      refine iff_of_true trivial ?_
      rintro ⟨name', params, isName', -, same, -⟩
      have dropped := (split_while isName isEnd rest).2
      rw [same, (split_while isName' (by decide) _).2] at dropped
      exact isBracket (cons.inj dropped).1.symm

/-- The value `a` of the key below. -/
def valueA : Element where
  before := 0
  content := .unquoted 'a' []
  valid := ⟨by decide, by decide, by decide, rfl, fun _ member => (nomatch member)⟩

/-- The agent accepts `k[[a] ]`, and agent 2 does not. -/
theorem agents_not_agree_blank : ¬Agree ['k', '[', '[', 'a', ']', ' ', ']'] := by
  intro agree
  have tight := (@agree_render ['k'] (forall_mem_singleton.mpr rfl) (cons_ne_nil _ _)
    ⟨.array 0 ⟨valueA, []⟩ 1, []⟩).mp agree
  exact Nat.one_ne_zero (tight _ (mem_singleton_self _))

end Zabbix.ItemKey.Agents
