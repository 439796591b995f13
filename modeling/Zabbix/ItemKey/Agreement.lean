import Zabbix.ItemKey.Calls

/-!
# The parsers of item keys agree

`parse_key`, `num_param`, `get_param_dyn` and `replace_key_params_dyn` go through
the same keys, but for one difference: the last one does not stop at the bracket
that closes the parameter list.
-/

namespace Zabbix.ItemKey.Agreement

open Common.Text ParseKey Params Replace Grammar Reading Recognition Tail Calls List

variable {text name params : Text}

/-- One or more key characters. -/
def IsName (name : Text) : Prop :=
  name ≠ [] ∧ ∀ char ∈ name, isKeyChar char = true

/-- A name with a parameter list that `num_param` counts. -/
def HasParams (text name params : Text) : Prop :=
  IsName name ∧ text = name ++ '[' :: params ++ [']'] ∧ 1 ≤ numParam params

/-- The parsers of item keys agree on a text. -/
structure Agrees (text : Text) : Prop where
  key : Consumes text ↔ IsName text ∨ ∃ name params, HasParams text name params
  params :
    ∀ name params, HasParams text name params →
      ∀ num, 1 ≤ num → ((getParamDyn params num).isSome ↔ num ≤ numParam params)
  room :
    ∀ name params, HasParams text name params →
      ∀ num size, 1 ≤ num → getParamLen params num = some size →
        ∀ maxLen, size < maxLen → (getParam params num maxLen).isSome
  replaced : (replaceKeyParamsDyn text keep).ret = true ↔ Consumes text
  unchanged : (replaceKeyParamsDyn text keep).data = text
  calls : ∀ key : Key, text = key.render → (replaceKeyParamsDyn text keep).calls = key.calls

/-- A complete key with more text after it that reads on as parameters. -/
def Overruns (text : Text) : Prop :=
  ∃ name params tail,
    IsName name ∧ 1 ≤ numParam params ∧ text = name ++ '[' :: params ++ ']' :: tail ∧ tail ≠ [] ∧
      readsOn 0 .ended tail = true

/-! ## Keys -/

theorem numParam_pos (params : Text) :
    1 ≤ numParam params ↔ ∃ listed : ParamList, params = renderParams listed := by
  constructor
  · exact exists_params_of_numParam
  · rintro ⟨listed, rfl⟩
    rw [numParam_render]
    exact Nat.le_add_left 1 _

theorem name_split (text : Text) :
    text = text.takeWhile isKeyChar ++ text.dropWhile isKeyChar ∧
      ∀ char ∈ text.takeWhile isKeyChar, isKeyChar char = true := by
  constructor
  · exact takeWhile_append_dropWhile.symm
  · intro char member
    exact mem_takeWhile_imp member

theorem parseKey_name (isName : IsName name) {rest : Text}
    (isEnd : rest = [] ∨ rest.head? = some '[') :
    parseKey (name ++ rest) =
      if rest = [] then (true, []) else parseParams false .init rest.tail := by
  have longer : ¬rest.length = (name ++ rest).length := by
    have positive := length_pos_iff.mpr isName.1
    rw [length_append]
    omega
  unfold parseKey
  simp only [dropWhile_name isName.2 isEnd]
  rw [if_neg longer]
  rcases isEnd with rfl | isBracket
  · rfl
  · obtain ⟨params, rfl⟩ := head?_eq_some_iff.mp isBracket
    rfl

theorem consumes_iff (text : Text) :
    Consumes text ↔ IsName text ∨ ∃ name params, HasParams text name params := by
  constructor
  · intro consumed
    obtain ⟨split, keyChars⟩ := name_split text
    unfold Consumes parseKey at consumed
    dsimp only at consumed
    split_ifs at consumed with nameless
    · cases consumed
    · have notEmpty : text.takeWhile isKeyChar ≠ [] := by
        intro empty
        rw [empty, nil_append] at split
        exact nameless (congrArg length split.symm)
      split at consumed
      case h_1 params opened =>
        obtain ⟨listed, rfl⟩ := exists_params_of_parseParams consumed
        refine Or.inr ⟨_, renderParams listed, ⟨notEmpty, keyChars⟩, ?_,
          (numParam_pos _).mpr ⟨listed, rfl⟩⟩
        rw [opened] at split
        rw [append_assoc]
        exact split
      case h_2 =>
        rw [(Prod.mk.inj consumed).2, append_nil] at split
        rw [← split] at notEmpty keyChars
        exact Or.inl ⟨notEmpty, keyChars⟩
  · rintro (isName | ⟨name, params, isName, rfl, counted⟩)
    · have parsed := parseKey_name isName (Or.inl rfl)
      rwa [append_nil] at parsed
    · obtain ⟨listed, rfl⟩ := (numParam_pos params).mp counted
      rw [Consumes, append_assoc, parseKey_name isName (Or.inr rfl)]
      exact parseParams_render listed []

/-! ## Replacing -/

theorem clean_ret (outcome : Outcome) :
    (clean outcome).ret = true ↔ Outcome.Passes outcome ∧ outcome.progress.done ≠ [] := by
  unfold clean Outcome.Passes
  simp only [Bool.and_eq_true, Bool.not_eq_true', decide_eq_false_iff_not, not_or, not_not]
  constructor
  · rintro ⟨success, notEmpty, isEnd, closed⟩
    exact ⟨⟨success, isEnd, closed⟩, notEmpty⟩
  · rintro ⟨⟨success, isEnd, closed⟩, notEmpty⟩
    exact ⟨success, notEmpty, isEnd, closed⟩

theorem replaced_name (isName : IsName name) {rest : Text}
    (isEnd : rest = [] ∨ rest.head? = some '[') :
    (replaceKeyParamsDyn (name ++ rest) keep).ret = true ↔ readsOn 0 .new rest = true := by
  obtain ⟨kept, passes⟩ := replaceLoop_keep ⟨name, 0, 0, [⟨name, 0, 0, false⟩]⟩ .new rest
  rw [replaceKeyParamsDyn_name isName.1 isName.2 isEnd, clean_ret]
  constructor
  · rintro ⟨passed, -⟩
    exact passes.mp passed
  · intro accepted
    have passed := passes.mpr accepted
    refine ⟨passed, fun empty => ?_⟩
    rw [empty, passed.2.1] at kept
    exact isName.1 (append_eq_nil_iff.mp kept.symm).1

theorem replaced_iff (text : Text) :
    (replaceKeyParamsDyn text keep).ret = true ↔
      IsName text ∨
        ∃ name params, IsName name ∧ text = name ++ '[' :: params ∧ readsOn 1 .new params = true := by
  constructor
  · intro success
    obtain ⟨split, keyChars⟩ := name_split text
    by_cases invalid : text.takeWhile isKeyChar = [] ∨
        text.dropWhile isKeyChar ≠ [] ∧ (text.dropWhile isKeyChar).head? ≠ some '['
    · unfold replaceKeyParamsDyn at success
      dsimp only at success
      rw [if_pos invalid, clean_ret] at success
      rcases invalid with nameless | ⟨hasRest, -⟩
      · exact absurd nameless success.2
      · exact absurd success.1.2.1 hasRest
    · rw [not_or, not_and_or, not_not, not_not] at invalid
      have isName : IsName (text.takeWhile isKeyChar) := ⟨invalid.1, keyChars⟩
      have accepted := success
      rw [split, replaced_name isName invalid.2] at accepted
      rcases invalid.2 with none | isBracket
      · rw [none, append_nil] at split
        rw [← split] at isName
        exact Or.inl isName
      · obtain ⟨params, opened⟩ := head?_eq_some_iff.mp isBracket
        rw [opened] at split accepted
        exact Or.inr ⟨_, params, isName, split, by simpa [readsOn] using accepted⟩
  · rintro (isName | ⟨name, params, isName, rfl, accepted⟩)
    · have replaced := (replaced_name isName (Or.inl rfl)).mpr rfl
      rwa [append_nil] at replaced
    · exact (replaced_name isName (Or.inr rfl)).mpr (by simpa [readsOn] using accepted)

theorem replaceKeyParamsDyn_unchanged (text : Text) :
    (replaceKeyParamsDyn text keep).data = text := by
  have split := (name_split text).1
  unfold replaceKeyParamsDyn
  simp only [replaceKeyParam, keep, if_true]
  split_ifs
  · exact split.symm
  · exact (replaceLoop_keep _ _ _).1.trans split.symm

theorem consumes_of_replaced (notOverrun : ¬Overruns text)
    (success : (replaceKeyParamsDyn text keep).ret = true) : Consumes text := by
  rw [consumes_iff]
  rcases (replaced_iff text).mp success with isName | ⟨name, params, isName, rfl, accepted⟩
  · exact Or.inl isName
  · obtain ⟨listed, after, rfl, readOn⟩ := exists_params_of_readsOn accepted
    have counted : 1 ≤ numParam (renderParams listed) := (numParam_pos _).mpr ⟨listed, rfl⟩
    cases after with
    | nil =>
      refine Or.inr ⟨name, renderParams listed, isName, ?_, counted⟩
      rw [append_assoc]
      rfl
    | cons char later =>
      refine absurd ⟨name, renderParams listed, char :: later, isName, counted, ?_,
        cons_ne_nil _ _, readOn⟩ notOverrun
      rw [append_assoc]
      rfl

theorem replaced_of_consumes (consumed : Consumes text) :
    (replaceKeyParamsDyn text keep).ret = true := by
  rw [replaced_iff]
  rcases (consumes_iff text).mp consumed with isName | ⟨name, params, isName, rfl, counted⟩
  · exact Or.inl isName
  · obtain ⟨listed, rfl⟩ := (numParam_pos params).mp counted
    refine Or.inr ⟨name, renderParams listed ++ [']'], isName, ?_, ?_⟩
    · rw [append_assoc]
      rfl
    · rw [readsOn_render]
      rfl

theorem not_agrees_of_overruns (overrun : Overruns text) : ¬Agrees text := by
  obtain ⟨name, params, tail, isName, counted, rfl, notEmpty, readOn⟩ := overrun
  obtain ⟨listed, rfl⟩ := (numParam_pos params).mp counted
  have same : name ++ '[' :: renderParams listed ++ ']' :: tail =
      name ++ '[' :: (renderParams listed ++ ']' :: tail) := by
    rw [append_assoc]
    rfl
  rw [same]
  intro agrees
  have success := (replaced_iff _).mpr (Or.inr ⟨name, _, isName, rfl,
    (readsOn_render listed tail).trans readOn⟩)
  have consumed := agrees.replaced.mp success
  rw [Consumes, parseKey_name isName (Or.inr rfl), if_neg (cons_ne_nil _ _), tail_cons,
    parseParams_render] at consumed
  exact notEmpty (Prod.mk.inj consumed).2

/-- The parsers agree on a text unless it goes on after a complete key. -/
theorem agrees_iff (text : Text) : Agrees text ↔ ¬Overruns text := by
  constructor
  · intro agrees overrun
    exact not_agrees_of_overruns overrun agrees
  · intro notOverrun
    exact
      { key := consumes_iff text
        params := by
          rintro name params ⟨-, -, counted⟩ num positive
          obtain ⟨listed, rfl⟩ := (numParam_pos params).mp counted
          rw [getParamDyn_isSome, getParamLen_render listed positive]
        room := by
          intro name params _ num size _ measured maxLen fits
          obtain ⟨param, found, -⟩ := getParam_of_getParamLen measured fits
          rw [found, Option.isSome_some]
        replaced := ⟨consumes_of_replaced notOverrun, replaced_of_consumes⟩
        unchanged := replaceKeyParamsDyn_unchanged text
        calls := by
          rintro key rfl
          exact calls_render key }

/-- A comma after the closing bracket is accepted by replacing only. -/
theorem not_agrees_comma : ¬Agrees ['k', '[', 'a', ']', ','] := by
  intro agrees
  have isName : IsName ['k'] := by
    refine ⟨cons_ne_nil _ _, fun char member => ?_⟩
    rw [mem_singleton.mp member]
    rfl
  have replaced : (replaceKeyParamsDyn ['k', '[', 'a', ']', ','] keep).ret = true :=
    (replaced_iff _).mpr (Or.inr ⟨['k'], ['a', ']', ','], isName, rfl, by decide⟩)
  have consumed := agrees.replaced.mp replaced
  simp [Consumes, parseKey, isKeyChar, parseParams] at consumed

end Zabbix.ItemKey.Agreement
