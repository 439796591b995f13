import Zabbix.ItemKey.Grammar

/-!
# Reading parameter lists

On a list of the grammar `parse_key` comes to its end, `num_param` counts its
parameters, and `get_param_len` finds exactly these.
-/

namespace Zabbix.ItemKey.Reading

open Common.Text ParseKey Params Grammar List Option

variable {array : Bool} {ret : Nat} {text rest : Text} {char : Char}

theorem isDelimiter_eq_false (notDelimiter : isDelimiter char = false) :
    char ≠ ',' ∧ char ≠ ']' := by
  simpa [isDelimiter] using notDelimiter

theorem delimiter_of_ends (isEnd : Ends array (char :: rest)) :
    char = ',' ∨ (char = ']' ∧ array = true) := by
  rcases isEnd with empty | isComma | ⟨isArray, isBracket⟩
  · cases empty
  · exact Or.inl (some.inj isComma)
  · exact Or.inr ⟨some.inj isBracket, isArray⟩

theorem skims_numParam (array : Bool) (ret : Nat) :
    Skims (Ends array) (numParamLoop array ret) where
  noBlank _ isEnd := skipBlanks_ends isEnd
  blank rest := by rw [numParamLoop]; simp
  quote rest := by rw [numParamLoop]; simp
  start char rest notBlank notQuote notBracket notDelimiter := by
    obtain ⟨notComma, notClosing⟩ := isDelimiter_eq_false notDelimiter
    rw [numParamLoop]
    simp [notBlank, notQuote, notBracket, notComma, notClosing]
  plain char rest notDelimiter := by
    obtain ⟨notComma, notClosing⟩ := isDelimiter_eq_false notDelimiter
    rw [numParamLoop]
    simp [notComma, notClosing]
  value rest isEnd := by
    cases rest with
    | nil => simp [numParamLoop]
    | cons char later =>
      conv => lhs; rw [numParamLoop]
      rw [if_pos (delimiter_of_ends isEnd)]
  escaped rest := by rw [numParamLoop]; simp
  inside char rest notQuote notEscape := by
    rw [numParamLoop, if_neg notQuote, if_neg notEscape]
  closed rest isEnd := by
    rw [numParamLoop, if_pos rfl]
    dsimp only
    rw [if_neg]
    rintro ⟨notComma, notEnd, notArray⟩
    rcases isEnd with empty | isComma | ⟨isArray, isBracket⟩
    · exact notEnd empty
    · exact notComma isComma
    · rcases notArray with isSingle | notBracket
      · rw [isArray] at isSingle
        cases isSingle
      · exact notBracket isBracket

theorem skimsParams_numParam (ret : Nat) :
    SkimsParams (Ends false) (numParamLoop false ret) (numParamLoop true ret) where
  values := skims_numParam false ret
  elements := skims_numParam true ret
  comma rest := by rw [numParamLoop]; simp
  opened rest := by rw [numParamLoop]; simp
  closed rest isEnd := by
    rw [numParamLoop]
    simp only [Char.reduceEq, if_false, true_and, if_true]
    rw [if_neg]
    rintro ⟨notComma, notEnd⟩
    rcases isEnd with empty | isComma | ⟨isArray, -⟩
    · exact notEnd empty
    · exact notComma isComma
    · cases isArray

theorem numParam_render (params : ParamList) :
    numParam (renderParams params) = params.others.length + 1 := by
  obtain ⟨first, others⟩ := params
  rw [numParam, renderParams, Listed.render]
  suffices counted : ∀ ret, numParamLoop false ret .init
      (first.render ++ others.flatMap fun param => ',' :: param.render) = others.length + ret from
    counted 1
  intro ret
  induction others generalizing first ret with
  | nil =>
    rw [flatMap_nil, skims_param (skimsParams_numParam ret) first ends_nil, numParamLoop]
    simp
  | cons next later ih =>
    rw [flatMap_cons, cons_append,
      skims_param (skimsParams_numParam ret) first ends_comma, numParamLoop]
    simp only [if_true, Bool.false_eq_true, if_false]
    rw [ih next (ret + 1), length_cons]
    omega

/-! ## The end of the key -/

theorem skims_parseParams (array : Bool) : Skims (Ends true) (parseParams array) where
  noBlank _ isEnd := skipBlanks_ends isEnd
  blank rest := by rw [parseParams]; simp
  quote rest := by rw [parseParams]; simp
  start char rest notBlank notQuote notBracket notDelimiter := by
    obtain ⟨notComma, notClosing⟩ := isDelimiter_eq_false notDelimiter
    rw [parseParams]
    simp [notBlank, notQuote, notBracket, notComma, notClosing]
  plain char rest notDelimiter := by
    obtain ⟨notComma, notClosing⟩ := isDelimiter_eq_false notDelimiter
    rw [parseParams]
    simp [notComma, notClosing]
  value rest isEnd := by
    cases rest with
    | nil => simp [parseParams]
    | cons char later =>
      conv => lhs; rw [parseParams]
      split_ifs with isDelimiter isClosing
      · rfl
      · have single : array = false :=
          Bool.eq_false_iff.mpr fun isArray => isDelimiter (Or.inr ⟨isClosing, isArray⟩)
        rw [parseParams]
        simp [isClosing, single]
      · rcases delimiter_of_ends isEnd with isComma | ⟨isBracket, -⟩
        · exact absurd (Or.inl isComma) isDelimiter
        · exact absurd isBracket isClosing
  escaped rest := by rw [parseParams]; simp
  inside char rest notQuote notEscape := by
    rw [parseParams, if_neg notQuote, if_neg notEscape]
  closed rest isEnd := by
    rw [parseParams, if_pos rfl]
    dsimp only
    generalize skipBlanks rest = after at isEnd ⊢
    rcases isEnd with empty | isComma | ⟨-, isBracket⟩
    · subst empty
      simp [parseParams]
    · simp [isComma]
    · cases after with
      | nil => cases isBracket
      | cons char later =>
        obtain rfl := some.inj isBracket
        cases array <;> simp [parseParams]

theorem skimsParams_parseParams :
    SkimsParams (Ends true) (parseParams false) (parseParams true) where
  values := skims_parseParams false
  elements := skims_parseParams true
  comma rest := by rw [parseParams]; simp
  opened rest := by rw [parseParams]; simp
  closed rest isEnd := by
    rw [parseParams]
    simp only [Char.reduceEq, if_false, true_and, if_true]
    generalize skipBlanks rest = after at isEnd ⊢
    rcases isEnd with empty | isComma | ⟨-, isBracket⟩
    · subst empty
      simp [parseParams]
    · cases after with
      | nil => cases isComma
      | cons char later =>
        obtain rfl := some.inj isComma
        simp [parseParams]
    · cases after with
      | nil => cases isBracket
      | cons char later =>
        obtain rfl := some.inj isBracket
        simp [parseParams]

/-- `parse_key` comes to the closing bracket. -/
theorem parseParams_render (params : ParamList) (rest : Text) :
    parseParams false .init (renderParams params ++ ']' :: rest) = (true, rest) := by
  obtain ⟨first, others⟩ := params
  rw [renderParams, Listed.render, append_assoc]
  induction others generalizing first with
  | nil =>
    rw [flatMap_nil, nil_append,
      skims_param skimsParams_parseParams first ends_bracket, parseParams]
    simp
  | cons next later ih =>
    rw [flatMap_cons, append_assoc, cons_append,
      skims_param skimsParams_parseParams first ends_comma, parseParams]
    simp only [if_true]
    exact ih next

/-! ## One parameter -/

variable {Value Value' : Type} {collector : Collector Value} {collector' : Collector Value'}

/-- A map between what two loops collect. -/
structure Maps (collector : Collector Value) (collector' : Collector Value')
    (convert : Value → Value') : Prop where
  note : ∀ type value, convert (collector.note type value) = collector'.note type (convert value)
  assign :
    ∀ char value,
      (collector.assign char value).map convert = collector'.assign char (convert value)

variable {convert : Value → Value'}

theorem maps_see (maps : Maps collector collector' convert) (wanted : Bool)
    (type : RequestParameterType) (value : Value) :
    convert (collector.see wanted type value) = collector'.see wanted type (convert value) := by
  unfold Collector.see
  split_ifs
  · exact maps.note type value
  · rfl

theorem maps_take (maps : Maps collector collector' convert) (wanted : Bool) (char : Char)
    (value : Value) :
    (collector.take wanted char value).map convert =
      collector'.take wanted char (convert value) := by
  unfold Collector.take
  split_ifs
  · exact maps.assign char value
  · rfl

/-- Collecting a character and going on, under a map. -/
theorem maps_bind {taken : Option Value} {taken' : Option Value'} {next : Value → Option Value}
    {next' : Value' → Option Value'} (same : taken.map convert = taken')
    (later : ∀ value, (next value).map convert = next' (convert value)) :
    (taken.bind next).map convert = taken'.bind next' := by
  subst same
  cases taken with
  | none => rfl
  | some value => exact later value

theorem paramLoop_map (maps : Maps collector collector' convert) (num array idx : Nat)
    (value : Value) (state : ParamState) (text : Text) :
    (paramLoop collector num array idx value state text).map convert =
      paramLoop collector' num array idx (convert value) state text := by
  fun_induction paramLoop collector num array idx value state text with
  | case1 array idx value state missing => rw [paramLoop, if_pos missing]; rfl
  | case2 array idx value state complete enough =>
    rw [paramLoop, if_neg complete, if_pos enough]; rfl
  | case3 array idx value state complete few =>
    rw [paramLoop, if_neg complete, if_neg few]; rfl
  | case4 idx value rest last => rw [paramLoop]; simp [last]
  | case5 idx value rest notLast ih => rw [paramLoop]; simp [notLast, ih]
  | case6 array idx value rest wanted isArray ih =>
    rw [paramLoop, if_pos rfl, if_neg isArray]
    exact maps_bind (maps_take maps _ _ _) ih
  | case7 array idx value rest wanted notComma ih =>
    rw [paramLoop, if_neg notComma, if_pos rfl, ← maps_see maps]
    exact maps_bind (maps_take maps _ _ _) ih
  | case8 array idx value rest wanted notComma notQuote ih =>
    rw [paramLoop, if_neg notComma, if_neg notQuote, if_pos rfl, ← maps_see maps]
    exact maps_bind (maps_take maps _ _ _) ih
  | case9 array idx value char rest wanted notComma notQuote notBracket closes array' ih =>
    rw [paramLoop, if_neg notComma, if_neg notQuote, if_neg notBracket, if_pos closes]
    apply maps_bind (maps_take maps _ _ _)
    intro value
    dsimp only
    split_ifs
    · rfl
    · exact ih value
  | case10 array idx value char rest wanted notComma notQuote notBracket notClosing notBlank
      ih =>
      rw [paramLoop, if_neg notComma, if_neg notQuote, if_neg notBracket, if_neg notClosing,
        if_pos notBlank, ← maps_see maps]
      exact maps_bind (maps_take maps _ _ _) ih
  | case11 array idx value char rest notComma notQuote notBracket notClosing isBlank
      ih =>
      rw [paramLoop, if_neg notComma, if_neg notQuote, if_neg notBracket, if_neg notClosing,
        if_neg isBlank]
      exact ih
  | case12 array idx value rest wanted ih =>
    rw [paramLoop, if_pos rfl]
    apply maps_bind (maps_take maps _ _ _)
    intro value
    dsimp only
    split_ifs
    · rfl
    · exact ih value
  | case13 array idx value char rest wanted notQuote isEscape ih =>
    rw [paramLoop, if_neg notQuote, if_pos isEscape]
    exact maps_bind (maps_bind (maps_take maps _ _ _) fun _ => maps_take maps _ _ _) ih
  | case14 array idx value char rest wanted notQuote notEscape ih =>
    rw [paramLoop, if_neg notQuote, if_neg notEscape]
    exact maps_bind (maps_take maps _ _ _) ih
  | case15 array idx value char rest delimits ih =>
    conv => rhs; rw [paramLoop]
    rw [if_pos delimits]
    exact ih
  | case16 array idx value char rest notDelimiter ih =>
    rw [paramLoop, if_neg notDelimiter]
    exact maps_bind (maps_take maps _ _ _) ih

/-- Only whether a parameter is found. -/
def unitCollector : Collector Unit where
  note _ value := value
  assign _ value := some value

theorem maps_unit : Maps lengthCollector unitCollector fun _ => () where
  note _ _ := rfl
  assign _ _ := rfl

@[simp]
theorem take_unit (wanted : Bool) (char : Char) : unitCollector.take wanted char () = some () := by
  cases wanted <;> rfl

@[simp]
theorem see_unit (wanted : Bool) (type : RequestParameterType) :
    unitCollector.see wanted type () = () :=
  rfl

@[simp]
theorem take_false (collector : Collector Value) (char : Char) (value : Value) :
    collector.take false char value = some value :=
  rfl

/-- The loop takes nothing of a parameter that is not requested. -/
structure Idle (collector : Collector Value) (num idx : Nat) (value : Value) : Prop where
  take : ∀ char, collector.take (idx == num) char value = some value
  see : ∀ type, collector.see (idx == num) type value = value

variable {num idx : Nat} {value : Value}

theorem idle_unit (num idx : Nat) : Idle unitCollector num idx () where
  take _ := take_unit _ _
  see _ := see_unit _ _

theorem idle_of_ne (collector : Collector Value) (value : Value) (isOther : idx ≠ num) :
    Idle collector num idx value where
  take char := by rw [Collector.take, beq_false_of_ne isOther]; rfl
  see type := by rw [Collector.see, beq_false_of_ne isOther]; rfl

theorem idle_take (idle : Idle collector num idx value) (inArray : Bool) (char : Char) :
    collector.take ((idx == num) && inArray) char value = some value := by
  cases inArray with
  | true => rw [Bool.and_true]; exact idle.take char
  | false => rw [Bool.and_false]; rfl

theorem paramLoop_value {array : Nat} (isEnd : Ends (array != 0) rest) :
    paramLoop collector num array idx value .unquoted rest =
      paramLoop collector num array idx value .init rest := by
  cases rest with
  | nil => simp [paramLoop]
  | cons char later =>
    have delimits := delimiter_of_ends isEnd
    rw [bne_iff_ne] at delimits
    conv => lhs; rw [paramLoop]
    rw [if_pos delimits]

theorem paramLoop_closed {array : Nat} (isEnd : Ends (array != 0) (skipBlanks rest)) :
    paramLoop collector num array idx value .quoted ('"' :: rest) =
      (collector.take ((idx == num) && array != 0) '"' value).bind fun value =>
        paramLoop collector num array idx value .init (skipBlanks rest) := by
  rw [paramLoop, if_pos rfl]
  apply Option.bind_congr
  intro value _
  dsimp only
  rw [if_neg]
  rintro ⟨notComma, notEnd, notArray⟩
  rcases isEnd with empty | isComma | ⟨isArray, isBracket⟩
  · exact notEnd empty
  · exact notComma isComma
  · rcases notArray with isSingle | notBracket
    · rw [isSingle] at isArray
      cases isArray
    · exact notBracket isBracket

/-- The bracket that closes an array is not taken. -/
theorem paramLoop_bracket (isEnd : Ends false (skipBlanks rest)) :
    paramLoop collector num 1 idx value .init (']' :: rest) =
      paramLoop collector num 0 idx value .init (skipBlanks rest) := by
  rw [paramLoop]
  simp only [Char.reduceEq, if_false, ne_eq, Nat.one_ne_zero, not_false_eq_true, and_self, if_true,
    Nat.sub_self, bne_self_eq_false, Bool.and_false, take_false, bind_some]
  rw [if_neg]
  rintro ⟨notComma, notEnd, -⟩
  rcases isEnd with empty | isComma | ⟨isArray, -⟩
  · exact notEnd empty
  · exact notComma isComma
  · cases isArray

theorem skims_paramLoop (idle : Idle collector num idx value) (array : Nat) :
    Skims (Ends (array != 0)) (paramLoop collector num array idx value) where
  noBlank _ isEnd := skipBlanks_ends isEnd
  blank rest := by rw [paramLoop]; simp
  quote rest := by rw [paramLoop]; simp [idle.see, idle_take idle]
  start char rest notBlank notQuote notBracket notDelimiter := by
    obtain ⟨notComma, notClosing⟩ := isDelimiter_eq_false notDelimiter
    rw [paramLoop]
    simp [notBlank, notQuote, notBracket, notComma, notClosing, idle.see, idle.take]
  plain char rest notDelimiter := by
    obtain ⟨notComma, notClosing⟩ := isDelimiter_eq_false notDelimiter
    rw [paramLoop]
    simp [notComma, notClosing, idle.take]
  value _ isEnd := paramLoop_value isEnd
  escaped rest := by rw [paramLoop]; simp [idle_take idle, idle.take]
  inside char rest notQuote notEscape := by
    rw [paramLoop, if_neg notQuote, if_neg notEscape]
    simp [idle.take]
  closed rest isEnd := by rw [paramLoop_closed isEnd, idle_take idle, bind_some]

theorem skimsParams_paramLoop (idle : Idle collector num idx value) :
    SkimsParams (Ends false) (paramLoop collector num 0 idx value)
      (paramLoop collector num 1 idx value) where
  values := skims_paramLoop idle 0
  elements := skims_paramLoop idle 1
  comma rest := by rw [paramLoop]; simp [idle.take]
  opened rest := by rw [paramLoop]; simp [idle.see]
  closed _ isEnd := paramLoop_bracket isEnd

def findLoop (num array idx : Nat) (state : ParamState) (text : Text) : Option Unit :=
  paramLoop unitCollector num array idx () state text

theorem skimsParams_findLoop (num idx : Nat) :
    SkimsParams (Ends false) (findLoop num 0 idx) (findLoop num 1 idx) :=
  skimsParams_paramLoop (idle_unit num idx)

theorem findLoop_render (params : ParamList) (num idx : Nat) (few : idx ≤ num) :
    (findLoop num 0 idx .init (renderParams params)).isSome ↔ num ≤ idx + params.others.length := by
  obtain ⟨first, others⟩ := params
  rw [renderParams, Listed.render]
  induction others generalizing first idx with
  | nil =>
    rw [flatMap_nil, skims_param (skimsParams_findLoop num idx) first ends_nil, findLoop, paramLoop]
    simp
  | cons next later ih =>
    rw [flatMap_cons, cons_append,
      skims_param (skimsParams_findLoop num idx) first ends_comma, findLoop, paramLoop]
    simp only [if_true]
    split_ifs with last
    · simp only [isSome_some, true_iff]
      omega
    · have found := ih (idx + 1) (by omega) next
      rw [findLoop] at found
      rw [found, length_cons]
      dsimp only
      omega

theorem getParamLen_render (params : ParamList) {num : Nat} (positive : 1 ≤ num) :
    (getParamLen (renderParams params) num).isSome ↔ num ≤ numParam (renderParams params) := by
  have same := paramLoop_map maps_unit num 0 1 0 .init (renderParams params)
  have found := findLoop_render params num 1 positive
  rw [findLoop, ← same, isSome_map] at found
  rw [getParamLen, if_pos positive, numParam_render, found, Nat.add_comm]

/-! ## Room for a parameter -/

/-- What `get_param` has copied. -/
abbrev Buffer := Text × RequestParameterType

/--
Counting from `size` on comes to `total`, so that copying to a buffer with `size`
characters in it fills `total` of them, if there is room.
-/
def CopiesAs (maxLen total size : Nat) (measured : Option Nat) (copy : Buffer → Option Buffer) :
    Prop :=
  measured = some total →
    size ≤ total ∧
      ∀ buffer : Buffer, buffer.1.length = size → total ≤ maxLen →
        ∃ copied, copy buffer = some copied ∧ copied.1.length = total

variable {maxLen total size : Nat} {next : Nat → Option Nat} {next' : Buffer → Option Buffer}

theorem copies_take (wanted : Bool) (char : Char)
    (later : ∀ size, CopiesAs maxLen total size (next size) next') :
    CopiesAs maxLen total size ((lengthCollector.take wanted char size).bind next)
      fun buffer => ((copyCollector maxLen).take wanted char buffer).bind next' := by
  cases wanted with
  | false => exact later size
  | true =>
    intro measured
    obtain ⟨grown, copies⟩ := later (size + 1) measured
    refine ⟨by omega, fun buffer isSize room => ?_⟩
    have free : ¬buffer.1.length = maxLen := by omega
    obtain ⟨copied, isCopied, isTotal⟩ := copies (buffer.1 ++ [char], buffer.2)
      (by rw [length_append, isSize]; rfl) room
    refine ⟨copied, ?_, isTotal⟩
    change (if buffer.1.length = maxLen then none else some (buffer.1 ++ [char], buffer.2)).bind
      next' = some copied
    rw [if_neg free]
    exact isCopied

/-- The type makes no difference for the room. -/
theorem copies_see (wanted : Bool) (type : RequestParameterType)
    (later : ∀ size, CopiesAs maxLen total size (next size) next') :
    CopiesAs maxLen total size (next (lengthCollector.see wanted type size))
      fun buffer => next' ((copyCollector maxLen).see wanted type buffer) := by
  cases wanted with
  | false => exact later size
  | true =>
    intro measured
    obtain ⟨grown, copies⟩ := later size measured
    exact ⟨grown, fun buffer isSize room => copies _ isSize room⟩

theorem copies_congr {measured : Option Nat} {copy : Buffer → Option Buffer}
    (copies : CopiesAs maxLen total size measured next')
    (same : ∀ buffer, copy buffer = next' buffer) : CopiesAs maxLen total size measured copy := by
  intro isMeasured
  obtain ⟨grown, copies⟩ := copies isMeasured
  refine ⟨grown, fun buffer isSize room => ?_⟩
  rw [same]
  exact copies buffer isSize room

/-- A syntax error is one in both. -/
theorem copies_ite {wrong : Prop} [Decidable wrong] {measured : Option Nat}
    (copies : CopiesAs maxLen total size measured next') :
    CopiesAs maxLen total size (if wrong then none else measured)
      fun buffer => if wrong then none else next' buffer := by
  split_ifs
  · exact nofun
  · exact copies

theorem paramLoop_copies (maxLen total num array idx size : Nat) (state : ParamState)
    (text : Text) :
    CopiesAs maxLen total size (paramLoop lengthCollector num array idx size state text)
      fun buffer => paramLoop (copyCollector maxLen) num array idx buffer state text := by
  fun_induction paramLoop lengthCollector num array idx size state text with
  | case1 array idx size state missing => exact nofun
  | case2 array idx size state complete enough =>
    intro measured
    obtain rfl := some.inj measured
    refine ⟨Nat.le_refl _, fun buffer isSize _ => ⟨buffer, ?_, isSize⟩⟩
    dsimp only
    rw [paramLoop, if_neg complete, if_pos enough]
  | case3 array idx size state complete few => exact nofun
  | case4 idx size rest last =>
    intro measured
    obtain rfl := some.inj measured
    refine ⟨Nat.le_refl _, fun buffer isSize _ => ⟨buffer, ?_, isSize⟩⟩
    dsimp only
    rw [paramLoop]
    simp [last]
  | case5 idx size rest notLast ih =>
    apply copies_congr ih
    intro buffer
    rw [paramLoop]
    simp [notLast]
  | case6 array idx size rest wanted isArray ih =>
    apply copies_congr (copies_take wanted ',' ih)
    intro buffer
    rw [paramLoop, if_pos rfl, if_neg isArray]
  | case7 array idx size rest wanted notComma ih =>
    apply copies_congr (copies_see wanted .string fun size =>
      copies_take (wanted && array != 0) '"' ih)
    intro buffer
    rw [paramLoop, if_neg notComma, if_pos rfl]
  | case8 array idx size rest wanted notComma notQuote ih =>
    apply copies_congr (copies_see wanted .array fun size =>
      copies_take (wanted && array != 0) '[' ih)
    intro buffer
    rw [paramLoop, if_neg notComma, if_neg notQuote, if_pos rfl]
  | case9 array idx size char rest wanted notComma notQuote notBracket closes array' ih =>
    apply copies_congr (copies_take (wanted && array' != 0) char fun size =>
      copies_ite (ih size))
    intro buffer
    rw [paramLoop, if_neg notComma, if_neg notQuote, if_neg notBracket, if_pos closes]
  | case10 array idx size char rest wanted notComma notQuote notBracket notClosing notBlank
      ih =>
      apply copies_congr (copies_see wanted .string fun size => copies_take wanted char ih)
      intro buffer
      rw [paramLoop, if_neg notComma, if_neg notQuote, if_neg notBracket, if_neg notClosing,
        if_pos notBlank]
  | case11 array idx size char rest notComma notQuote notBracket notClosing isBlank
      ih =>
      apply copies_congr ih
      intro buffer
      rw [paramLoop, if_neg notComma, if_neg notQuote, if_neg notBracket, if_neg notClosing,
        if_neg isBlank]
  | case12 array idx size rest wanted ih =>
    apply copies_congr (copies_take (wanted && array != 0) '"' fun size =>
      copies_ite (ih size))
    intro buffer
    rw [paramLoop, if_pos rfl]
  | case13 array idx size char rest wanted notQuote isEscape ih =>
    rw [bind_assoc]
    apply copies_congr (copies_take (wanted && array != 0) char fun size =>
      copies_take wanted '"' ih)
    intro buffer
    rw [paramLoop, if_neg notQuote, if_pos isEscape, bind_assoc]
  | case14 array idx size char rest wanted notQuote notEscape ih =>
    apply copies_congr (copies_take wanted char ih)
    intro buffer
    rw [paramLoop, if_neg notQuote, if_neg notEscape]
  | case15 array idx size char rest delimits ih =>
    apply copies_congr ih
    intro buffer
    conv => lhs; rw [paramLoop]
    rw [if_pos delimits]
  | case16 array idx size char rest notDelimiter ih =>
    apply copies_congr (copies_take (idx == num) char ih)
    intro buffer
    rw [paramLoop, if_neg notDelimiter]

theorem getParam_of_getParamLen {params : Text} {num size maxLen : Nat}
    (measured : getParamLen params num = some size) (room : size < maxLen) :
    ∃ param, getParam params num maxLen = some param ∧ param.1.length = size := by
  unfold getParamLen at measured
  unfold getParam
  rw [if_neg (by omega)]
  split_ifs at measured ⊢ with isParam
  · obtain ⟨-, copies⟩ := paramLoop_copies (maxLen - 1) size num 0 1 0 .init params measured
    exact copies ([], .undefined) rfl (by omega)
  · obtain rfl := some.inj measured
    exact ⟨_, rfl, rfl⟩

theorem getParamDyn_isSome (params : Text) (num : Nat) :
    (getParamDyn params num).isSome ↔ (getParamLen params num).isSome := by
  unfold getParamDyn
  cases measured : getParamLen params num with
  | none => rfl
  | some size =>
    obtain ⟨param, isParam, -⟩ := getParam_of_getParamLen measured (Nat.lt_succ_self size)
    simp [isParam]

end Zabbix.ItemKey.Reading
