import Zabbix.ItemKey.Tail

/-!
# The calls for a key

On a key of the grammar `replace_key_params_dyn` calls the callback for the key,
for every value that is a parameter and for every value in an array.  An array as
a whole is not passed to the callback.
-/

namespace Zabbix.ItemKey.Calls

open Common.Text ParseKey Replace Grammar Reading Tail List

def Element.call (level : Int) (num : Nat) (element : Element) : Call :=
  ⟨element.content.text, level, num, element.content.isQuoted⟩

def Param.calls (num : Nat) : Param → List Call
  | .single element => [Element.call 1 num element]
  | .array _ elements _ => elements.toList.map (Element.call 2 num)

/-- The calls for the parameters, which are numbered from `num` on. -/
def paramCalls : Nat → List Param → List Call
  | _, [] => []
  | num, param :: later => Param.calls num param ++ paramCalls (num + 1) later

/-- An item key of the grammar: a name, and the parameters if there are any. -/
structure Key where
  name : Text
  params : Option ParamList
  notEmpty : name ≠ []
  keyChars : ∀ char ∈ name, isKeyChar char = true

def Key.render (key : Key) : Text :=
  match key.params with
  | none => key.name
  | some params => key.name ++ '[' :: renderParams params ++ [']']

def Key.calls (key : Key) : List Call :=
  ⟨key.name, 0, 0, false⟩ ::
    match key.params with
    | none => []
    | some params => paramCalls 1 params.toList

variable {text rest body done : Text} {char : Char} {level : Int} {num : Nat}
  {calls : List Call}

/-! ## One value -/

theorem replaceLoop_blanks {cb : ReplaceKeyParam} (state : ParserState)
    (isBetween : state = .new ∨ state = .ended) (count : Nat) (rest : Text) :
    replaceLoop cb ⟨done, level, num, calls⟩ state (blanks count ++ rest) =
      replaceLoop cb ⟨done ++ blanks count, level, num, calls⟩ state rest := by
  induction count generalizing done with
  | zero => simp [blanks]
  | succ count ih =>
    have passed : replaceLoop cb ⟨done, level, num, calls⟩ state (' ' :: (blanks count ++ rest)) =
        replaceLoop cb ⟨done ++ [' '], level, num, calls⟩ state (blanks count ++ rest) := by
      rcases isBetween with rfl | rfl
      · rw [replaceLoop]
        rfl
      · rw [replaceLoop]
        rfl
    rw [blanks, replicate_succ, cons_append]
    exact passed.trans (by rw [ih, blanks, append_assoc]; rfl)

theorem replaceLoop_plain {cb : ReplaceKeyParam} (l : Nat)
    (plain : ∀ char ∈ text, isDelimiter char = false) (rest : Text) :
    replaceLoop cb ⟨done, level, num, calls⟩ (.unquoted l) (text ++ rest) =
      replaceLoop cb ⟨done ++ text, level, num, calls⟩ (.unquoted l) rest := by
  induction text generalizing done with
  | nil => simp
  | cons char later ih =>
    obtain ⟨notComma, notClosing⟩ := isDelimiter_eq_false (plain char (mem_cons_self ..))
    rw [cons_append, replaceLoop, if_neg (by simp [notComma, notClosing])]
    exact (ih fun other member => plain other (mem_cons_of_mem _ member)).trans
      (by rw [append_assoc]; rfl)

theorem replaceLoop_body {cb : ReplaceKeyParam} (l : Nat) (isBody : QuotedBody body)
    (rest : Text) :
    replaceLoop cb ⟨done, level, num, calls⟩ (.quoted l) (body ++ '"' :: rest) =
      replaceLoop cb ⟨done ++ body, level, num, calls⟩ (.quoted l) ('"' :: rest) := by
  fun_induction QuotedBody body generalizing done with
  | case1 => simp
  | case2 later ih =>
    rw [cons_append, cons_append, replaceLoop, if_neg (by simp), replaceLoop,
      if_neg (by simp [Progress.advance])]
    exact (ih isBody).trans (by simp)
  | case3 => exact isBody.elim
  | case4 => exact isBody.elim
  | case5 char later notEscaped notLast notQuote ih =>
    rw [cons_append, replaceLoop, if_neg fun closes => notQuote closes.1]
    exact (ih isBody).trans (by simp)

theorem getLast?_body (isBody : QuotedBody body) : body.getLast? ≠ some '\\' := by
  fun_induction QuotedBody body with
  | case1 => simp
  | case2 later ih =>
    cases later with
    | nil => simp
    | cons next after => simpa using ih isBody
  | case3 => exact isBody.elim
  | case4 => exact isBody.elim
  | case5 char later notEscaped notLast notQuote ih =>
    cases later with
    | nil => simpa using fun same => notLast same rfl
    | cons next after => simpa using ih isBody

/-- After a comma or a closing bracket. -/
def passed (progress : Progress) : Char → Progress
  | ',' => progress.nextNum.advance ','
  | char => { progress with level := progress.level - 1 }.advance char

def stateAfter : Char → ParserState
  | ',' => .new
  | _ => .ended

theorem replaceLoop_ended {cb : ReplaceKeyParam} {progress : Progress} (opened : progress.level ≠ 0)
    (isEnd : char = ',' ∨ char = ']') (rest : Text) :
    replaceLoop cb progress .ended (char :: rest) =
      replaceLoop cb (passed progress char) (stateAfter char) rest := by
  rcases isEnd with rfl | rfl
  · rw [replaceLoop]
    simp [passed, stateAfter]
  · rw [replaceLoop]
    simp [passed, stateAfter, opened]

theorem replaceKeyParam_split (cb : ReplaceKeyParam) (start text : Text) (quoted : Bool) :
    replaceKeyParam cb ⟨start ++ text, level, num, calls⟩ start.length quoted =
      ((cb ⟨text, level, num, quoted⟩).1,
        ⟨start ++ (cb ⟨text, level, num, quoted⟩).2.getD text, level, num,
          calls ++ [⟨text, level, num, quoted⟩]⟩) := by
  simp only [replaceKeyParam, drop_left]
  cases (cb ⟨text, level, num, quoted⟩).2 with
  | none => rfl
  | some param => simp

/-- On the way to the end of a value the callback is called for it. -/
theorem replaceLoop_value {cb : ReplaceKeyParam} (opened : level ≠ 0) (element : Element)
    (isEnd : char = ',' ∨ char = ']') (rest : Text) :
    ((cb (Element.call level num element)).1 = false →
      (replaceLoop cb ⟨done, level, num, calls⟩ .new (element.render ++ char :: rest)).ret =
        false) ∧
    ((cb (Element.call level num element)).1 = true →
      replaceLoop cb ⟨done, level, num, calls⟩ .new (element.render ++ char :: rest) =
        replaceLoop cb
          (passed ⟨done ++ (blanks element.before ++
            (cb (Element.call level num element)).2.getD element.content.text ++
              blanks element.content.after), level, num,
            calls ++ [Element.call level num element]⟩ char)
          (stateAfter char) rest) := by
  obtain ⟨before, content, valid⟩ := element
  rw [Element.render, append_assoc, append_assoc, replaceLoop_blanks .new (.inl rfl)]
  have called (text : Text) (quoted : Bool) :=
    @replaceKeyParam_split level num calls cb (done ++ blanks before) text quoted
  cases content with
  | empty =>
    have isEmpty := called [] false
    rw [append_nil] at isEmpty
    simp only [Content.text, Content.after, blanks, replicate_zero, nil_append, append_nil,
      Element.call, Content.isQuoted, ← append_assoc]
    rcases isEnd with rfl | rfl
    · rw [replaceLoop]
      simp only [Char.reduceEq, if_false, if_true]
      rw [show replicate before ' ' = blanks before from rfl, isEmpty]
      constructor <;> intro isRet <;> simp [isRet, passed, stateAfter, Progress.nextNum]
    · rw [replaceLoop]
      simp only [Char.reduceEq, if_false, if_true]
      rw [show replicate before ' ' = blanks before from rfl, isEmpty]
      constructor <;> intro isRet <;> simp [isRet, passed, stateAfter]
  | unquoted first later =>
    obtain ⟨notBlank, notQuote, notBracket, notDelimiter, plain⟩ := valid
    obtain ⟨notComma, notClosing⟩ := isDelimiter_eq_false notDelimiter
    have read : replaceLoop cb ⟨done ++ blanks before, level, num, calls⟩ .new
          (first :: (later ++ char :: rest)) =
        replaceLoop cb ⟨done ++ blanks before ++ first :: later, level, num, calls⟩
          (.unquoted (done ++ blanks before).length) (char :: rest) := by
      rw [replaceLoop, if_neg notBlank, if_neg notComma, if_neg notBracket, if_neg notClosing,
        if_neg notQuote]
      exact (replaceLoop_plain _ plain _).trans (by rw [append_assoc]; rfl)
    have isText : (Content.unquoted first later).text ++ (blanks 0 ++ char :: rest) =
        first :: (later ++ char :: rest) := rfl
    dsimp only [Content.after]
    rw [isText, read, replaceLoop, if_pos isEnd.symm, called]
    constructor <;> intro isRet
    · simp only [show (cb ⟨first :: later, level, num, false⟩).1 = false from isRet,
        Bool.false_eq_true, if_false]
    · simp only [show (cb ⟨first :: later, level, num, false⟩).1 = true from isRet, if_true]
      rw [replaceLoop_ended opened isEnd]
      simp [Element.call, Content.text, Content.isQuoted, blanks]
  | quoted body after =>
    have notEscaped : (done ++ blanks before ++ ['"'] ++ body).getLast? ≠ some '\\' := by
      cases body with
      | nil => simp
      | cons first later => simpa using getLast?_body valid
    have read : replaceLoop cb ⟨done ++ blanks before, level, num, calls⟩ .new
          ('"' :: (body ++ '"' :: (blanks after ++ char :: rest))) =
        replaceLoop cb ⟨done ++ blanks before ++ ['"'] ++ body, level, num, calls⟩
          (.quoted (done ++ blanks before).length) ('"' :: (blanks after ++ char :: rest)) := by
      rw [replaceLoop]
      simp only [Char.reduceEq, if_false, if_true]
      exact replaceLoop_body _ valid _
    have isText : (Content.quoted body after).text ++ (blanks after ++ char :: rest) =
        '"' :: (body ++ '"' :: (blanks after ++ char :: rest)) := by
      simp [Content.text]
    have whole : done ++ blanks before ++ ['"'] ++ body ++ ['"'] =
        done ++ blanks before ++ ('"' :: body ++ ['"']) := by simp
    dsimp only [Content.after]
    rw [isText, read, replaceLoop, if_pos ⟨rfl, notEscaped⟩]
    dsimp only [Progress.advance]
    rw [whole, called]
    constructor <;> intro isRet
    · simp only [show (cb ⟨'"' :: body ++ ['"'], level, num, true⟩).1 = false from isRet,
        Bool.false_eq_true, if_false]
    · simp only [show (cb ⟨'"' :: body ++ ['"'], level, num, true⟩).1 = true from isRet, if_true]
      rw [replaceLoop_blanks .ended (.inr rfl), replaceLoop_ended opened isEnd]
      simp [Element.call, Content.text, Content.isQuoted]

theorem replaceLoop_element (opened : level ≠ 0) (element : Element)
    (isEnd : char = ',' ∨ char = ']') (rest : Text) :
    replaceLoop keep ⟨done, level, num, calls⟩ .new (element.render ++ char :: rest) =
      replaceLoop keep
        (passed ⟨done ++ element.render, level, num, calls ++ [Element.call level num element]⟩ char)
        (stateAfter char) rest := by
  rw [(replaceLoop_value opened element isEnd rest).2 rfl]
  rfl

/-! ## Parameters -/

/-- A comma in an array does not count. -/
theorem passed_element :
    passed ⟨done, 2, num, calls⟩ ',' = ⟨done ++ [','], 2, num, calls⟩ :=
  rfl

theorem passed_param :
    passed ⟨done, 1, num, calls⟩ ',' = ⟨done ++ [','], 1, num + 1, calls⟩ :=
  rfl

/-- The values of an array. -/
theorem replaceLoop_elements (elements : Listed Element) (rest : Text) :
    replaceLoop keep ⟨done, 2, num, calls⟩ .new (elements.render Element.render ++ ']' :: rest) =
      replaceLoop keep
        ⟨done ++ elements.render Element.render ++ [']'], 1, num,
          calls ++ elements.toList.map (Element.call 2 num)⟩ .ended rest := by
  obtain ⟨first, others⟩ := elements
  rw [Listed.render, Listed.toList]
  induction others generalizing first done calls with
  | nil =>
    rw [flatMap_nil, append_nil, replaceLoop_element (by decide) first (Or.inr rfl)]
    rfl
  | cons next later ih =>
    rw [flatMap_cons, append_assoc, cons_append, cons_append,
      replaceLoop_element (by decide) first (Or.inl rfl), passed_element, stateAfter]
    exact (ih next).trans (by simp)

theorem replaceLoop_param (param : Param) (isEnd : char = ',' ∨ char = ']') (rest : Text) :
    replaceLoop keep ⟨done, 1, num, calls⟩ .new (param.render ++ char :: rest) =
      replaceLoop keep
        (passed ⟨done ++ param.render, 1, num, calls ++ Param.calls num param⟩ char)
        (stateAfter char) rest := by
  cases param with
  | single element => exact replaceLoop_element (by decide) element isEnd rest
  | array before elements after =>
    rw [Param.render, append_assoc, append_assoc, replaceLoop_blanks .new (Or.inl rfl)]
    change replaceLoop keep _ .new
      ('[' :: (elements.render Element.render ++ ']' :: (blanks after ++ char :: rest))) = _
    rw [replaceLoop]
    simp only [Char.reduceEq, if_false, if_true, Int.reduceEq]
    change replaceLoop keep ⟨done ++ blanks before ++ ['['], 2, num, calls⟩ .new _ = _
    rw [replaceLoop_elements, replaceLoop_blanks .ended (Or.inr rfl),
      replaceLoop_ended (by simp) isEnd]
    simp [Param.calls]

theorem replaceLoop_params (params : ParamList) (rest : Text) :
    replaceLoop keep ⟨done, 1, num, calls⟩ .new (renderParams params ++ ']' :: rest) =
      replaceLoop keep
        ⟨done ++ renderParams params ++ [']'], 0, num + params.others.length,
          calls ++ paramCalls num params.toList⟩ .ended rest := by
  obtain ⟨first, others⟩ := params
  rw [renderParams, Listed.render, Listed.toList]
  induction others generalizing first done num calls with
  | nil =>
    rw [flatMap_nil, append_nil, replaceLoop_param first (Or.inr rfl)]
    simp [paramCalls, passed, stateAfter, Progress.advance]
  | cons next later ih =>
    rw [flatMap_cons, append_assoc, cons_append, cons_append,
      replaceLoop_param first (Or.inl rfl), passed_param, stateAfter]
    exact (ih next).trans (by simp [paramCalls, Nat.add_comm, Nat.add_left_comm])

/-! ## The key -/

theorem takeWhile_name (keyChars : ∀ char ∈ text, isKeyChar char = true)
    (isEnd : rest = [] ∨ rest.head? = some '[') : (text ++ rest).takeWhile isKeyChar = text := by
  rw [takeWhile_append_of_pos keyChars]
  rcases isEnd with rfl | isBracket
  · simp
  · obtain ⟨later, rfl⟩ := head?_eq_some_iff.mp isBracket
    rw [takeWhile_cons_of_neg (by decide), append_nil]

theorem dropWhile_name (keyChars : ∀ char ∈ text, isKeyChar char = true)
    (isEnd : rest = [] ∨ rest.head? = some '[') : (text ++ rest).dropWhile isKeyChar = rest := by
  rw [dropWhile_append_of_pos keyChars]
  rcases isEnd with rfl | isBracket
  · rfl
  · obtain ⟨later, rfl⟩ := head?_eq_some_iff.mp isBracket
    rw [dropWhile_cons_of_neg (by decide)]

/-- What follows the name in a key. -/
def Key.suffix (key : Key) : Text :=
  match key.params with
  | none => []
  | some params => '[' :: renderParams params ++ [']']

theorem render_eq (key : Key) : key.render = key.name ++ key.suffix := by
  unfold Key.render Key.suffix
  cases key.params with
  | none => simp
  | some params => simp

theorem suffix_isEnd (key : Key) : key.suffix = [] ∨ key.suffix.head? = some '[' := by
  unfold Key.suffix
  cases key.params with
  | none => exact Or.inl rfl
  | some params => exact Or.inr rfl

/-- After the name the loop begins, with one call made. -/
theorem replaceKeyParamsDyn_kept {cb : ReplaceKeyParam} {name rest : Text}
    (kept : cb ⟨name, 0, 0, false⟩ = (true, none)) (notEmpty : name ≠ [])
    (keyChars : ∀ char ∈ name, isKeyChar char = true) (isEnd : rest = [] ∨ rest.head? = some '[') :
    replaceKeyParamsDyn (name ++ rest) cb =
      clean (replaceLoop cb ⟨name, 0, 0, [⟨name, 0, 0, false⟩]⟩ .new rest) := by
  have isKey : ¬(name = [] ∨ rest ≠ [] ∧ rest.head? ≠ some '[') := by
    rcases isEnd with none | isBracket
    · simp [none, notEmpty]
    · simp [isBracket, notEmpty]
  unfold replaceKeyParamsDyn
  simp only [takeWhile_name keyChars isEnd, dropWhile_name keyChars isEnd]
  rw [if_neg isKey]
  simp only [replaceKeyParam, drop_zero, kept]
  rfl

theorem replaceKeyParamsDyn_name {name rest : Text} (notEmpty : name ≠ [])
    (keyChars : ∀ char ∈ name, isKeyChar char = true) (isEnd : rest = [] ∨ rest.head? = some '[') :
    replaceKeyParamsDyn (name ++ rest) keep =
      clean (replaceLoop keep ⟨name, 0, 0, [⟨name, 0, 0, false⟩]⟩ .new rest) :=
  replaceKeyParamsDyn_kept rfl notEmpty keyChars isEnd

theorem calls_render (key : Key) : (replaceKeyParamsDyn key.render keep).calls = key.calls := by
  rw [render_eq, replaceKeyParamsDyn_name key.notEmpty key.keyChars (suffix_isEnd key)]
  unfold Key.calls Key.suffix clean
  cases key.params with
  | none => simp [replaceLoop]
  | some params =>
    simp only [cons_append]
    rw [replaceLoop]
    simp only [Char.reduceEq, if_false, if_true, Int.reduceEq]
    change (replaceLoop keep ⟨key.name ++ ['['], 1, 1, _⟩ .new _).progress.calls = _
    rw [replaceLoop_params, replaceLoop]
    rfl

end Zabbix.ItemKey.Calls
