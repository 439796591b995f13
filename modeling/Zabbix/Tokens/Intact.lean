import Zabbix.Tokens.PlainText

/-!
# Formulas without macros

The expansion of user macros takes a formula apart and puts it together again.  It stops without
the rest at a name that is no function, and then what it returns is not the formula.
-/

namespace Zabbix.Tokens.Intact

open Common.Text Common.MacroContext Common.FunctionParams Common.WrittenParams Find List Option
open Tokens.Expression
open Calcitem PlainText

/-! ## Parameters -/

section

variable {written : WrittenParam} {after : Text}

theorem noMacro_param (noMacro : NoMacro written.body) : NoMacro written.param := by
  rw [WrittenParam.body] at noMacro
  split_ifs at noMacro
  · have isPart : ['"'] ++ (escapeQuotes written.param ++ ['"']) =
        '"' :: (escapeQuotes written.param ++ ['"']) := rfl
    rw [← isPart] at noMacro
    exact noMacro_of_escape (noMacro_part noMacro)
  · exact noMacro

theorem expandParamsLoop_cons (dcGetUserMacro : Resolver) (turns : Nat)
    (written : WrittenParam) (after : Text) (nonempty : written.text ++ after ≠ []) (separated : IsSeparated after)
    (noMacro : NoMacro (written.text ++ after)) :
    expandParamsLoop dcGetUserMacro (turns + 1) (written.text ++ after) =
      written.body ++ ((if after.head? = some ',' then [','] else []) ++
        expandParamsLoop dcGetUserMacro turns (after.drop 1)) := by
  have isText : written.text ++ after =
      blanks written.leading ++ (written.body ++ (blanks written.trailing ++ after)) := by
    rw [WrittenParam.text, append_assoc, append_assoc]
  have isBody : (written.text ++ after).drop written.leading =
      written.body ++ (blanks written.trailing ++ after) := by
    rw [isText, drop_blanks]
  have isExpanded : dcExpandUserMacros written.param dcGetUserMacro = written.param := by
    rw [isText] at noMacro
    exact dcExpandUserMacros_noMacro (noMacro_param (noMacro_part noMacro)) dcGetUserMacro
  rw [expandParamsLoop, if_neg nonempty, parse_text separated]
  simp only [isBody, unquote_body, isExpanded, quote_param, getD_some, drop_left,
    drop_length_add_append]

theorem text_eq_nil (isEmpty : written.text = []) : written.body = [] := by
  rw [WrittenParam.text, append_eq_nil_iff, append_eq_nil_iff] at isEmpty
  exact isEmpty.2.1

theorem expandParamsLoop_list (dcGetUserMacro : Resolver) (params : List WrittenParam)
    {turns : Nat} (enough : (listText params).length ≤ turns)
    (noMacro : NoMacro (listText params)) :
    expandParamsLoop dcGetUserMacro turns (listText params) =
      listText (params.map WrittenParam.withoutBlanks) := by
  have atEnd (turns : Nat) : expandParamsLoop dcGetUserMacro turns [] = [] := by
    cases turns <;> rfl
  induction params generalizing turns with
  | nil => exact atEnd turns
  | cons written others ih =>
    cases others with
    | nil =>
      have isText : listText [written] = written.text := rfl
      have isResult : listText ([written].map WrittenParam.withoutBlanks) = written.body :=
        withoutBlanks_text written
      rw [isText] at enough noMacro ⊢
      rw [isResult]
      by_cases isEmpty : written.text = []
      · rw [text_eq_nil isEmpty, isEmpty, atEnd]
      · obtain ⟨turns, rfl⟩ : ∃ less, turns = less + 1 :=
          ⟨turns - 1, by have := length_pos_of_ne_nil isEmpty; omega⟩
        rw [← append_nil written.text] at isEmpty noMacro ⊢
        rw [expandParamsLoop_cons dcGetUserMacro turns written [] isEmpty nofun noMacro,
          drop_nil, atEnd]
        exact append_nil _
    | cons next others =>
      have isText : listText (written :: next :: others) =
          written.text ++ ',' :: listText (next :: others) := rfl
      have isResult : listText ((written :: next :: others).map WrittenParam.withoutBlanks) =
          written.body ++ ',' :: listText ((next :: others).map WrittenParam.withoutBlanks) :=
        congrArg (· ++ _) (withoutBlanks_text written)
      rw [isText] at enough noMacro ⊢
      rw [length_append, length_cons] at enough
      obtain ⟨turns, rfl⟩ : ∃ less, turns = less + 1 := ⟨turns - 1, by omega⟩
      have separated : IsSeparated (',' :: listText (next :: others)) := by
        intro c isHead
        rw [← some.inj isHead]
        rfl
      have noMacroLater : NoMacro (listText (next :: others)) := by
        rw [← singleton_append, ← append_assoc] at noMacro
        exact noMacro_end noMacro
      rw [expandParamsLoop_cons dcGetUserMacro turns written _ (by simp) separated noMacro,
        isResult, head?_cons, if_pos rfl, drop_succ_cons, drop_zero,
        ih (by omega) noMacroLater]
      rfl

theorem dcExpandUserMacrosInFuncParams_list (dcGetUserMacro : Resolver)
    (params : List WrittenParam) (noMacro : NoMacro (listText params)) :
    dcExpandUserMacrosInFuncParams (listText params) dcGetUserMacro =
      listText (params.map WrittenParam.withoutBlanks) :=
  expandParamsLoop_list dcGetUserMacro params le_rfl noMacro

end

/-! ## Functions -/

section

variable {expr text : Text} {ptr parL parR : Nat} {previous : Option Char}

theorem skippedLength_pos {length : Nat} (isSkipped : skippedLength text previous = some length) :
    0 < length := by
  rw [skippedLength] at isSkipped
  obtain isMacro | ⟨-, isSkipped⟩ := or_eq_some_iff.mp isSkipped
  · split_ifs at isMacro
    obtain ⟨location, -, rfl⟩ := map_eq_some_iff.mp isMacro
    exact Nat.succ_pos _
  obtain isMacro | ⟨-, isSkipped⟩ := or_eq_some_iff.mp isSkipped
  · split_ifs at isMacro
    obtain ⟨token, -, rfl⟩ := map_eq_some_iff.mp isMacro
    exact Nat.succ_pos _
  obtain isOther | ⟨-, isSkipped⟩ := or_eq_some_iff.mp isSkipped
  · split_ifs at isOther
    rw [← some.inj isOther]
    exact Nat.one_pos
  obtain isOperator | ⟨-, isUnit⟩ := or_eq_some_iff.mp isSkipped
  · obtain ⟨len, isLen, isEnd⟩ := bind_eq_some_iff.mp isOperator
    split_ifs at isEnd isLen <;> simp_all <;> omega
  · split_ifs at isUnit
    rw [← some.inj isUnit]
    exact Nat.one_pos

theorem isFunctionChar_of_notSkipped (notSkipped : skippedLength text previous = none) :
    text.head?.any isFunctionChar = true := by
  simp only [skippedLength, or_eq_none_iff] at notSkipped
  by_contra notName
  have isOther := notSkipped.2.2.1
  rw [if_neg notName] at isOther
  cases isOther

/-- The scanner stops at the end, or where a name may start. -/
theorem noFunctionLoop_spec {turns : Nat} (insideQuote : Bool)
    (enough : expr.length < turns + ptr) :
    expr.drop (noFunctionLoop expr turns ptr insideQuote) = [] ∨
      (expr.drop (noFunctionLoop expr turns ptr insideQuote)).head?.any isFunctionChar = true := by
  induction turns generalizing ptr insideQuote with
  | zero => exact Or.inl (drop_eq_nil_of_le (by rw [noFunctionLoop]; omega))
  | succ turns ih =>
    rw [noFunctionLoop]
    cases isChar : expr[ptr]? with
    | none => exact Or.inl (drop_eq_nil_of_le (List.getElem?_eq_none_iff.mp isChar))
    | some c =>
      dsimp only
      generalize (if 0 < ptr then expr[ptr - 1]? else none) = previous
      split_ifs with isQuote isInside notEscape hasNext
      · exact ih _ (by omega)
      · exact ih _ (by omega)
      · exact ih _ (by omega)
      · exact Or.inl (drop_eq_nil_of_le (by omega))
      · cases isSkipped : skippedLength (expr.drop ptr) previous with
        | none => exact Or.inr (isFunctionChar_of_notSkipped isSkipped)
        | some length =>
          have isLonger := skippedLength_pos isSkipped
          exact ih _ (by omega)

theorem zbxNoFunction_spec (expr : Text) :
    expr.drop (zbxNoFunction expr) = [] ∨
      (expr.drop (zbxNoFunction expr)).head?.any isFunctionChar = true :=
  noFunctionLoop_spec false (by omega)

theorem zbxFunctionValidate_eq_some (isFunction : zbxFunctionValidate text = (parL, some parR)) :
    ∃ name params rest, text = name ++ '(' :: (listText params ++ ')' :: rest) ∧ name ≠ [] ∧
      (∀ c ∈ name, isFunctionChar c = true) ∧ params ≠ [] ∧ parL = name.length ∧
      parR = name.length + 1 + (listText params).length := by
  rw [zbxFunctionValidate, functionParseName, Prod.mk.injEq] at isFunction
  obtain ⟨rfl, isMatched⟩ := isFunction
  split_ifs at isMatched with hasName
  obtain ⟨parRInner, accepted, rfl⟩ := map_eq_some_iff.mp isMatched
  obtain ⟨params, rest, nonempty, isRest, rfl⟩ := exists_list accepted
  simp only [ne_eq, decide_not, Bool.and_eq_true, Bool.not_eq_true',
    decide_eq_false_iff_not, decide_eq_true_eq] at hasName
  obtain ⟨others, isOthers⟩ := head?_eq_some_iff.mp hasName.2
  refine ⟨text.takeWhile isFunctionChar, params, rest, ?_, ?_, ?_, nonempty, rfl, ?_⟩
  · have isDropped : others = listText params ++ ')' :: rest := by
      rw [← isRest, ← drop_drop, isOthers]
      rfl
    rw [← isDropped, ← isOthers, drop_length_takeWhile, takeWhile_append_dropWhile]
  · exact fun isEmpty => hasName.1 (congrArg List.length isEmpty)
  · exact fun c isMem => mem_takeWhile_imp isMem
  · omega

theorem parL_pos (isName : text.head?.any isFunctionChar = true) :
    0 < (zbxFunctionValidate text).1 := by
  cases text with
  | nil => cases isName
  | cons c rest =>
    have isChar : isFunctionChar c = true := isName
    simp [zbxFunctionValidate, functionParseName, isChar]

theorem findLoop_end (isEnd : expr.length ≤ ptr) (turns : Nat) (before : FunctionSearch) :
    findLoop expr turns ptr before = before := by
  cases turns with
  | zero => rfl
  | succ turns => rw [findLoop, if_neg (by omega)]

theorem zbxFunctionFind_spec (nonempty : expr ≠ []) (before : FunctionSearch) :
    let search := zbxFunctionFind expr before
    let candidate := expr.drop (zbxNoFunction expr)
    (candidate = [] ∧ search.succeeded = false ∧ search.parL ≤ search.parR) ∨
      (∃ parL parR, zbxFunctionValidate candidate = (parL, some parR) ∧
        search.succeeded = true ∧ search.parL = zbxNoFunction expr + parL ∧
        search.parR = zbxNoFunction expr + parR) ∨
      (∃ parL, zbxFunctionValidate candidate = (parL, none) ∧ candidate ≠ [] ∧
        candidate.head?.any isFunctionChar = true ∧
        search.succeeded = false ∧ search.parR < search.parL) := by
  have isLonger : 0 < expr.length := length_pos_of_ne_nil nonempty
  dsimp only
  rw [zbxFunctionFind, findLoop, if_pos isLonger]
  simp only [drop_zero, Nat.zero_add]
  obtain isEnd | isName := zbxNoFunction_spec expr
  · have isNone : zbxFunctionValidate [] = (0, none) := rfl
    refine Or.inl ⟨isEnd, ?_⟩
    rw [isEnd, isNone]
    dsimp only
    rw [if_neg (lt_irrefl 0), Nat.add_zero, findLoop_end (drop_eq_nil_iff.mp isEnd)]
    exact ⟨rfl, le_rfl⟩
  · refine Or.inr ?_
    have isPos := parL_pos isName
    have isCandidate : expr.drop (zbxNoFunction expr) ≠ [] := by
      intro isEmpty
      rw [isEmpty] at isName
      cases isName
    cases isValidated : zbxFunctionValidate (expr.drop (zbxNoFunction expr)) with
    | mk parL matched =>
      rw [isValidated] at isPos
      cases matched with
      | none =>
        refine Or.inr ⟨parL, rfl, isCandidate, isName, ?_⟩
        dsimp only
        rw [if_pos isPos]
        exact ⟨rfl, isPos⟩
      | some parR => exact Or.inl ⟨parL, parR, rfl, rfl, Nat.add_comm _ _, Nat.add_comm _ _⟩

theorem stretch_of_drop {e front : Text} {first next : Nat} (after : Text)
    (isDropped : e.drop first = front ++ after) (isNext : next = first + front.length) :
    stretch e first next = front := by
  rw [stretch, isDropped, isNext, Nat.add_sub_cancel_left, take_left]

/-- A function is put into the buffer as it was, with perhaps fewer blanks. -/
theorem expandFunction_eq (lookup : Lookup) (hostid : Nat) {before name rest : Text}
    {params : List WrittenParam} (nonempty : params ≠ [])
    (noMacro : NoMacro (before ++ (name ++ '(' :: (listText params ++ ')' :: rest)))) :
    ∃ params', params'.map WrittenParam.content = params.map WrittenParam.content ∧
      expandFunction lookup hostid (before ++ (name ++ '(' :: (listText params ++ ')' :: rest)))
          (before.length + name.length)
          (before.length + (name.length + 1 + (listText params).length)) =
        before ++ (name ++ '(' :: (listText params' ++ [')'])) := by
  generalize isText : before ++ (name ++ '(' :: (listText params ++ ')' :: rest)) = e at noMacro ⊢
  have isStart : (before ++ (name ++ ['('])) ++ (listText params ++ ')' :: rest) = e := by
    rw [← isText]
    simp
  have isLength : (before ++ (name ++ ['('])).length = before.length + name.length + 1 := by
    simp [Nat.add_assoc]
  have isTaken : e.take (before.length + name.length + 1) = before ++ (name ++ ['(']) := by
    rw [← isStart, ← isLength, take_left]
  have isDropped : e.drop (before.length + name.length + 1) = listText params ++ ')' :: rest := by
    rw [← isStart, ← isLength, drop_left]
  have isExpanded : dcExpandUserMacrosInExpression (before ++ (name ++ ['(']))
      (lookup.dcGetUserMacro hostid) = before ++ (name ++ ['(']) := by
    apply dcExpandUserMacrosInExpression_noMacro
    rw [← isStart] at noMacro
    exact noMacro_start noMacro
  have isParR : before.length + (name.length + 1 + (listText params).length) =
      before.length + name.length + 1 + (listText params).length := by
    omega
  rw [expandFunction, isTaken, isDropped, isExpanded, isParR]
  generalize before.length + name.length + 1 = first at isDropped
  obtain ⟨written, others, rfl⟩ := exists_cons_of_ne_nil nonempty
  cases others with
  | nil =>
    have isList : listText [written] = written.text := rfl
    have separated : IsSeparated (')' :: rest) := by
      intro c isHead
      rw [← some.inj isHead]
      rfl
    refine ⟨[written], rfl, ?_⟩
    rw [isList] at isDropped ⊢
    have isFirst : stretch e first (written.text.length + first + 1) = written.text ++ [')'] := by
      refine stretch_of_drop rest ?_ (by simp; omega)
      rw [isDropped, append_assoc]
      rfl
    rw [parse_text separated]
    dsimp only
    rw [if_pos (Nat.add_comm _ _), isFirst, append_nil, append_assoc, append_assoc]
    rfl
  | cons next others =>
    generalize isOthers : next :: others = remaining at isDropped noMacro ⊢
    have isList : listText (written :: remaining) = written.text ++ ',' :: listText remaining := by
      rw [← isOthers]
      rfl
    have separated : IsSeparated (',' :: (listText remaining ++ ')' :: rest)) := by
      intro c isHead
      rw [← some.inj isHead]
      rfl
    have isWritten : listText (written :: remaining) ++ ')' :: rest =
        written.text ++ ',' :: (listText remaining ++ ')' :: rest) := by
      rw [isList, append_assoc]
      rfl
    have isRest : e.drop (written.text.length + first + 1) = listText remaining ++ ')' :: rest := by
      rw [Nat.add_assoc, Nat.add_left_comm, ← drop_drop, isDropped, isWritten,
        drop_length_add_append]
      rfl
    have isFirst : stretch e first (written.text.length + first + 1) = written.text ++ [','] := by
      refine stretch_of_drop (listText remaining ++ ')' :: rest) ?_ (by simp; omega)
      rw [isDropped, isWritten, append_assoc]
      rfl
    have isLong : (listText (written :: remaining)).length =
        written.text.length + 1 + (listText remaining).length := by
      rw [isList, length_append, length_cons]
      omega
    have isKept : stretch e (written.text.length + first + 1)
        (first + (listText (written :: remaining)).length + 1) = listText remaining ++ [')'] := by
      refine stretch_of_drop rest ?_ (by simp; omega)
      rw [isRest, append_assoc]
      rfl
    have isGiven : stretch e (written.text.length + first + 1)
        (first + (listText (written :: remaining)).length) = listText remaining :=
      stretch_of_drop _ isRest (by omega)
    have isPart : NoMacro (listText remaining) := by
      have isPlace : e = e.take (written.text.length + first + 1) ++
          (listText remaining ++ ')' :: rest) := by
        rw [← isRest, take_append_drop]
      rw [isPlace] at noMacro
      exact noMacro_part noMacro
    rw [isWritten, parse_text separated]
    dsimp only
    rw [if_neg (by omega), isFirst, isKept, isGiven, dcExpandUserMacrosInFuncParams_list _ _ isPart]
    split_ifs
    · refine ⟨written :: remaining, rfl, ?_⟩
      rw [isList]
      simp
    · refine ⟨written :: remaining.map WrittenParam.withoutBlanks, ?_, ?_⟩
      · simp [WrittenParam.content, WrittenParam.withoutBlanks]
      · rw [← isOthers]
        simp [listText, joinParams]

theorem exists_function (lookup : Lookup) (hostid : Nat) (noMacro : NoMacro expr)
    (isFunction : zbxFunctionValidate (expr.drop (zbxNoFunction expr)) = (parL, some parR))
    (turns : Nat) (before : FunctionSearch) (exp : Option Text) :
    ∃ front name rest params params' search,
      expr = front ++ (name ++ '(' :: (listText params ++ ')' :: rest)) ∧
      front.length = zbxNoFunction expr ∧ name ≠ [] ∧ (∀ c ∈ name, isFunctionChar c = true) ∧
      params'.map WrittenParam.content = params.map WrittenParam.content ∧
      rest = expr.drop (zbxNoFunction expr + parR + 1) ∧ search.parL ≤ search.parR ∧
      calcitemLoop lookup hostid (turns + 1) expr before exp =
        calcitemLoop lookup hostid turns rest search
          (append exp (front ++ (name ++ '(' :: (listText params' ++ [')'])))) := by
  obtain ⟨name, params, rest, isCandidate, isNamed, isName, nonempty, isParL, isParR⟩ :=
    zbxFunctionValidate_eq_some isFunction
  have isExpr : expr = expr.take (zbxNoFunction expr) ++
      (name ++ '(' :: (listText params ++ ')' :: rest)) := by
    rw [← isCandidate, take_append_drop]
  have isLength : (expr.take (zbxNoFunction expr)).length = zbxNoFunction expr := by
    have isShorter := congrArg List.length isCandidate
    rw [length_drop, length_append, length_cons] at isShorter
    rw [length_take]
    omega
  have isRest : expr.drop (zbxNoFunction expr + parR + 1) = rest := by
    have isFront : (name ++ '(' :: (listText params ++ [')'])) ++ rest =
        name ++ '(' :: (listText params ++ ')' :: rest) := by
      simp
    rw [Nat.add_assoc, ← drop_drop, isCandidate, ← isFront, drop_left']
    rw [isParR]
    simp
    omega
  have notEmpty : expr ≠ [] := by
    rintro rfl
    rw [drop_nil] at isCandidate
    exact absurd isCandidate.symm (by simp)
  obtain ⟨isNone, -⟩ | ⟨parL', parR', isFound, succeeded, isL, isR⟩ | ⟨parL', isNone, -⟩ :=
    zbxFunctionFind_spec notEmpty before
  · rw [isNone] at isCandidate
    exact absurd isCandidate.symm (by simp)
  · obtain ⟨rfl, isSame⟩ := Prod.mk.inj (isFound.symm.trans isFunction)
    obtain rfl := some.inj isSame
    rw [isExpr] at noMacro
    obtain ⟨params', sameParams, isExpanded⟩ := expandFunction_eq lookup hostid nonempty noMacro
    rw [← isExpr, isLength, ← isParR, ← isParL, ← isL, ← isR] at isExpanded
    refine ⟨expr.take (zbxNoFunction expr), name, rest, params, params',
      zbxFunctionFind expr before, isExpr, isLength, isNamed, isName, sameParams, isRest.symm, ?_,
      ?_⟩
    · omega
    · rw [calcitemLoop, if_pos succeeded, isExpanded, isR, isRest]
  · rw [isFunction] at isNone
    cases congrArg Prod.snd isNone

/-! ## Whole formulas -/

theorem calcitemLoop_intact (lookup : Lookup) (hostid : Nat) (names : AllNamesCall expr)
    {turns : Nat} (enough : expr.length < turns) (noMacro : NoMacro expr)
    (before : FunctionSearch) (exp : Option Text) (isSet : expr ≠ [] ∨ before.parL ≤ before.parR) :
    ∃ result, calcitemLoop lookup hostid turns expr before exp = append exp result ∧
      SameUpToBlanks expr result := by
  induction names generalizing turns before exp with
  | @done formula isDone =>
    obtain ⟨turns, rfl⟩ : ∃ less, turns = less + 1 := ⟨turns - 1, by omega⟩
    have isCopied : (zbxFunctionFind formula before).succeeded = false ∧
        (zbxFunctionFind formula before).parL ≤ (zbxFunctionFind formula before).parR := by
      by_cases isEmpty : formula = []
      · subst isEmpty
        exact ⟨rfl, isSet.resolve_left fun other => other rfl⟩
      · obtain ⟨-, isEnd⟩ | ⟨parL, parR, isFound, -⟩ | ⟨parL, -, isOther, -⟩ :=
          zbxFunctionFind_spec isEmpty before
        · exact isEnd
        · rw [isDone] at isFound
          cases congrArg Prod.snd isFound
        · exact absurd isDone isOther
    refine ⟨formula, ?_, .same formula⟩
    rw [calcitemLoop, if_neg (by simp [isCopied.1]), if_pos isCopied.2,
      dcExpandUserMacrosInExpression_noMacro noMacro]
  | @function formula parL parR isFunction later ih =>
    obtain ⟨turns, rfl⟩ : ∃ less, turns = less + 1 := ⟨turns - 1, by omega⟩
    obtain ⟨front, name, rest, params, params', search, isExpr, isFront, nonempty, isName,
      sameParams, isRest, isOrdered, isTurn⟩ :=
      exists_function lookup hostid noMacro isFunction turns before exp
    have isShorter : rest.length < turns := by
      have isLength := congrArg List.length isExpr
      simp only [length_append, length_cons] at isLength
      omega
    have noMacroRest : NoMacro rest := by
      rw [isRest]
      exact noMacro_drop noMacro _
    rw [← isRest] at ih
    obtain ⟨result, isResult, sameLater⟩ := ih isShorter noMacroRest search
      (append exp (front ++ (name ++ '(' :: (listText params' ++ [')'])))) (Or.inr isOrdered)
    refine ⟨front ++ (name ++ '(' :: (listText params' ++ ')' :: result)), ?_, ?_⟩
    · rw [isTurn, isResult]
      simp [append]
    · rw [isExpr] at isFront ⊢
      exact .function isFront.symm nonempty isName sameParams sameLater

/-- The number of characters that are no blanks. -/
def inkLength (text : Text) : Nat :=
  text.countP (· ≠ ' ')

theorem inkLength_append (front text : Text) :
    inkLength (front ++ text) = inkLength front + inkLength text :=
  countP_append

theorem inkLength_blanks (count : Nat) : inkLength (blanks count) = 0 := by
  refine countP_eq_zero.mpr fun c isMem => ?_
  simp [eq_of_mem_replicate isMem]

theorem inkLength_listText {params params' : List WrittenParam}
    (sameParams : params'.map WrittenParam.content = params.map WrittenParam.content) :
    inkLength (listText params') = inkLength (listText params) := by
  have sameText {written written' : WrittenParam} (sameContent : written'.content = written.content) :
      inkLength written'.text = inkLength written.text := by
    obtain ⟨sameParam, sameQuotes⟩ := Prod.mk.inj sameContent
    simp only [WrittenParam.text, inkLength_append, inkLength_blanks, WrittenParam.body, sameParam,
      sameQuotes]
  induction params generalizing params' with
  | nil =>
    rw [map_eq_nil_iff.mp sameParams]
  | cons written others ih =>
    obtain ⟨written', others', rfl, sameContent, sameOthers⟩ := map_eq_cons_iff.mp sameParams
    have later := ih sameOthers
    cases others with
    | nil =>
      rw [map_eq_nil_iff.mp sameOthers]
      exact sameText sameContent
    | cons next others =>
      obtain ⟨next', others', rfl, -, -⟩ := map_eq_cons_iff.mp sameOthers
      have isList (first second : WrittenParam) (more : List WrittenParam) :
          listText (first :: second :: more) =
            first.text ++ ([','] ++ listText (second :: more)) := rfl
      rw [isList, isList, inkLength_append, inkLength_append, inkLength_append,
        inkLength_append, sameText sameContent, later]

theorem inkLength_eq {formula result : Text} (same : SameUpToBlanks formula result) :
    inkLength result = inkLength formula := by
  induction same with
  | same formula => rfl
  | @function before name rest rest' params params' _ _ _ sameParams _ ih =>
    have isSplit (list rest : Text) : before ++ (name ++ '(' :: (list ++ ')' :: rest)) =
        before ++ (name ++ (['('] ++ (list ++ ([')'] ++ rest)))) := rfl
    rw [isSplit, isSplit]
    simp only [inkLength_append, inkLength_listText sameParams, ih]

theorem calcitemLoop_lost (lookup : Lookup) (hostid : Nat) {turns : Nat}
    (enough : expr.length < turns) (noMacro : NoMacro expr) (notNames : ¬AllNamesCall expr)
    (before : FunctionSearch) (exp : Option Text) {result : Text}
    (isResult : calcitemLoop lookup hostid turns expr before exp = some result) :
    inkLength result < inkLength (exp.getD []) + inkLength expr := by
  induction turns generalizing expr before exp with
  | zero => omega
  | succ turns ih =>
    have notEmpty : expr ≠ [] := by
      rintro rfl
      exact notNames (.done drop_nil)
    obtain ⟨isDone, -⟩ | ⟨parL, parR, isFunction, -⟩ |
        ⟨parL, -, -, isName, failed, isOrdered⟩ := zbxFunctionFind_spec notEmpty before
    · exact absurd (.done isDone) notNames
    · obtain ⟨front, name, rest, params, params', search, isExpr, -, -, -, sameParams, isRest, -,
        isTurn⟩ := exists_function lookup hostid noMacro isFunction turns before exp
      have isShorter : rest.length < turns := by
        have isLength := congrArg List.length isExpr
        simp only [length_append, length_cons] at isLength
        omega
      have notNamesRest : ¬AllNamesCall rest := by
        rw [isRest]
        exact fun names => notNames (.function isFunction names)
      have noMacroRest : NoMacro rest := by
        rw [isRest]
        exact noMacro_drop noMacro _
      rw [isTurn] at isResult
      have isLess := ih isShorter noMacroRest notNamesRest search _ isResult
      have isSplit : expr = front ++ (name ++ (['('] ++ (listText params ++ ([')'] ++ rest)))) :=
        isExpr
      have isAppended : (append exp (front ++ (name ++ '(' :: (listText params' ++ [')'])))).getD [] =
          exp.getD [] ++ (front ++ (name ++ (['('] ++ (listText params' ++ [')'])))) := rfl
      rw [isAppended] at isLess
      rw [isSplit]
      simp only [inkLength_append, inkLength_listText sameParams] at isLess ⊢
      omega
    · rw [calcitemLoop, if_neg (by simp [failed]), if_neg (by omega)] at isResult
      have hasInk : 0 < inkLength expr := by
        refine countP_pos_iff.mpr ?_
        obtain ⟨c, isHead, isChar⟩ := (Option.any_eq_true _ _).mp isName
        refine ⟨c, mem_of_mem_drop (mem_of_mem_head? isHead), ?_⟩
        rw [decide_eq_true_eq]
        rintro rfl
        cases isChar
      rw [isResult, getD_some]
      omega

end

/-- A formula without macros is left intact if it is not empty and each name in it is that of a
function. -/
theorem leftIntact_iff (lookup : Lookup) (formula : Text) (hostid : Nat)
    (noMacro : NoMacro formula) :
    LeftIntact lookup formula hostid ↔ formula ≠ [] ∧ AllNamesCall formula := by
  constructor
  · intro isIntact
    refine ⟨?_, ?_⟩
    · rintro rfl
      obtain ⟨result, isResult, -⟩ := isIntact ⟨false, 0, 1, 0⟩
      cases isResult
    · by_contra notNames
      obtain ⟨result, isResult, same⟩ := isIntact ⟨false, 0, 0, 0⟩
      have isLess := calcitemLoop_lost lookup hostid (Nat.lt_succ_self _) noMacro notNames _ none
        isResult
      rw [inkLength_eq same, getD_none] at isLess
      exact absurd isLess (by simp [inkLength])
  · rintro ⟨nonempty, names⟩ unset
    obtain ⟨result, isResult, same⟩ := calcitemLoop_intact lookup hostid names
      (Nat.lt_succ_self _) noMacro unset none (Or.inl nonempty)
    exact ⟨result, isResult, same⟩

theorem leftIntact_iff_max :
    LeftIntact ⟨fun _ => none, fun _ _ _ => none⟩ "2*max(a, 5m)".toList 1 ↔
      "2*max(a, 5m)".toList ≠ [] ∧ AllNamesCall "2*max(a, 5m)".toList :=
  leftIntact_iff _ _ 1 (noMacro_of_noBrace (by decide))

/-- Nothing is ever written to the buffer for a name alone, and the rest of a formula is lost from
such a name on. -/
theorem not_leftIntact_name :
    NoMacro "abc".toList ∧ ¬LeftIntact ⟨fun _ => none, fun _ _ _ => none⟩ "abc".toList 1 ∧
      dcExpandUserMacrosInCalcitem ⟨fun _ => none, fun _ _ _ => none⟩ "last(a)+abc".toList 1
        ⟨false, 0, 0, 0⟩ = some "last(a)".toList := by
  refine ⟨noMacro_of_noBrace (by decide), fun isIntact => ?_, by decide⟩
  obtain ⟨result, isResult, -⟩ := isIntact ⟨false, 0, 0, 0⟩
  cases isResult

end Zabbix.Tokens.Intact
