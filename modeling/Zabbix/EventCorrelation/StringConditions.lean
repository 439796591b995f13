import Zabbix.Common.Text
import Zabbix.Library.SqlGrammar

/-!
# Conditions on strings

Strings become literals of queries by escaping, and a list of strings becomes a condition that a
column has one of them.
-/

namespace Zabbix.EventCorrelation.StringConditions

open Common.Text Library Library.Sql Library.SqlGrammar Library.SqlMeaning Library.SqlText List

/-! ## Escaping -/

/-- The databases, and for the second `ZBX_PG_ESCAPE_BACKSLASH`. -/
inductive Backend where
  | mysql
  | postgresql (escapeBackslash : Bool)

/-- Whether backslashes escape in literals. -/
def Backend.escapes : Backend → Bool
  | .mysql => true
  | .postgresql escapeBackslash => escapeBackslash

variable (backend : Backend)

def zbxDbIsEscapeSequence (c : Char) : Bool :=
  match backend with
  | .mysql => c = '\'' || c = '\\'
  | .postgresql escapeBackslash => c = '\'' || (c = '\\' && escapeBackslash)

def dbDynEscapeString (src : Text) : Text :=
  src.flatMap fun c =>
    if zbxDbIsEscapeSequence backend c then
      match backend with
      | .mysql => ['\\', c]
      | .postgresql _ => [c, c]
    else [c]

/-- `ZBX_SQL_STRCMP` with `ZBX_SQL_STRVAL_EQ` -/
def zbxSqlStrcmp (str : Text) : Text :=
  match backend with
  | .mysql => "= binary '".toList ++ (str ++ ['\''])
  | .postgresql _ => "='".toList ++ (str ++ ['\''])

/-! ## Lists of values -/

def maxExpressions : Nat := 1000

/-- The beginning of a list of values. -/
def inText (fieldname : Text) : Text :=
  fieldname ++ " in (".toList

/-- One turn of the loop over values that are not empty, with the number of values in the list. -/
def addValue (fieldname : Text) (state : Text × Nat) (value : Text) : Text × Nat :=
  let (sql, cnt) :=
    if state.2 = maxExpressions then
      (state.1.dropLast ++ (") or ".toList ++ inText fieldname), 0)
    else state
  (sql ++ ('\'' :: (dbDynEscapeString backend value ++ ['\'', ','])), cnt + 1)

def inLists (fieldname : Text) (values : List Text) : Text :=
  (values.foldl (addValue backend fieldname) (inText fieldname, 0)).1.dropLast ++ [')']

/-- The condition for values that are not empty. -/
def filledText (fieldname : Text) : List Text → Text
  | [value] => fieldname ++ ("='".toList ++ (dbDynEscapeString backend value ++ ['\'']))
  | values => inLists backend fieldname values

/-- `DBadd_str_condition_alloc`, which has nothing to add for no values. -/
def dbAddStrCondition (fieldname : Text) (values : List Text) : Text :=
  let filled := values.filter (· ≠ [])
  let isEmpty := values.any (· = [])
  let emptyText := fieldname ++ zbxSqlStrcmp backend []
  if values = [] then []
  else if filled = [] then ' ' :: emptyText
  else if isEmpty then
    ' ' :: '(' :: ((emptyText ++ (" or ".toList ++ filledText backend fieldname filled)) ++ [')'])
  else if maxExpressions < filled.length then
    ' ' :: '(' :: (filledText backend fieldname filled ++ [')'])
  else ' ' :: filledText backend fieldname filled

/-! ## Literals -/

variable {tables : Tables} {meaning : Scope → Bool}

theorem lexFrom_dbDynEscapeString (backend : Backend) (src read : Text) :
    lexFrom backend.escapes (.literal read) (dbDynEscapeString backend src) =
      some ([], .literal (read ++ src)) := by
  induction src generalizing read with
  | nil => rw [append_nil]; rfl
  | cons c src ih =>
    have isOne : lexFrom backend.escapes (.literal read) (dbDynEscapeString backend [c]) =
        some ([], .literal (read ++ [c])) := by
      by_cases isQuote : c = '\''
      · subst isQuote
        obtain _ | _ | _ := backend <;> rfl
      · by_cases isBackslash : c = '\\'
        · subst isBackslash
          obtain _ | _ | _ := backend <;> rfl
        · have notSequence : zbxDbIsEscapeSequence backend c = false := by
            cases backend <;> simp [zbxDbIsEscapeSequence, isQuote, isBackslash]
          have isNext : next backend.escapes (.literal read) c =
              some ([], .literal (read ++ [c])) := by
            simp [SqlText.next, isQuote, isBackslash]
          simp only [dbDynEscapeString, flatMap_cons, flatMap_nil, notSequence,
            Bool.false_eq_true, if_false, append_nil]
          rw [lexFrom_cons isNext]
          rfl
    have isWhole : dbDynEscapeString backend (c :: src) =
        dbDynEscapeString backend [c] ++ dbDynEscapeString backend src := by
      simp only [dbDynEscapeString, flatMap_cons, flatMap_nil, append_nil]
    rw [isWhole, lexFrom_append isOne (ih _), append_assoc]
    rfl

theorem denotes_literal {before column : Text} {tables : Tables} (backend : Backend)
    (isBefore : lexFrom backend.escapes .between before =
      some ([.name column, .equals], .literal [])) (text : Text) :
    Denotes backend.escapes tables .operand (before ++ (dbDynEscapeString backend text ++ ['\'']))
      fun scope => same (Sql.column scope column) (.text text) :=
  denotes_of (spells_literal isBefore (lexFrom_dbDynEscapeString backend text []))
    (@Derives.equals (.name column) (.literal text) (.column column) (.literal text)
      rfl rfl)

theorem denotes_zbxSqlStrcmp (backend : Backend) (tables : Tables) (text : Text) :
    Denotes backend.escapes tables .operand
      ("pt.value".toList ++ zbxSqlStrcmp backend (dbDynEscapeString backend text)) fun scope =>
        same (Sql.column scope "pt.value".toList) (.text text) := by
  cases backend with
  | postgresql escapeBackslash =>
    have isBefore : lexFrom escapeBackslash .between ("pt.value".toList ++ "='".toList) =
        some ([.name "pt.value".toList, .equals], .literal []) := rfl
    unfold zbxSqlStrcmp
    rw [← append_assoc]
    exact denotes_literal (.postgresql escapeBackslash) isBefore text
  | mysql =>
    have isBefore : lexFrom true .between ("pt.value".toList ++ "= binary '".toList) =
        some ([.name "pt.value".toList, .equals, .keyword .binaryWord], .literal []) := rfl
    unfold zbxSqlStrcmp
    rw [← append_assoc]
    exact denotes_of
      (spells_literal isBefore (lexFrom_dbDynEscapeString .mysql text []))
      (@Derives.binary (.name "pt.value".toList) (.column "pt.value".toList) rfl text)

def likePattern (value : Text) : Text :=
  '%' :: (value ++ ['%'])

theorem denotes_like (backend : Backend) (tables : Tables) (text : Text) :
    Denotes backend.escapes tables .operand
      ("pt.value like '%".toList ++ (dbDynEscapeString backend text ++ ['%', '\'']))
        fun scope => Condition.holds tables
          (.like (.column "pt.value".toList) (likePattern text)) scope := by
  have isBefore : lexFrom backend.escapes .between "pt.value like '%".toList =
      some ([.name "pt.value".toList, .keyword .likeWord], .literal ['%']) := by
    obtain _ | _ | _ := backend <;> rfl
  have isEnd : lexFrom backend.escapes (.literal ('%' :: text)) ['%'] =
      some ([], .literal (likePattern text)) := by
    obtain _ | _ | _ := backend <;> rfl
  have isInside := lexFrom_append (lexFrom_dbDynEscapeString backend text ['%']) isEnd
  have spells := spells_literal isBefore isInside
  rw [append_assoc] at spells
  exact denotes_of spells (@Derives.like (.name "pt.value".toList)
    (.column "pt.value".toList) rfl (likePattern text))

/-! ## Columns with one of several values -/

variable {backend : Backend} {values chunk : List Text} {text before : Text}

/-- The column that values are compared with has one of them. -/
def hasValue (values : List Text) (scope : Scope) : Bool :=
  values.any fun value => same (Sql.column scope "pt.value".toList) (.text value)

theorem hasValue_append (first second : List Text) (scope : Scope) :
    hasValue (first ++ second) scope = (hasValue first scope || hasValue second scope) :=
  any_append

def quotedTexts (backend : Backend) (values : List Text) : Text :=
  values.flatMap fun value => '\'' :: (dbDynEscapeString backend value ++ ['\'', ','])

/-- A list of values to its end. -/
def listText (backend : Backend) : List Text → Text
  | [] => []
  | [value] => '\'' :: (dbDynEscapeString backend value ++ ['\'', ')'])
  | value :: values =>
    '\'' :: (dbDynEscapeString backend value ++ ('\'' :: ',' :: listText backend values))

theorem quotedTexts_append (first second : List Text) :
    quotedTexts backend (first ++ second) =
      quotedTexts backend first ++ quotedTexts backend second :=
  flatMap_append

theorem dropLast_quotedTexts (nonempty : chunk ≠ []) :
    (quotedTexts backend chunk).dropLast ++ [')'] = listText backend chunk := by
  induction chunk with
  | nil => exact absurd rfl nonempty
  | cons value chunk ih =>
    cases chunk with
    | nil => simp [quotedTexts, listText, dropLast_cons_of_ne_nil]
    | cons second others =>
      have isLater := ih (cons_ne_nil second others)
      have notEmpty : quotedTexts backend (second :: others) ≠ [] := cons_ne_nil _ _
      have isWhole : quotedTexts backend (value :: second :: others) =
          ('\'' :: (dbDynEscapeString backend value ++ ['\'', ','])) ++
            quotedTexts backend (second :: others) := flatMap_cons
      rw [isWhole, dropLast_append_of_ne_nil notEmpty, append_assoc, isLater]
      simp [listText]

theorem spells_listText (backend : Backend) (nonempty : chunk ≠ []) :
    Spells backend.escapes (listText backend chunk) (literalTokens chunk) := by
  induction chunk with
  | nil => exact absurd rfl nonempty
  | cons value chunk ih =>
    have isOpening : lexFrom backend.escapes .between ['\''] = some ([], .literal []) := rfl
    have isLiteral := spells_literal isOpening (lexFrom_dbDynEscapeString backend value [])
    cases chunk with
    | nil =>
      have isClosing : Spells backend.escapes [')'] [.closing] := spells_of_lexFrom rfl
      have isList := isLiteral.append_cons rfl isClosing
      simpa [listText, literalTokens] using isList
    | cons second others =>
      have isComma : lexFrom backend.escapes .between [','] = some ([.comma], .between) := rfl
      have isLater := Spells.after_between isComma
        (ih (cons_ne_nil second others))
      have isList := isLiteral.append_cons rfl isLater
      simpa [listText, literalTokens] using isList

theorem denotes_listText (backend : Backend) (tables : Tables) (nonempty : chunk ≠ []) :
    Denotes backend.escapes tables .operand
      (inText "pt.value".toList ++ listText backend chunk) (hasValue chunk) := by
  have isBefore : lexFrom backend.escapes .between ("pt.value".toList ++ " in (".toList) =
      some ([.name "pt.value".toList, .keyword .inWord, .opening], .between) := rfl
  exact denotes_of (Spells.after_between isBefore (spells_listText backend nonempty))
    (@Derives.isIn (.name "pt.value".toList) (.column "pt.value".toList) chunk rfl nonempty)

theorem dropLast_inText (before : Text) (nonempty : chunk ≠ []) :
    (before ++ (inText "pt.value".toList ++ quotedTexts backend chunk)).dropLast ++ [')'] =
      before ++ (inText "pt.value".toList ++ listText backend chunk) := by
  obtain ⟨value, others, rfl⟩ := exists_cons_of_ne_nil nonempty
  have notEmpty : quotedTexts backend (value :: others) ≠ [] := cons_ne_nil _ _
  rw [← append_assoc before, dropLast_append_of_ne_nil notEmpty, append_assoc,
    dropLast_quotedTexts nonempty, append_assoc]

/-- The text before a list is empty, or a condition and `or`. -/
def IsBefore (backend : Backend) (tables : Tables) (before : Text) (meaning : Scope → Bool) :
    Prop :=
  (before = [] ∧ ∀ scope, meaning scope = false) ∨
    ∃ done, before = done ++ " or ".toList ∧
      Denotes backend.escapes tables .disjunction done meaning

theorem IsBefore.denotes {added : Scope → Bool} (isBefore : IsBefore backend tables before meaning)
    (denotes : Denotes backend.escapes tables .conjunction text added) :
    Denotes backend.escapes tables .disjunction (before ++ text)
      fun scope => meaning scope || added scope := by
  obtain ⟨rfl, isFalse⟩ | ⟨done, rfl, isDone⟩ := isBefore
  · refine denotes.disjunction.congr fun scope => ?_
    rw [isFalse, Bool.false_or]
  · rw [append_assoc]
    exact isDone.or denotes

theorem addValue_room (room : chunk.length ≠ maxExpressions) (value : Text) :
    addValue backend "pt.value".toList
        (before ++ (inText "pt.value".toList ++ quotedTexts backend chunk), chunk.length) value =
      (before ++ (inText "pt.value".toList ++ quotedTexts backend (chunk ++ [value])),
        (chunk ++ [value]).length) := by
  unfold addValue
  rw [if_neg room, quotedTexts_append, length_append]
  simp [quotedTexts]

theorem addValue_full (full : chunk.length = maxExpressions) (value : Text) :
    addValue backend "pt.value".toList
        (before ++ (inText "pt.value".toList ++ quotedTexts backend chunk), chunk.length) value =
      (((before ++ (inText "pt.value".toList ++ listText backend chunk)) ++ " or ".toList) ++
        (inText "pt.value".toList ++ quotedTexts backend [value]), [value].length) := by
  have nonempty : chunk ≠ [] := by
    rintro rfl
    exact absurd full (by decide)
  have isClosed : ") or ".toList = [')'] ++ " or ".toList := rfl
  unfold addValue
  rw [if_pos full, isClosed]
  simp only [← dropLast_inText before nonempty, quotedTexts, append_assoc, flatMap_cons,
    flatMap_nil, append_nil, length_singleton, Nat.zero_add]

theorem denotes_foldl_addValue (isBefore : IsBefore backend tables before meaning)
    (nonempty : chunk ++ values ≠ []) :
    Denotes backend.escapes tables .disjunction
      ((values.foldl (addValue backend "pt.value".toList)
        (before ++ (inText "pt.value".toList ++ quotedTexts backend chunk), chunk.length)).1.dropLast
          ++ [')'])
      fun scope => meaning scope || hasValue (chunk ++ values) scope := by
  induction values generalizing before meaning chunk with
  | nil =>
    rw [append_nil] at nonempty ⊢
    rw [foldl_nil, dropLast_inText before nonempty]
    exact isBefore.denotes (denotes_listText backend tables nonempty).conjunction
  | cons value values ih =>
    rw [foldl_cons]
    by_cases full : chunk.length = maxExpressions
    · have notEmpty : chunk ≠ [] := by
        rintro rfl
        exact absurd full (by decide)
      have isDone := isBefore.denotes (denotes_listText backend tables notEmpty).conjunction
      have isLater := @ih _ [value] _ (Or.inr ⟨_, rfl, isDone⟩)
        (cons_ne_nil value values)
      rw [addValue_full full]
      refine isLater.congr fun scope => ?_
      rw [hasValue_append chunk, Bool.or_assoc]
      rfl
    · have isLater := @ih meaning (chunk ++ [value]) before isBefore (by simp)
      rw [addValue_room full]
      rwa [append_assoc, singleton_append] at isLater

theorem foldl_addValue_short (fits : chunk.length + values.length ≤ maxExpressions) :
    (values.foldl (addValue backend "pt.value".toList)
        (before ++ (inText "pt.value".toList ++ quotedTexts backend chunk), chunk.length)).1 =
      before ++ (inText "pt.value".toList ++ quotedTexts backend (chunk ++ values)) := by
  induction values generalizing chunk with
  | nil => rw [foldl_nil, append_nil]
  | cons value values ih =>
    rw [length_cons] at fits
    have room : chunk.length ≠ maxExpressions := by omega
    have fitsLater : (chunk ++ [value]).length + values.length ≤ maxExpressions := by
      rw [length_append, length_singleton]
      omega
    rw [foldl_cons, addValue_room room, ih fitsLater, append_assoc, singleton_append]

theorem isBefore_nil : IsBefore backend tables [] fun _ => false :=
  Or.inl ⟨rfl, fun _ => rfl⟩

theorem denotes_inLists_short (nonempty : values ≠ []) (fits : values.length ≤ maxExpressions) :
    Denotes backend.escapes tables .operand (inLists backend "pt.value".toList values)
      (hasValue values) := by
  have isText : inLists backend "pt.value".toList values =
      inText "pt.value".toList ++ listText backend values := by
    have isShort := @foldl_addValue_short backend values [] [] (by simpa using fits)
    rw [nil_append, nil_append] at isShort
    have isList := @dropLast_inText backend values [] nonempty
    rw [nil_append, nil_append] at isList
    unfold inLists
    rw [← isList]
    exact congrArg (fun sql => List.dropLast sql ++ [')']) isShort
  rw [isText]
  exact denotes_listText backend tables nonempty

theorem foldl_addValue_before (before : Text) {sql : Text} (notEmpty : sql ≠ []) (cnt : Nat) :
    (values.foldl (addValue backend "pt.value".toList) (before ++ sql, cnt)).1 =
        before ++ (values.foldl (addValue backend "pt.value".toList) (sql, cnt)).1 ∧
      (values.foldl (addValue backend "pt.value".toList) (sql, cnt)).1 ≠ [] := by
  induction values generalizing sql cnt with
  | nil => exact ⟨rfl, notEmpty⟩
  | cons value values ih =>
    have isNext : addValue backend "pt.value".toList (before ++ sql, cnt) value =
        (before ++ (addValue backend "pt.value".toList (sql, cnt) value).1,
          (addValue backend "pt.value".toList (sql, cnt) value).2) := by
      unfold addValue
      by_cases full : cnt = maxExpressions
      · simp only [if_pos full, dropLast_append_of_ne_nil notEmpty, append_assoc]
      · simp only [if_neg full, append_assoc]
    have isText : (addValue backend "pt.value".toList (sql, cnt) value).1 ≠ [] := by
      unfold addValue
      exact append_ne_nil_of_right_ne_nil _ (cons_ne_nil _ _)
    rw [foldl_cons, foldl_cons, isNext]
    exact ih isText _

theorem denotes_inLists (nonempty : values ≠ []) (isBefore : IsBefore backend tables before meaning) :
    Denotes backend.escapes tables .disjunction
      (before ++ inLists backend "pt.value".toList values)
        fun scope => meaning scope || hasValue values scope := by
  have notEmpty : inText "pt.value".toList ≠ [] :=
    append_ne_nil_of_left_ne_nil (cons_ne_nil _ _) _
  obtain ⟨isLater, isText⟩ := @foldl_addValue_before backend values before _ notEmpty 0
  have denotes := @denotes_foldl_addValue tables meaning backend values [] before isBefore nonempty
  have isWhole : before ++ inLists backend "pt.value".toList values =
      (values.foldl (addValue backend "pt.value".toList)
        (before ++ inText "pt.value".toList, 0)).1.dropLast ++ [')'] := by
    rw [isLater, dropLast_append_of_ne_nil isText, append_assoc]
    rfl
  rw [isWhole]
  simpa only [quotedTexts, flatMap_nil, append_nil, nil_append, length_nil]
    using denotes

theorem hasValue_filter (values : List Text) (scope : Scope) :
    hasValue values scope =
      ((values.any (· = []) && same (Sql.column scope "pt.value".toList) (.text [])) ||
        hasValue (values.filter (· ≠ [])) scope) := by
  induction values with
  | nil => rfl
  | cons value values ih =>
    have isWhole : hasValue (value :: values) scope =
        (same (Sql.column scope "pt.value".toList) (.text value) || hasValue values scope) := rfl
    rw [isWhole, ih, any_cons]
    by_cases isEmpty : value = []
    · subst isEmpty
      rw [filter_cons_of_neg (by simp)]
      cases same (Sql.column scope "pt.value".toList) (.text []) <;> simp
    · have isFilled : hasValue ((value :: values).filter (· ≠ [])) scope =
          (same (Sql.column scope "pt.value".toList) (.text value) ||
            hasValue (values.filter (· ≠ [])) scope) := by
        rw [filter_cons_of_pos (by simpa using isEmpty)]
        rfl
      rw [isFilled, decide_eq_false isEmpty, Bool.false_or, Bool.or_left_comm]

theorem denotes_emptyText (backend : Backend) (tables : Tables) :
    Denotes backend.escapes tables .operand ("pt.value".toList ++ zbxSqlStrcmp backend [])
      fun scope => same (Sql.column scope "pt.value".toList) (.text []) :=
  denotes_zbxSqlStrcmp backend tables []

theorem denotes_single (backend : Backend) (tables : Tables) (value : Text) :
    Denotes backend.escapes tables .operand (filledText backend "pt.value".toList [value])
      (hasValue [value]) := by
  have isBefore : lexFrom backend.escapes .between ("pt.value".toList ++ "='".toList) =
      some ([.name "pt.value".toList, .equals], .literal []) := rfl
  have denotes := @denotes_literal _ _ tables backend isBefore value
  rw [append_assoc] at denotes
  refine denotes.congr fun scope => ?_
  rw [hasValue, any_cons, any_nil, Bool.or_false]

theorem filledText_several {first second : Text} {others : List Text} :
    filledText backend "pt.value".toList (first :: second :: others) =
      inLists backend "pt.value".toList (first :: second :: others) :=
  rfl

theorem denotes_filledText_short (nonempty : values ≠ []) (fits : values.length ≤ maxExpressions) :
    Denotes backend.escapes tables .operand (filledText backend "pt.value".toList values)
      (hasValue values) := by
  match values, nonempty, fits with
  | [value], _, _ => exact denotes_single backend tables value
  | first :: second :: others, nonempty, fits =>
    rw [filledText_several]
    exact denotes_inLists_short nonempty fits

theorem denotes_filledText (nonempty : values ≠ [])
    (isBefore : IsBefore backend tables before meaning) :
    Denotes backend.escapes tables .disjunction
      (before ++ filledText backend "pt.value".toList values)
        fun scope => meaning scope || hasValue values scope := by
  match values, nonempty with
  | [value], _ => exact isBefore.denotes (denotes_single backend tables value).conjunction
  | first :: second :: others, nonempty =>
    rw [filledText_several]
    exact denotes_inLists nonempty isBefore

theorem denotes_dbAddStrCondition (backend : Backend) (tables : Tables) (nonempty : values ≠ []) :
    ∃ condition, dbAddStrCondition backend "pt.value".toList values = ' ' :: condition ∧
      Denotes backend.escapes tables .operand condition (hasValue values) := by
  unfold dbAddStrCondition
  rw [if_neg nonempty]
  by_cases noneFilled : values.filter (· ≠ []) = []
  · rw [if_pos noneFilled]
    refine ⟨_, rfl, (denotes_emptyText backend tables).congr fun scope => ?_⟩
    have isEmpty : values.any (· = []) = true := by
      obtain ⟨value, others, rfl⟩ := exists_cons_of_ne_nil nonempty
      have isFirst := filter_eq_nil_iff.mp noneFilled value mem_cons_self
      rw [any_cons, Bool.or_eq_true]
      exact Or.inl (by simpa using isFirst)
    rw [hasValue_filter, noneFilled, isEmpty, Bool.true_and]
    exact (Bool.or_false _).symm
  · rw [if_neg noneFilled]
    split_ifs with isEmpty isLong
    · have isDone := (denotes_emptyText backend tables).conjunction.disjunction
      have isBefore : IsBefore backend tables
          (("pt.value".toList ++ zbxSqlStrcmp backend []) ++ " or ".toList) _ :=
        Or.inr ⟨_, rfl, isDone⟩
      have isWhole := denotes_filledText noneFilled isBefore
      rw [append_assoc] at isWhole
      refine ⟨_, rfl, isWhole.group.congr fun scope => ?_⟩
      rw [hasValue_filter values, isEmpty, Bool.true_and]
    · have isWhole := denotes_filledText noneFilled (@isBefore_nil tables backend)
      rw [nil_append] at isWhole
      refine ⟨_, rfl, isWhole.group.congr fun scope => ?_⟩
      rw [hasValue_filter values, Bool.eq_false_iff.mpr isEmpty, Bool.false_and]
    · refine ⟨_, rfl, (denotes_filledText_short noneFilled (Nat.le_of_not_lt isLong)).congr
        fun scope => ?_⟩
      rw [hasValue_filter values, Bool.eq_false_iff.mpr isEmpty, Bool.false_and, Bool.false_or]

end Zabbix.EventCorrelation.StringConditions
