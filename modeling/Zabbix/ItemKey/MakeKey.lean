import Zabbix.Common.MacroContext
import Zabbix.ItemKey.ItemUtil
import Zabbix.KeyAccess.Agent2Wildcard

/-!
# Item keys made by agent 2

`MakeKey` of the package `itemutil`, and the keys that its parser reads back.
-/

namespace Zabbix.ItemKey.MakeKey

open Common.Text Common.MacroContext ItemUtil List Option
open KeyAccess.Agent2Wildcard (isRune runeTail runeError isUtf8 high_of_rune runeTail_ascii)

/-- A comma or a bracket in a text is always a rune. -/
def mustQuote (param : Text) : Bool :=
  param.head? = some '"' || param.head? = some ' ' || param.contains ',' || param.contains ']'

/-- The loop of `quoteParam` over the runes of a parameter. -/
def quoteLoop : Text → Text
  | [] => []
  | char :: rest =>
    (if char = '"' then ['\\', char]
      else if isRune char rest then char :: rest.take (runeTail char rest)
      else runeError) ++ quoteLoop (rest.drop (runeTail char rest))
termination_by text => text.length
decreasing_by
  simp only [length_cons, length_drop]
  omega

def quoteParam (param : Text) : Text :=
  '"' :: (quoteLoop param ++ ['"'])

def writeParam (param : Text) : Text :=
  if mustQuote param then quoteParam param else param

/-- The parameters with commas between them. -/
def joinParams : List Text → Text
  | [] => []
  | [param] => writeParam param
  | param :: next :: others => writeParam param ++ ',' :: joinParams (next :: others)

def makeKey (key : Text) (params : List Text) : Text :=
  if params = [] then key else key ++ '[' :: (joinParams params ++ [']'])

/-- A parameter is no array, and does not escape the quote after it. -/
def IsReadBack (param : Text) : Prop :=
  if mustQuote param then param.getLast? ≠ some '\\' else param.head? ≠ some '['

variable {param rest left value : Text} {char : Char}

/-! ## Quoted parameters -/

theorem escapeQuotes_append {text : Text} (plain : ∀ byte ∈ text, byte ≠ '"') (rest : Text) :
    escapeQuotes (text ++ rest) = text ++ escapeQuotes rest := by
  induction text with
  | nil => rfl
  | cons char text ih =>
    obtain ⟨isPlain, isRest⟩ := forall_mem_cons.mp plain
    rw [cons_append, escapeQuotes_cons isPlain, ih isRest]
    rfl

theorem quoteLoop_eq (isText : isUtf8 param = true) : quoteLoop param = escapeQuotes param := by
  fun_induction quoteLoop param with
  | case1 => rfl
  | case2 char rest ih =>
    rw [isUtf8, Bool.and_eq_true] at isText
    obtain ⟨isFirst, isLater⟩ := isText
    rw [ih isLater]
    by_cases isQuote : char = '"'
    · subst isQuote
      have isSingle : runeTail '"' rest = 0 := by
        refine (high_of_rune '"' rest).resolve_right fun high => ?_
        exact absurd high.1 (by decide)
      rw [if_pos rfl, isSingle, drop_zero]
      rfl
    · have plain : ∀ byte ∈ char :: rest.take (runeTail char rest), byte ≠ '"' := by
        rw [forall_mem_cons]
        refine ⟨isQuote, fun byte member same => ?_⟩
        obtain isSingle | ⟨-, high⟩ := high_of_rune char rest
        · rw [isSingle] at member
          cases member
        · exact absurd (high byte member) (by rw [same]; decide)
      rw [if_neg isQuote, if_pos isFirst, ← escapeQuotes_append plain, cons_append,
        take_append_drop]

theorem getLast_cons (char : Char) (param : Text) (last : Char) :
    (char :: param).getLast?.getD last = param.getLast?.getD char := by
  rw [getLast?_cons, getD_some]

theorem closingQuote_escape (last : Char) (param rest : Text) :
    closingQuote last (escapeQuotes param ++ rest) =
      (closingQuote (param.getLast?.getD last) rest).map fun (text, left) =>
        (escapeQuotes param ++ text, left) := by
  induction param generalizing last with
  | nil =>
    show closingQuote last rest = (closingQuote last rest).map fun (text, left) => (text, left)
    exact Option.map_id'.symm
  | cons char param ih =>
    rw [getLast_cons]
    by_cases isQuote : char = '"'
    · subst isQuote
      rw [escapeQuotes, cons_append, cons_append, closingQuote,
        if_neg fun both => absurd both.1 (by decide), closingQuote, if_neg fun both => both.2 rfl,
        ih, Option.map_map, Option.map_map]
      rfl
    · rw [escapeQuotes_cons isQuote, cons_append, closingQuote,
        if_neg fun both => isQuote both.1, ih, Option.map_map]
      rfl

/-- A backslash is put out with the character after it. -/
def pending (last : Char) : Text :=
  if last = '\\' then ['\\'] else []

theorem unquoteLoop_plain (isPlain : char ≠ '"') (last : Char) (rest : Text) :
    ∃ emitted, pending last ++ [char] = emitted ++ pending char ∧
      unquoteLoop last (char :: rest) = emitted ++ unquoteLoop char rest := by
  rw [unquoteLoop, if_neg isPlain]
  by_cases isBackslash : char = '\\'
  · subst isBackslash
    exact ⟨pending last, rfl, rfl⟩
  · refine ⟨pending last ++ [char], ?_, ?_⟩
    · rw [pending, pending, if_neg isBackslash, append_nil]
    · dsimp only
      rw [if_neg isBackslash, pending, append_assoc]
      rfl

theorem unquoteLoop_escape (last : Char) (param rest : Text) :
    ∃ emitted, pending last ++ param = emitted ++ pending (param.getLast?.getD last) ∧
      unquoteLoop last (escapeQuotes param ++ rest) =
        emitted ++ unquoteLoop (param.getLast?.getD last) rest := by
  induction param generalizing last with
  | nil => exact ⟨[], append_nil _, rfl⟩
  | cons char param ih =>
    obtain ⟨later, isLater, isRest⟩ := ih char
    rw [getLast_cons]
    by_cases isQuote : char = '"'
    · subst isQuote
      refine ⟨pending last ++ '"' :: later, ?_, ?_⟩
      · have isSame : param = later ++ pending (param.getLast?.getD '"') := isLater
        rw [append_assoc, cons_append, ← isSame]
      · have isEscape (text : Text) :
            unquoteLoop last ('\\' :: '"' :: text) = pending last ++ '"' :: unquoteLoop '"' text :=
          rfl
        rw [escapeQuotes, cons_append, cons_append, isEscape, isRest, append_assoc]
        rfl
    · obtain ⟨emitted, isEmitted, isChar⟩ :=
        unquoteLoop_plain isQuote last (escapeQuotes param ++ rest)
      refine ⟨emitted ++ later, ?_, ?_⟩
      · rw [append_assoc, ← isLater, ← append_assoc, ← isEmitted, append_assoc]
        rfl
      · rw [escapeQuotes_cons isQuote, cons_append, isChar, isRest, append_assoc]

/-! ## Parsing -/

theorem parseQuotedParam_quoteParam (isText : isUtf8 param = true) (rest : Text) :
    parseQuotedParam (quoteParam param ++ rest) =
      (closingQuote (param.getLast?.getD '\x00') ('"' :: rest)).map fun (text, left) =>
        ('"' :: (escapeQuotes param ++ text), left) := by
  rw [parseQuotedParam, quoteParam, quoteLoop_eq isText, cons_append, append_assoc,
    tail_cons, singleton_append, closingQuote_escape, Option.map_map]
  rfl

theorem parseParam_quoteParam (isText : isUtf8 param = true) (rest : Text) :
    parseParam (quoteParam param ++ rest) =
      (closingQuote (param.getLast?.getD '\x00') ('"' :: rest)).map fun (text, left) =>
        (unquoteLoop '\x00' (escapeQuotes param ++ text), left) := by
  have isParsed := parseQuotedParam_quoteParam isText rest
  rw [quoteParam, cons_append] at isParsed ⊢
  rw [parseParam, skipBlanks_cons (by decide)]
  simp only [if_true, isParsed, Option.map_map]
  rfl

theorem parseUnquotedParam_plain (noComma : ',' ∉ param) (noBracket : ']' ∉ param)
    (isSeparator : char = ',' ∨ char = ']') (rest : Text) :
    parseUnquotedParam (param ++ char :: rest) = some (param, char :: rest) := by
  induction param with
  | nil => rw [nil_append, parseUnquotedParam, if_pos isSeparator]
  | cons first param ih =>
    rw [mem_cons, not_or] at noComma noBracket
    have notEnd : ¬(first = ',' ∨ first = ']') := by
      rintro (same | same)
      · exact noComma.1 same.symm
      · exact noBracket.1 same.symm
    rw [cons_append, parseUnquotedParam, if_neg notEnd, ih noComma.2 noBracket.2]
    rfl

theorem parseParam_writeParam (isText : isUtf8 param = true) (isRead : IsReadBack param)
    (isSeparator : char = ',' ∨ char = ']') (rest : Text) :
    parseParam (writeParam param ++ char :: rest) = some (param, char :: rest) := by
  rw [writeParam]
  rw [IsReadBack] at isRead
  split_ifs at isRead ⊢ with quotes
  · have notBackslash : param.getLast?.getD '\x00' ≠ '\\' := by
      cases isLast : param.getLast? with
      | none => decide
      | some last =>
        rintro rfl
        exact isRead isLast
    have notBlank : char ≠ ' ' := by
      rintro rfl
      exact absurd isSeparator (by decide)
    obtain ⟨emitted, isEmitted, isUnquoted⟩ := unquoteLoop_escape '\x00' param ['"']
    have isWhole : emitted = param := by
      rw [pending, pending, if_neg (by decide), if_neg notBackslash, append_nil] at isEmitted
      exact isEmitted.symm
    rw [parseParam_quoteParam isText, closingQuote, if_pos ⟨rfl, notBackslash⟩,
      skipBlanks_cons notBlank, map_some]
    dsimp only
    rw [isUnquoted, unquoteLoop, if_pos rfl, if_pos notBackslash, append_nil, isWhole]
  · simp only [mustQuote, Bool.or_eq_true, decide_eq_true_eq, contains_iff_mem, not_or]
      at quotes
    obtain ⟨⟨⟨notQuote, notBlank⟩, noComma⟩, noBracket⟩ := quotes
    have isUnquoted := parseUnquotedParam_plain noComma noBracket isSeparator rest
    cases param with
    | nil =>
      rw [nil_append]
      obtain rfl | rfl := isSeparator
      · rfl
      · rfl
    | cons first param =>
      have isFirst {other : Char} (notHead : (first :: param).head? ≠ some other) :
          first ≠ other := fun same => notHead (congrArg some same)
      have notEnd : ¬(first = ']' ∨ first = ',') := by
        rintro (rfl | rfl)
        · exact noBracket mem_cons_self
        · exact noComma mem_cons_self
      rw [cons_append] at isUnquoted ⊢
      rw [parseParam, skipBlanks_cons (isFirst notBlank)]
      simp only [if_neg (isFirst notQuote), if_neg (isFirst isRead), if_neg notEnd, isUnquoted]

theorem parseParam_ne_of_backslash (isText : isUtf8 param = true)
    (isLast : param.getLast? = some '\\')
    (found : parseParam (quoteParam param ++ rest) = some (value, left)) : value ≠ param := by
  rw [parseParam_quoteParam isText, isLast, getD_some, closingQuote,
    if_neg fun both => both.2 rfl, Option.map_map] at found
  obtain ⟨⟨text, after⟩, -, same⟩ := map_eq_some_iff.mp found
  obtain ⟨rfl, rfl⟩ := Prod.mk.inj same
  obtain ⟨emitted, isEmitted, isUnquoted⟩ := unquoteLoop_escape '\x00' param ('"' :: text)
  have isParam : param = emitted ++ ['\\'] := by
    rw [isLast] at isEmitted
    exact isEmitted
  rw [isLast, getD_some, unquoteLoop, if_pos rfl, if_neg fun other => other rfl] at isUnquoted
  show unquoteLoop '\x00' (escapeQuotes param ++ '"' :: text) ≠ param
  rw [isUnquoted]
  conv_rhs => rw [isParam]
  exact fun same => absurd (cons.inj (append_cancel_left same)).1 (by decide)

theorem head?_of_closingQuote {text : Text} (found : parseQuotedParam ('"' :: rest) = some (text, left)) :
    text.head? = some '"' := by
  obtain ⟨⟨param, after⟩, -, same⟩ := map_eq_some_iff.mp found
  rw [← (Prod.mk.inj same).1]
  rfl

theorem head?_of_parseUnquotedParam {text : Text}
    (found : parseUnquotedParam (char :: rest) = some (text, left)) :
    text = [] ∨ text.head? = some char := by
  rw [parseUnquotedParam] at found
  split_ifs at found
  · exact Or.inl (Prod.mk.inj (some.inj found)).1.symm
  · obtain ⟨⟨param, after⟩, -, same⟩ := map_eq_some_iff.mp found
    rw [← (Prod.mk.inj same).1]
    exact Or.inr rfl

theorem head?_of_expandItem (notBracket : (skipBlanks rest).head? ≠ some '[')
    (found : expandItem rest = some (param, left)) : param.head? ≠ some '[' := by
  unfold expandItem at found
  split at found
  · cases found
  case h_2 first later shape =>
    have isOther : first ≠ '[' := by
      rintro rfl
      rw [shape] at notBracket
      exact notBracket rfl
    split_ifs at found with isQuote
    · subst isQuote
      rw [head?_of_closingQuote found]
      decide
    · obtain rfl | isHead := head?_of_parseUnquotedParam found
      · simp
      · rw [isHead]
        exact fun same => isOther (some.inj same)

/-- The items of an array do not begin with a bracket if the first one does not. -/
theorem head?_of_expandLoop (notBracket : (skipBlanks rest).head? ≠ some '[')
    (found : expandLoop rest = some value) : value.head? ≠ some '[' := by
  rw [expandLoop] at found
  split_ifs at found
  · simp [← some.inj found]
  · split at found
    case h_1 item first later isItem =>
      have isOther := head?_of_expandItem notBracket isItem
      split_ifs at found
      · rwa [← some.inj found]
      · obtain ⟨others, -, rfl⟩ := map_eq_some_iff.mp found
        cases item with
        | nil => simp
        | cons head tail => exact isOther
    case h_2 => cases found

theorem head?_skipBlanks_take (count : Nat) (notHead : (skipBlanks rest).head? ≠ some char) :
    (skipBlanks (rest.take count)).head? ≠ some char := by
  intro isHead
  have nonempty : skipBlanks (rest.take count) ≠ [] := by
    intro isEmpty
    rw [isEmpty] at isHead
    cases isHead
  have isSplit : skipBlanks rest = skipBlanks (rest.take count) ++ rest.drop count := by
    conv_lhs => rw [← take_append_drop count rest]
    rw [skipBlanks, dropWhile_append, ← skipBlanks, if_neg (by simpa using nonempty)]
  rw [isSplit, head?_append_of_ne_nil _ nonempty] at notHead
  exact notHead isHead

/-- What is read of an array does not begin with a bracket. -/
theorem parseParam_ne_of_bracket (isBracket : rest.head? = some '[')
    (found : parseParam rest = some (value, left)) : value.head? ≠ some '[' := by
  obtain ⟨data, rfl⟩ := head?_eq_some_iff.mp isBracket
  rw [parseParam, skipBlanks_cons (by decide)] at found
  simp only [if_neg (show '[' ≠ '"' by decide), if_true] at found
  obtain ⟨⟨param, after⟩, isArray, isExpanded⟩ := bind_eq_some_iff.mp found
  obtain ⟨expanded, isValue, same⟩ := map_eq_some_iff.mp isExpanded
  obtain ⟨rfl, rfl⟩ := Prod.mk.inj same
  obtain ⟨later, isClosed, isParam⟩ := map_eq_some_iff.mp isArray
  obtain ⟨rfl, rfl⟩ := Prod.mk.inj isParam
  have notNested : (skipBlanks data).head? ≠ some '[' := by
    intro isNested
    obtain ⟨inner, isInner⟩ := head?_eq_some_iff.mp isNested
    have noItem : arrayItem data = none := by
      rw [arrayItem, isInner]
      rfl
    rw [tail_cons, closingBracket] at isClosed
    split_ifs at isClosed
    split at isClosed
    case h_1 isItem =>
      rw [noItem] at isItem
      cases isItem
    case h_2 isItem =>
      rw [noItem] at isItem
      cases isItem
    case h_3 => cases isClosed
  rw [expandArray] at isValue
  refine head?_of_expandLoop ?_ isValue
  dsimp only
  generalize ('[' :: data).length - later.length = count
  cases count with
  | zero => simp
  | succ count => exact head?_skipBlanks_take count notNested

/-! ## Keys -/

theorem exists_parseParam {params : List Text}
    (found : paramsLoop rest = some (param :: params, left)) :
    ∃ after, parseParam rest = some (param, after) := by
  rw [paramsLoop] at found
  split at found
  case h_1 value after isParam =>
    rw [← (cons.inj (Prod.mk.inj (some.inj found)).1).1]
    exact ⟨_, isParam⟩
  case h_2 value later isParam =>
    obtain ⟨⟨others, after⟩, -, same⟩ := map_eq_some_iff.mp found
    rw [← (cons.inj (Prod.mk.inj same).1).1]
    exact ⟨_, isParam⟩
  case h_3 => cases found

theorem paramsLoop_last (found : parseParam rest = some (value, ']' :: left)) :
    paramsLoop rest = some ([value], left) := by
  rw [paramsLoop]
  split
  case h_1 same =>
    obtain ⟨rfl, same⟩ := Prod.mk.inj (some.inj (same.symm.trans found))
    rw [(cons.inj same).2]
  case h_2 same =>
    obtain ⟨-, same⟩ := Prod.mk.inj (some.inj (same.symm.trans found))
    exact absurd (cons.inj same).1 (by decide)
  case h_3 notLast notMore => exact absurd found (notLast _ _)

theorem paramsLoop_more {after : Text} (found : parseParam rest = some (value, ',' :: after)) :
    paramsLoop rest = (paramsLoop after).map fun (params, left) => (value :: params, left) := by
  rw [paramsLoop]
  split
  case h_1 same =>
    obtain ⟨-, same⟩ := Prod.mk.inj (some.inj (same.symm.trans found))
    exact absurd (cons.inj same).1 (by decide)
  case h_2 same =>
    obtain ⟨rfl, same⟩ := Prod.mk.inj (some.inj (same.symm.trans found))
    rw [(cons.inj same).2]
  case h_3 notLast notMore => exact absurd found (notMore _ _)

theorem isReadBack_of_parseParam (isText : isUtf8 param = true)
    (found : parseParam (writeParam param ++ rest) = some (param, left)) : IsReadBack param := by
  rw [writeParam] at found
  rw [IsReadBack]
  split_ifs at found ⊢ with quotes
  · exact fun isLast => parseParam_ne_of_backslash isText isLast found rfl
  · intro isBracket
    refine parseParam_ne_of_bracket ?_ found isBracket
    rw [head?_append, isBracket]
    rfl

theorem paramsLoop_joinParams {params : List Text} (nonempty : params ≠ [])
    (areTexts : ∀ param ∈ params, isUtf8 param = true) :
    paramsLoop (joinParams params ++ [']']) = some (params, []) ↔
      ∀ param ∈ params, IsReadBack param := by
  induction params with
  | nil => exact absurd rfl nonempty
  | cons param params ih =>
    obtain ⟨isText, areLater⟩ := forall_mem_cons.mp areTexts
    cases params with
    | nil =>
      have isJoined : joinParams [param] = writeParam param := rfl
      rw [isJoined, forall_mem_singleton]
      constructor
      · intro found
        obtain ⟨after, isParam⟩ := exists_parseParam found
        exact isReadBack_of_parseParam isText isParam
      · intro isRead
        exact paramsLoop_last (parseParam_writeParam isText isRead (Or.inr rfl) [])
    | cons next others =>
      have isJoined : joinParams (param :: next :: others) ++ [']'] =
          writeParam param ++ ',' :: (joinParams (next :: others) ++ [']']) :=
        append_assoc _ _ _
      have later := ih (cons_ne_nil _ _) areLater
      rw [isJoined, forall_mem_cons, ← later]
      constructor
      · intro found
        obtain ⟨after, isParam⟩ := exists_parseParam found
        have isRead := isReadBack_of_parseParam isText isParam
        rw [paramsLoop_more (parseParam_writeParam isText isRead (Or.inl rfl) _)] at found
        obtain ⟨⟨read, left⟩, isLater, same⟩ := map_eq_some_iff.mp found
        obtain ⟨sameParams, rfl⟩ := Prod.mk.inj same
        rw [isLater, (cons.inj sameParams).2]
        exact ⟨isRead, rfl⟩
      · rintro ⟨isRead, isLater⟩
        rw [paramsLoop_more (parseParam_writeParam isText isRead (Or.inl rfl) _), isLater]
        rfl

theorem parseItemKey_params {key : Text} (nonempty : key ≠ [])
    (isKey : ∀ char ∈ key, isKeyChar char false = true) (text : Text) :
    parseItemKey (key ++ '[' :: text) =
      (paramsLoop text).bind fun (params, left) => if left = [] then some (key, params) else none := by
  obtain ⟨isTaken, isDropped⟩ :=
    split_while isKey (show isKeyChar '[' false = false by decide) text
  rw [parseItemKey, parseMetricKey, if_neg (by simp), parseKey, isDropped, isTaken]
  simp only [if_neg nonempty, ne_eq, not_true_eq_false, if_false, parseParams, bind_map]
  rfl

/-- A key that is made is read back if each of its parameters is. -/
theorem parseItemKey_makeKey {key : Text} {params : List Text} (nonempty : key ≠ [])
    (isKey : ∀ char ∈ key, isKeyChar char false = true)
    (areTexts : ∀ param ∈ params, isUtf8 param = true) :
    parseItemKey (makeKey key params) = some (key, params) ↔
      ∀ param ∈ params, IsReadBack param := by
  rw [makeKey]
  by_cases noParams : params = []
  · subst noParams
    have isTaken : key.takeWhile (isKeyChar · false) = key := takeWhile_eq_self_iff.mpr isKey
    have isDropped : key.dropWhile (isKeyChar · false) = [] :=
      dropWhile_eq_nil_iff.mpr isKey
    refine iff_of_true ?_ fun _ member => nomatch member
    rw [if_pos rfl, parseItemKey, parseMetricKey, if_neg nonempty, parseKey, isDropped, isTaken]
    rfl
  · rw [if_neg noParams, parseItemKey_params nonempty isKey,
      ← paramsLoop_joinParams noParams areTexts]
    cases read : paramsLoop (joinParams params ++ [']']) with
    | none => exact iff_of_false nofun nofun
    | some result =>
      obtain ⟨values, left⟩ := result
      simp only [bind_some, some.injEq, Prod.mk.injEq]
      split_ifs with isWhole
      · simp [isWhole]
      · simp [isWhole]

theorem isUtf8_ascii (isAscii : ∀ char ∈ param, char.toNat < 0x80) : isUtf8 param = true := by
  induction param with
  | nil => rw [isUtf8]
  | cons char param ih =>
    obtain ⟨isFirst, areLater⟩ := forall_mem_cons.mp isAscii
    rw [isUtf8, runeTail_ascii isFirst, drop_zero, ih areLater, Bool.and_true, isRune,
      decide_eq_true isFirst, Bool.true_or]

theorem parseItemKey_makeKey_sample :
    parseItemKey (makeKey "k".toList ["a,b".toList, "[".toList]) =
        some ("k".toList, ["a,b".toList, "[".toList]) ↔
      ∀ param ∈ ["a,b".toList, "[".toList], IsReadBack param :=
  parseItemKey_makeKey (by decide) (by simp [isKeyChar]) (by
    intro param member
    apply isUtf8_ascii
    simp only [mem_cons, not_mem_nil, or_false] at member
    obtain rfl | rfl := member
    · simp
    · simp)

/-- A parameter that begins with a bracket is not quoted, and read as an array. -/
theorem parseItemKey_makeKey_array :
    isUtf8 "[".toList = true ∧
      parseItemKey (makeKey "k".toList ["[".toList]) ≠ some ("k".toList, ["[".toList]) := by
  have isText : isUtf8 "[".toList = true := isUtf8_ascii (by simp)
  have isMade : makeKey "k".toList ["[".toList] =
      "k".toList ++ '[' :: (joinParams ["[".toList] ++ [']']) := rfl
  refine ⟨isText, fun found => ?_⟩
  rw [isMade, parseItemKey_params (by decide) (by simp [isKeyChar])] at found
  obtain ⟨⟨params, left⟩, isRead, isWhole⟩ := bind_eq_some_iff.mp found
  dsimp only at isWhole
  split_ifs at isWhole with isEmpty
  obtain rfl := (Prod.mk.inj (some.inj isWhole)).2
  obtain ⟨after, isParam⟩ := exists_parseParam isRead
  exact isReadBack_of_parseParam isText isParam rfl

end Zabbix.ItemKey.MakeKey
