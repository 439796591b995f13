import Zabbix.Common.Text

/-!
# Item keys in agent 2

The parser of the package `itemutil`.  A slice is the list of its bytes.  The texts
of the errors are not kept: `parseKey` returns the same error for each of them.
-/

namespace Zabbix.ItemKey.ItemUtil

open Common.Text Option

def isKeyChar (char : Char) (wildcard : Bool) : Bool :=
  ('a' ≤ char && char ≤ 'z') || (char == '.' || char == '-' || char == '_') ||
    ('0' ≤ char && char ≤ '9') || ('A' ≤ char && char ≤ 'Z') || (wildcard && char == '*')

/-- The loop of `parseQuotedParam` behind the character `last`: the text up to the closing
quote, and the data after it and after blanks. -/
def closingQuote (last : Char) : Text → Option (Text × Text)
  | [] => none
  | char :: rest =>
    if char = '"' ∧ last ≠ '\\' then some ([char], skipBlanks rest)
    else (closingQuote char rest).map fun (param, left) => (char :: param, left)

def parseQuotedParam (data : Text) : Option (Text × Text) :=
  (closingQuote '\x00' data.tail).map fun (param, left) => (data.take 1 ++ param, left)

def parseUnquotedParam : Text → Option (Text × Text)
  | [] => none
  | char :: rest =>
    if char = ',' ∨ char = ']' then some ([], char :: rest)
    else (parseUnquotedParam rest).map fun (param, left) => (char :: param, left)

/-- The data after an item of an array.  Where there are only blanks nothing is taken. -/
def arrayItem (data : Text) : Option Text :=
  match skipBlanks data with
  | [] => some data
  | char :: rest =>
    if char = '"' then (parseQuotedParam (char :: rest)).map Prod.snd
    else if char = '[' then none
    else (parseUnquotedParam (char :: rest)).map Prod.snd

variable {data param left rest : Text} {last char : Char}

theorem closingQuote_length (found : closingQuote last data = some (param, left)) :
    left.length < data.length := by
  induction data generalizing last param with
  | nil => cases found
  | cons char rest ih =>
    rw [closingQuote] at found
    split_ifs at found with isClosing
    · obtain ⟨rfl, rfl⟩ := Prod.mk.inj (some.inj found)
      exact Nat.lt_succ_of_le (length_skipBlanks_le rest)
    · obtain ⟨⟨later, after⟩, isLater, same⟩ := map_eq_some_iff.mp found
      obtain ⟨rfl, rfl⟩ := Prod.mk.inj same
      exact Nat.lt_succ_of_lt (ih isLater)

theorem parseQuotedParam_length (found : parseQuotedParam data = some (param, left)) :
    left.length ≤ data.length := by
  obtain ⟨⟨later, after⟩, isLater, same⟩ := map_eq_some_iff.mp found
  obtain ⟨rfl, rfl⟩ := Prod.mk.inj same
  have shorter := closingQuote_length isLater
  rw [List.length_tail] at shorter
  omega

theorem parseUnquotedParam_length (found : parseUnquotedParam data = some (param, left)) :
    left.length ≤ data.length := by
  induction data generalizing param with
  | nil => cases found
  | cons char rest ih =>
    rw [parseUnquotedParam] at found
    split_ifs at found with isDelimiter
    · obtain ⟨rfl, rfl⟩ := Prod.mk.inj (some.inj found)
      exact Nat.le_refl _
    · obtain ⟨⟨later, after⟩, isLater, same⟩ := map_eq_some_iff.mp found
      obtain ⟨rfl, rfl⟩ := Prod.mk.inj same
      exact Nat.le_succ_of_le (ih isLater)

theorem arrayItem_length (found : arrayItem data = some left) : left.length ≤ data.length := by
  have shorter := length_skipBlanks_le data
  unfold arrayItem at found
  split at found
  · obtain rfl := some.inj found
    exact Nat.le_refl _
  case h_2 char rest isRest =>
    rw [isRest] at shorter
    split_ifs at found
    · obtain ⟨⟨item, after⟩, isItem, rfl⟩ := map_eq_some_iff.mp found
      exact Nat.le_trans (parseQuotedParam_length isItem) shorter
    · obtain ⟨⟨item, after⟩, isItem, rfl⟩ := map_eq_some_iff.mp found
      exact Nat.le_trans (parseUnquotedParam_length isItem) shorter

/-- The loop of `parseArrayParam`: the data after the closing bracket. -/
def closingBracket (data : Text) : Option Text :=
  if data = [] then none
  else
    match _found : arrayItem data with
    | some (']' :: left) => some left
    | some (',' :: rest) => closingBracket rest
    | _ => none
termination_by data.length
decreasing_by
  have shorter := arrayItem_length _found
  exact Nat.lt_of_lt_of_le (Nat.lt_succ_self _) shorter

theorem closingBracket_length (found : closingBracket data = some left) :
    left.length < data.length := by
  fun_induction closingBracket data with
  | case1 => cases found
  | case2 data nonempty after isItem =>
    obtain rfl := some.inj found
    exact arrayItem_length isItem
  | case3 data nonempty rest isItem ih =>
    exact Nat.lt_trans (ih found) (arrayItem_length isItem)
  | case4 => cases found

def parseArrayParam (data : Text) : Option (Text × Text) :=
  (closingBracket data.tail).map fun left => (data.take (data.length - left.length), left)

/-- The loop of `unquoteParam` behind the character `last`. -/
def unquoteLoop (last : Char) : Text → Text
  | [] => []
  | char :: rest =>
    if char = '"' then if last ≠ '\\' then [] else char :: unquoteLoop char rest
    else
      let escape := if last = '\\' then ['\\'] else []
      if char = '\\' then escape ++ unquoteLoop char rest
      else escape ++ char :: unquoteLoop char rest

def unquoteParam (data : Text) : Text :=
  unquoteLoop '\x00' data.tail

/-- An item of an array, and the data after it; the data has a closing bracket. -/
def expandItem (data : Text) : Option (Text × Text) :=
  match skipBlanks data with
  | [] => none
  | char :: rest =>
    if char = '"' then parseQuotedParam (char :: rest) else parseUnquotedParam (char :: rest)

theorem expandItem_length (found : expandItem data = some (param, left)) :
    left.length ≤ data.length := by
  have shorter := length_skipBlanks_le data
  unfold expandItem at found
  split at found
  · cases found
  case h_2 char rest isRest =>
    rw [isRest] at shorter
    split_ifs at found
    · exact Nat.le_trans (parseQuotedParam_length found) shorter
    · exact Nat.le_trans (parseUnquotedParam_length found) shorter

/-- The loop of `expandArray`; it fails where the index of a slice is out of its range. -/
def expandLoop (data : Text) : Option Text :=
  if data = [] then some []
  else
    match _found : expandItem data with
    | some (param, char :: rest) =>
      if char = ']' then some param
      else (expandLoop rest).map fun later => param ++ ',' :: later
    | _ => none
termination_by data.length
decreasing_by
  have shorter := expandItem_length _found
  exact Nat.lt_of_lt_of_le (Nat.lt_succ_self _) shorter

def expandArray (data : Text) : Option Text :=
  expandLoop data.tail

def parseParam (data : Text) : Option (Text × Text) :=
  match skipBlanks data with
  | [] => none
  | char :: rest =>
    if char = '"' then
      (parseQuotedParam (char :: rest)).map fun (param, left) => (unquoteParam param, left)
    else if char = '[' then
      (parseArrayParam (char :: rest)).bind fun (param, left) =>
        (expandArray param).map fun param => (param, left)
    else if char = ']' ∨ char = ',' then some ([], char :: rest)
    else parseUnquotedParam (char :: rest)

theorem parseParam_length (found : parseParam data = some (param, left)) :
    left.length ≤ data.length := by
  have shorter := length_skipBlanks_le data
  unfold parseParam at found
  split at found
  · cases found
  case h_2 char rest isRest =>
    rw [isRest] at shorter
    split_ifs at found
    · obtain ⟨⟨quoted, after⟩, isQuoted, same⟩ := map_eq_some_iff.mp found
      obtain ⟨rfl, rfl⟩ := Prod.mk.inj same
      exact Nat.le_trans (parseQuotedParam_length isQuoted) shorter
    · obtain ⟨⟨array, after⟩, isArray, expanded⟩ := bind_eq_some_iff.mp found
      obtain ⟨value, -, same⟩ := map_eq_some_iff.mp expanded
      obtain ⟨later, isLater, same'⟩ := map_eq_some_iff.mp isArray
      obtain ⟨rfl, rfl⟩ := Prod.mk.inj same
      obtain ⟨rfl, rfl⟩ := Prod.mk.inj same'
      exact Nat.le_trans (Nat.le_succ_of_le (Nat.le_of_lt (closingBracket_length isLater))) shorter
    · obtain ⟨rfl, rfl⟩ := Prod.mk.inj (some.inj found)
      exact shorter
    · exact Nat.le_trans (parseUnquotedParam_length found) shorter

/-- The loop of `parseParams`: the parameters, and the data after the closing bracket. -/
def paramsLoop (data : Text) : Option (List Text × Text) :=
  match _found : parseParam data with
  | some (param, ']' :: left) => some ([param], left)
  | some (param, ',' :: rest) =>
    (paramsLoop rest).map fun (params, left) => (param :: params, left)
  | _ => none
termination_by data.length
decreasing_by
  have shorter := parseParam_length _found
  exact Nat.lt_of_lt_of_le (Nat.lt_succ_self _) shorter

def parseParams (data : Text) : Option (List Text × Text) :=
  match data with
  | '[' :: rest => paramsLoop rest
  | _ => none

/-- The name of a key, its parameters, and the data after it. -/
def parseKey (data : Text) (wildcard : Bool) : Option (Text × List Text × Text) :=
  let key := data.takeWhile fun char => isKeyChar char wildcard
  match data.dropWhile fun char => isKeyChar char wildcard with
  | [] => some (key, [], [])
  | char :: rest =>
    if key = [] then none
    else if char ≠ '[' then some (key, [], char :: rest)
    else (parseParams (char :: rest)).map fun (params, left) => (key, params, left)

def parseMetricKey (text : Text) (wildcard : Bool) : Option (Text × List Text) :=
  if text = [] then none
  else
    (parseKey text wildcard).bind fun (key, params, left) =>
      if left = [] then some (key, params) else none

/-- `ParseKey` -/
def parseItemKey (text : Text) : Option (Text × List Text) :=
  parseMetricKey text false

def parseWildcardKey (text : Text) : Option (Text × List Text) :=
  parseMetricKey text true

end Zabbix.ItemKey.ItemUtil
