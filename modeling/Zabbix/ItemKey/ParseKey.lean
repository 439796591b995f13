import Zabbix.Common.Text

/-!
# Finding the end of an item key

`parse_key` advances a pointer over an item key with its parameters.  A position
in the text is the rest of it, so the result is the text at the first character
that does not belong to the key.
-/

namespace Zabbix.ItemKey.ParseKey

open Common.Text

/-- Characters of an item key; only the ASCII letters and digits are alphanumeric. -/
def isKeyChar (char : Char) : Bool :=
  char.isAlphanum || char == '.' || char == '_' || char == '-'

/-- Where the parser of a parameter list is. -/
inductive ParamState where
  | init
  | quoted
  | unquoted
deriving DecidableEq

/--
The loop of `parse_key` over the parameters: whether the closing bracket was found,
and the text after it, or at the character where it failed.
-/
def parseParams (array : Bool) : ParamState → Text → Bool × Text
  | _, [] => (false, [])
  | .init, char :: rest =>
    if char = ',' then parseParams array .init rest
    else if char = '"' then parseParams array .quoted rest
    else if char = '[' then
      -- multi-level arrays are not allowed
      if array then (false, char :: rest) else parseParams true .init rest
    else if char = ']' ∧ array then
      let after := skipBlanks rest
      if after.head? = some ']' then (true, after.tail)
      else if after.head? ≠ some ',' then (false, after)
      else parseParams false .init after.tail
    else if char = ']' then (true, rest)
    else if char ≠ ' ' then parseParams array .unquoted rest
    else parseParams array .init rest
  | .quoted, char :: rest =>
    if char = '"' then
      let after := skipBlanks rest
      if array = false ∧ after.head? = some ']' then (true, after.tail)
      else if after.head? ≠ some ',' ∧ ¬(array ∧ after.head? = some ']') then (false, after)
      else parseParams array .init after
    else if char = '\\' ∧ rest.head? = some '"' then parseParams array .quoted rest.tail
    else parseParams array .quoted rest
  | .unquoted, char :: rest =>
    -- the delimiter is looked at once more in the initial state
    if char = ',' ∨ (char = ']' ∧ array) then parseParams array .init (char :: rest)
    else if char = ']' then (true, rest)
    else parseParams array .unquoted rest
termination_by state text => (text.length, if state = .unquoted then 1 else 0)
decreasing_by
  all_goals
    first
    | (apply Prod.Lex.left
       have := length_skipBlanks_le rest
       simp only [List.length_cons, List.length_tail]
       omega)
    | (apply Prod.Lex.right
       simp)

/-- Whether there is a valid key, and the text after it. -/
def parseKey (text : Text) : Bool × Text :=
  let rest := text.dropWhile isKeyChar
  if rest.length = text.length then (false, rest)
  else
    match rest with
    | '[' :: params => parseParams false .init params
    | _ => (true, rest)

/-- `parse_key` succeeds and stops at the end of the text. -/
def Consumes (text : Text) : Prop :=
  parseKey text = (true, [])

instance (text : Text) : Decidable (Consumes text) :=
  inferInstanceAs (Decidable (_ = _))

end Zabbix.ItemKey.ParseKey
