import Zabbix.ItemKey.ParseKey

/-!
# Parameter lists

`num_param` counts the parameters of a list, `get_param_len` measures one of them
and `get_param` copies it.  The last two are the same loop, which does something
different with every character that belongs to the parameter.

The counters of type `int` would overflow only in a list of 2^31 parameters, and
are natural numbers here.
-/

namespace Zabbix.ItemKey.Params

open Common.Text ParseKey List

def numParamLoop (array : Bool) (ret : Nat) : ParamState → Text → Nat
  | state, [] =>
    -- a quote or a bracket is missing
    if state = .quoted then 0 else if array then 0 else ret
  | .init, char :: rest =>
    if char = ',' then numParamLoop array (if array then ret else ret + 1) .init rest
    else if char = '"' then numParamLoop array ret .quoted rest
    else if char = '[' then if array then 0 else numParamLoop true ret .init rest
    else if char = ']' ∧ array then
      let after := skipBlanks rest
      if after.head? ≠ some ',' ∧ after ≠ [] then 0 else numParamLoop false ret .init after
    else if char = ']' then 0
    else if char ≠ ' ' then numParamLoop array ret .unquoted rest
    else numParamLoop array ret .init rest
  | .quoted, char :: rest =>
    if char = '"' then
      let after := skipBlanks rest
      if after.head? ≠ some ',' ∧ after ≠ [] ∧ (array = false ∨ after.head? ≠ some ']') then 0
      else numParamLoop array ret .init after
    else if char = '\\' ∧ rest.head? = some '"' then numParamLoop array ret .quoted rest.tail
    else numParamLoop array ret .quoted rest
  | .unquoted, char :: rest =>
    if char = ',' ∨ (char = ']' ∧ array) then numParamLoop array ret .init (char :: rest)
    else if char = ']' then 0
    else numParamLoop array ret .unquoted rest
termination_by state text => (text.length, if state = .unquoted then 1 else 0)
decreasing_by
  all_goals
    first
    | (apply Prod.Lex.left
       have := length_skipBlanks_le rest
       simp only [length_cons, length_tail]
       omega)
    | (apply Prod.Lex.right
       simp)

/-- The number of parameters, or 0 if the list is not valid. -/
def numParam (params : Text) : Nat :=
  numParamLoop false 1 .init params

/-! ## One parameter -/

/-- `zbx_request_parameter_type_t` -/
inductive RequestParameterType where
  | undefined
  | array
  | string
deriving DecidableEq

/-- What a loop does with the parameter: note its type, and take a character of it. -/
structure Collector (Value : Type) where
  note : RequestParameterType → Value → Value
  assign : Char → Value → Option Value

variable {Value : Type}

/-- Take a character if it belongs to the requested parameter. -/
def Collector.take (collector : Collector Value) (wanted : Bool) (char : Char) (value : Value) :
    Option Value :=
  if wanted then collector.assign char value else some value

def Collector.see (collector : Collector Value) (wanted : Bool) (type : RequestParameterType)
    (value : Value) : Value :=
  if wanted then collector.note type value else value

/-- The loop that `get_param` and `get_param_len` have in common. -/
def paramLoop (collector : Collector Value) (num : Nat) (array : Nat) (idx : Nat) (value : Value) :
    ParamState → Text → Option Value
  | state, [] =>
    if state = .quoted ∨ array ≠ 0 then none else if num ≤ idx then some value else none
  | .init, char :: rest =>
    let wanted := idx == num
    if char = ',' then
      if array = 0 then
        if num < idx + 1 then some value
        else paramLoop collector num array (idx + 1) value .init rest
      else
        (collector.take wanted char value).bind fun value =>
          paramLoop collector num array idx value .init rest
    else if char = '"' then
      (collector.take (wanted && array != 0) char (collector.see wanted .string value)).bind
        fun value => paramLoop collector num array idx value .quoted rest
    else if char = '[' then
      (collector.take (wanted && array != 0) char (collector.see wanted .array value)).bind
        fun value => paramLoop collector num (array + 1) idx value .init rest
    else if char = ']' ∧ array ≠ 0 then
      let array := array - 1
      (collector.take (wanted && array != 0) char value).bind fun value =>
        let after := skipBlanks rest
        if after.head? ≠ some ',' ∧ after ≠ [] ∧ (array = 0 ∨ after.head? ≠ some ']') then none
        else paramLoop collector num array idx value .init after
    else if char ≠ ' ' then
      (collector.take wanted char (collector.see wanted .string value)).bind fun value =>
        paramLoop collector num array idx value .unquoted rest
    else paramLoop collector num array idx value .init rest
  | .quoted, char :: rest =>
    let wanted := idx == num
    if char = '"' then
      (collector.take (wanted && array != 0) char value).bind fun value =>
        let after := skipBlanks rest
        if after.head? ≠ some ',' ∧ after ≠ [] ∧ (array = 0 ∨ after.head? ≠ some ']') then none
        else paramLoop collector num array idx value .init after
    else if char = '\\' ∧ rest.head? = some '"' then
      ((collector.take (wanted && array != 0) char value).bind (collector.take wanted '"')).bind
        fun value => paramLoop collector num array idx value .quoted rest.tail
    else
      (collector.take wanted char value).bind fun value =>
        paramLoop collector num array idx value .quoted rest
  | .unquoted, char :: rest =>
    if char = ',' ∨ (char = ']' ∧ array ≠ 0) then
      paramLoop collector num array idx value .init (char :: rest)
    else
      (collector.take (idx == num) char value).bind fun value =>
        paramLoop collector num array idx value .unquoted rest
termination_by state text => (text.length, if state = .unquoted then 1 else 0)
decreasing_by
  all_goals
    first
    | (apply Prod.Lex.left
       have := length_skipBlanks_le rest
       simp only [length_cons, length_tail]
       omega)
    | (apply Prod.Lex.right
       simp)

/-- `get_param_len` counts the characters. -/
def lengthCollector : Collector Nat where
  note _ size := size
  assign _ size := some (size + 1)

/-- `get_param` copies them to a buffer of a limited size, and keeps the first type. -/
def copyCollector (maxLen : Nat) : Collector (Text × RequestParameterType) where
  note type value := (value.1, if value.2 = .undefined then type else value.2)
  assign char value :=
    if value.1.length = maxLen then none else some (value.1 ++ [char], value.2)

def getParamLen (params : Text) (num : Nat) : Option Nat :=
  if 1 ≤ num then paramLoop lengthCollector num 0 1 0 .init params else some 0

def getParam (params : Text) (num maxLen : Nat) : Option (Text × RequestParameterType) :=
  if maxLen = 0 then none
  else if 1 ≤ num then
    paramLoop (copyCollector (maxLen - 1)) num 0 1 ([], .undefined) .init params
  else some ([], .undefined)

def getParamDyn (params : Text) (num : Nat) : Option (Text × RequestParameterType) :=
  (getParamLen params num).bind fun size => getParam params num (size + 1)

end Zabbix.ItemKey.Params

/-!
# Requests of the agent

`parse_item_key` splits an item key into its name and its parameters.  The list of
parameters is the text between the first opening bracket and the last character of
the key, which has to be a closing bracket.
-/

namespace Zabbix.ItemKey.Requests

open Common.Text ParseKey Params

/-- The result of `parse_command_dyn`, with what it copies. -/
inductive Command where
  | error
  | withoutParams (cmd : Text)
  | withParams (cmd param : Text)
deriving DecidableEq

def parseCommandDyn (command : Text) : Command :=
  let cmd := command.takeWhile isKeyChar
  if cmd = [] then .error
  else
    match command.dropWhile isKeyChar with
    | [] => .withoutParams cmd
    | '[' :: param =>
      if param.getLast? = some ']' then .withParams cmd param.dropLast else .error
    | _ => .error

/-- A parameter is `none` where `get_param_dyn` returns a null pointer. -/
structure AgentRequest where
  key : Text
  params : List (Option (Text × RequestParameterType))
deriving DecidableEq

def nparam (request : AgentRequest) : Nat :=
  request.params.length

def parseItemKey (itemkey : Text) : Option AgentRequest :=
  match parseCommandDyn itemkey with
  | .error => none
  | .withoutParams key => some ⟨key, []⟩
  | .withParams key params =>
    if numParam params = 0 then none
    else some ⟨key, (List.range (numParam params)).map fun i => getParamDyn params (i + 1)⟩

end Zabbix.ItemKey.Requests
