import Zabbix.ItemKey.Values
import Zabbix.KeyAccess.WildcardMatch

/-!
# Key access rules of the agent

The rules that `AllowKey` and `DenyKey` define, how the list of them is rewritten when
the configuration is read, and how a request is checked.  The first element of a rule
is its key; it is always there, so it is a field of its own.
-/

namespace Zabbix.KeyAccess.Rules

open Common.Text
open ItemKey.ParseKey (isKeyChar)
open ItemKey.Params ItemKey.Requests WildcardMatch

/-- `zbx_key_access_rule_type_t` -/
inductive AccessType where
  | allow
  | deny
deriving DecidableEq

/-- `zbx_key_access_rule_t`; the elements after the first are the parameters. -/
structure AccessRule where
  type : AccessType
  key : Text
  params : List Text
  emptyArguments : Bool
deriving DecidableEq

/-! ## Patterns -/

def isPatternChar (char : Char) : Bool :=
  isKeyChar char || char == '*'

/-- Several `*` parameters at the end become one. -/
def removeRepeated (params : List Text) : List Text :=
  match params.reverse with
  | [] => []
  | last :: others =>
    if last = ['*'] then (last :: others.dropWhile (· == ['*'])).reverse else params

def patternParams (pl : Text) : Option (List Text) :=
  (List.range (numParam pl)).mapM fun i =>
    (getParamDyn pl (i + 1)).map fun param => zbxWildcardMinimize param.1

def parseKeyAccessRule (type : AccessType) (pattern : Text) : Option AccessRule :=
  let key := pattern.takeWhile isPatternChar
  if key = [] then none
  else
    match pattern.dropWhile isPatternChar with
    | [] => some ⟨type, zbxWildcardMinimize key, [], false⟩
    | '[' :: rest =>
      if rest.getLast? ≠ some ']' then none
      else if rest.dropLast = [] then some ⟨type, zbxWildcardMinimize key, [], true⟩
      else
        (patternParams rest.dropLast).map fun params =>
          ⟨type, zbxWildcardMinimize key, removeRepeated params, false⟩
    | _ => none

/-- `compare_key_access_rules` finds no difference. -/
def isSameRule (a b : AccessRule) : Bool :=
  a.emptyArguments == b.emptyArguments && a.key == b.key && a.params == b.params

def addKeyAccessRule (rules : List AccessRule) (pattern : Text) (type : AccessType) :
    Option (List AccessRule) :=
  (parseKeyAccessRule type pattern).map fun rule =>
    if rules.any fun r => isSameRule r rule then rules else rules ++ [rule]

/-- The parameters of the configuration are read in their order. -/
def loadRules (config : List (AccessType × Text)) : Option (List AccessRule) :=
  config.foldlM (fun rules (type, pattern) => addKeyAccessRule rules pattern type) []

/-! ## The configuration -/

def sysrunKey : Text :=
  ['s', 'y', 's', 't', 'e', 'm', '.', 'r', 'u', 'n']

def sysrunPattern : Text :=
  sysrunKey ++ ['[', '*', ']']

def isMatchAll (rule : AccessRule) : Bool :=
  rule.key == ['*'] && rule.params == []

/-- The rules after `*` are thrown out. -/
def dropUnreachable (rules : List AccessRule) : List AccessRule :=
  match rules.findIdx? isMatchAll with
  | some i => rules.take (i + 1)
  | none => rules

/-- The loop over the trailing `AllowKey` rules, from the last rule on. -/
def dropTrailing : List AccessRule → List AccessRule
  | [] => []
  | rule :: before =>
    if rule.type ≠ .allow then rule :: before
    else if rule.key ≠ sysrunKey then dropTrailing before
    else rule :: dropTrailing before

def minIndex : Option Nat → Option Nat → Option Nat
  | none, index => index
  | index, none => index
  | some i, some j => some (min i j)

/-- The rules that are in force, or `none` where the agent exits. -/
def finalizeKeyAccessRulesConfiguration (rules : List AccessRule) : Option (List AccessRule) :=
  (parseKeyAccessRule .deny sysrunPattern).bind fun sysrunDeny =>
    let sysrunIndex := rules.findIdx? fun r => isSameRule r sysrunDeny
    let rulesNum := if sysrunIndex.isSome then rules.length - 1 else rules.length
    let append (sysrunIndex : Option Nat) (rules : List AccessRule) :=
      if sysrunIndex = none then rules ++ [sysrunDeny] else rules
    if rulesNum = 0 then some (append sysrunIndex rules)
    else
      let kept := (dropTrailing (dropUnreachable rules).reverse).reverse
      if kept = [] then none
      else some (append (minIndex sysrunIndex (rules.findIdx? isMatchAll)) kept)

/-! ## Requests -/

def requestParams (request : AgentRequest) : List Text :=
  request.params.map fun param => (param.map Prod.fst).getD []

/-- The loop over the parameters of a rule and of a request. -/
def paramsMatch : List Text → List Text → Bool
  | [], _ => false
  | [last], params =>
    if last = ['*'] then true
    else
      match params with
      | [] => false
      | param :: _ => zbxWildcardMatch param last
  | _ :: _ :: _, [] => false
  | element :: elements, param :: params =>
    zbxWildcardMatch param element && paramsMatch elements params

/-- Whether the check of a request ends at this rule. -/
def applies (rule : AccessRule) (key : Text) (params : List Text) : Bool :=
  let emptyArguments := params == [[]]
  if isMatchAll rule then true
  else if rule.params.getLast? = some ['*'] ∧ rule.params.length = 1 ∧ params = [] then false
  else if rule.params ≠ [] ∧ rule.params.getLast? ≠ some ['*'] ∧
      params.length < rule.params.length then false
  else if rule.params ≠ [] ∧ rule.params.getLast? ≠ some ['*'] ∧
      rule.params.length < params.length ∧ ¬emptyArguments then false
  else if ¬zbxWildcardMatch key rule.key then false
  else if rule.emptyArguments then emptyArguments
  else if emptyArguments ∧ rule.params = [] then false
  else if params = [] ∧ rule.params = [] then true
  else paramsMatch rule.params params

def checkRequestAccessRules (rules : List AccessRule) (key : Text) (params : List Text) :
    AccessType :=
  match rules.find? fun rule => applies rule key params with
  | some rule => rule.type
  | none => .allow

def checkKeyAccessRules (rules : List AccessRule) (metric : Text) : AccessType :=
  match parseItemKey metric with
  | some request => checkRequestAccessRules rules request.key (requestParams request)
  | none => .deny

end Zabbix.KeyAccess.Rules

/-!
# What key access rules say

The meaning of a pattern and of a list of rules, apart from the code that rewrites and
checks them.  A pattern has the syntax of an item key, with asterisks in its name.  The
first rule that covers a key decides.
-/

namespace Zabbix.KeyAccess.Plain

open Common.Text Library.Wildcard ItemKey.Grammar ItemKey.Values Rules

/-- The name of a pattern, and its parameters if there are brackets. -/
structure Pattern where
  name : Text
  params : Option (List Text)

/-- A text is a pattern with this name and these parameters.  Brackets around anything but
a list of parameters are read as if they were not there. -/
structure Reads (text : Text) (pattern : Pattern) : Prop where
  nonempty : pattern.name ≠ []
  isName : ∀ char ∈ pattern.name, isPatternChar char = true
  isText :
    match pattern.params with
    | none =>
      text = pattern.name ∨
        ∃ inside : Text, text = pattern.name ++ '[' :: (inside ++ [']']) ∧
          ¬∃ params : ParamList, inside = renderParams params
    | some elements =>
      ∃ params : ParamList,
        text = pattern.name ++ '[' :: (renderParams params ++ [']']) ∧
          elements = params.toList.map Param.value

/-- A parameter of `AllowKey` or `DenyKey` with a pattern. -/
structure WrittenRule where
  type : AccessType
  text : Text
  pattern : Pattern
  reads : Reads text pattern

def config (rules : List WrittenRule) : List (AccessType × Text) :=
  rules.map fun rule => (rule.type, rule.text)

/-! ## Patterns -/

/-- One asterisk or more, and nothing else. -/
def isStars (text : Text) : Bool :=
  text != [] && text.all (· == '*')

/-- The last parameter stands for any parameters. -/
def isOpen (elements : List Text) : Bool :=
  elements.getLast?.any isStars

/-- The parameters before the asterisks at the end. -/
def essential (elements : List Text) : List Text :=
  (elements.reverse.dropWhile isStars).reverse

/-- Each parameter is matched by its element. -/
def Match (elements params : List Text) : Prop :=
  List.Forall₂ (Matches '*') elements params

/--
A pattern covers a key with these parameters.  An asterisk alone covers every key; a
run of asterisks counts as one, and so does a run of parameters that are asterisks at
the end, which stand for any parameters.
-/
def Covers (pattern : Pattern) (key : Text) (params : List Text) : Prop :=
  match pattern.params with
  | none => isStars pattern.name = true ∨ (Matches '*' pattern.name key ∧ params = [])
  | some elements =>
    Matches '*' pattern.name key ∧
      if isOpen elements then
        params ≠ [] ∧ ∃ first rest, params = first ++ rest ∧ Match (essential elements) first
      else Match elements params

/-- The same where every asterisk counts: `name[p₁,…,*]` covers what `p₁,…` and any more
parameters match. -/
def StrictlyCovers (pattern : Pattern) (key : Text) (params : List Text) : Prop :=
  match pattern.params with
  | none => pattern.name = ['*'] ∨ (Matches '*' pattern.name key ∧ params = [])
  | some elements =>
    Matches '*' pattern.name key ∧
      if elements.getLast? = some ['*'] then
        params ≠ [] ∧ ∃ first rest, params = first ++ rest ∧ Match elements.dropLast first
      else Match elements params

/-! ## Lists of rules -/

/-- A rule for all of `system.run`, or for everything, is given. -/
def SysrunGiven (rules : List WrittenRule) : Prop :=
  ∃ rule ∈ rules, rule.text = sysrunPattern ∨ rule.text = ['*']

open Classical in
/-- The first rule that covers the key decides.  Without one `system.run` is denied with
parameters if no rule for it is given, and everything else is allowed. -/
noncomputable def decision (covers : Pattern → Text → List Text → Prop)
    (rules : List WrittenRule) (key : Text) (params : List Text) : AccessType :=
  match rules.find? fun rule => decide (covers rule.pattern key params) with
  | some rule => rule.type
  | none =>
    if key = sysrunKey ∧ params ≠ [] ∧ ¬SysrunGiven rules then .deny else .allow

/-- The pattern `*[]`, or one with more asterisks. -/
def IsEmptyAll (text : Text) : Prop :=
  ∃ stars, isStars stars = true ∧ text = stars ++ ['[', ']']

end Zabbix.KeyAccess.Plain
