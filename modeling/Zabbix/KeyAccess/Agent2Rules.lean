import Zabbix.ItemKey.ItemUtil
import Zabbix.KeyAccess.Agent2Wildcard
import Zabbix.KeyAccess.Rules
import Mathlib.Data.List.Sort

/-!
# Key access rules of agent 2

The package `keyaccess`.  The text of a pattern is used in messages only, and it is not
kept in its rule; `math.MaxInt32` as the index of a rule is `none`.
-/

namespace Zabbix.KeyAccess.Agent2Rules

open Common.Text
open ItemKey.ItemUtil (parseWildcardKey)
open Agent2Wildcard
open Rules (AccessType sysrunKey sysrunPattern minIndex)

structure Record where
  pattern : Text
  permission : AccessType
  line : Nat

structure Rule where
  permission : AccessType
  key : Text
  params : List Text
deriving DecidableEq

/-! ## Loading -/

/-- All `*` parameters are counted, and as many but one are cut off the end. -/
def cutRepeated (params : List Text) : List Text :=
  if 1 < params.count ['*'] then params.take (params.length - params.count ['*'] + 1) else params

def parse (permission : AccessType) (pattern : Text) : Option Rule :=
  (parseWildcardKey pattern).map fun (key, params) =>
    ⟨permission, minimize key, cutRepeated (params.map minimize)⟩

/-- The index of the first rule with the same key and parameters. -/
def findRule (rules : List Rule) (proto : Rule) : Option Nat :=
  rules.findIdx? fun r => proto.key == r.key && proto.params == r.params

def addRule (rules : List Rule) (rec : Record) : Option (List Rule) :=
  (parse rec.permission rec.pattern).map fun rule =>
    if (findRule rules rule).isSome then rules else rules ++ [rule]

/-- The rules from the index on move down by one; the last one is not cleared. -/
def shiftDown (rules : List Rule) (i : Nat) : List Rule :=
  rules.take i ++ rules.drop (i + 1) ++ rules.getLast?.toList

/-- The loop over the trailing `AllowKey` rules, with the number of rules that are kept. -/
def cutoffLoop : Nat → List Rule → Nat → List Rule × Nat
  | 0, rules, cutoff => (rules, cutoff)
  | i + 1, rules, cutoff =>
    match rules[i]? with
    | none => (rules, cutoff)
    | some rule =>
      if rule.permission ≠ .allow then (rules, cutoff)
      else if rule.key ≠ sysrunKey then cutoffLoop i (shiftDown rules i) (cutoff - 1)
      else cutoffLoop i rules cutoff

def isFullMatch (rule : Rule) : Bool :=
  rule.params.length == 0 && rule.key == ['*']

/-- The rules after one that matches every key are removed. -/
def removeUnreachable (rules : List Rule) : List Rule :=
  match rules.findIdx? isFullMatch with
  | some i => rules.take (i + 1)
  | none => rules

/-- `LoadRules` after the records are added. -/
def finishRules (rules : List Rule) : Option (List Rule) :=
  (parse .deny sysrunPattern).bind fun sysrunRule =>
    let sysrunIndex := findRule rules sysrunRule
    let rulesNum := if sysrunIndex.isSome then rules.length - 1 else rules.length
    let append (sysrunIndex : Option Nat) (rules : List Rule) :=
      if sysrunIndex = none then rules ++ [sysrunRule] else rules
    if rulesNum = 0 then some (append sysrunIndex rules)
    else
      let reached := removeUnreachable rules
      let (shifted, cutoff) := cutoffLoop reached.length reached reached.length
      if shifted.take cutoff = [] then none
      else
        some (append (minIndex sysrunIndex (rules.findIdx? isFullMatch)) (shifted.take cutoff))

def loadRules (allowRecords denyRecords : List Record) : Option (List Rule) :=
  let records := (allowRecords ++ denyRecords).mergeSort fun a b => a.line ≤ b.line
  (records.foldlM addRule []).bind finishRules

/-! ## Requests -/

/-- The loop over the parameters of a rule. -/
def paramsMatch : List Text → List Text → Bool
  | [], _ => false
  | [last], params =>
    if last = ['*'] then true
    else
      match params with
      | [] => false
      | param :: _ => wildcardMatch param last
  | _ :: _ :: _, [] => false
  | element :: elements, param :: params =>
    wildcardMatch param element && paramsMatch elements params

/-- Whether `CheckRules` returns at this rule. -/
def returns (rule : Rule) (key : Text) (params : List Text) : Bool :=
  let emptyParams := params == [[]]
  if rule.key = ['*'] ∧ rule.params = [] then true
  else if rule.params.getLast? = some ['*'] ∧ rule.params.length = 1 ∧ params = [] then false
  else if rule.params ≠ [] ∧ rule.params.getLast? ≠ some ['*'] ∧
      params.length < rule.params.length then false
  else if rule.params ≠ [] ∧ rule.params.getLast? ≠ some ['*'] ∧
      rule.params.length < params.length then false
  else if ¬wildcardMatch key rule.key then false
  else if rule.params = [] ∧ emptyParams then false
  else if rule.params = [] ∧ params = [] then true
  else paramsMatch rule.params params

def checkRules (rules : List Rule) (key : Text) (params : List Text) : Bool :=
  match rules.find? fun rule => returns rule key params with
  | some rule => rule.permission == .allow
  | none => true

end Zabbix.KeyAccess.Agent2Rules
