import Zabbix.ItemKey.Agents
import Zabbix.KeyAccess.Decisions
import Mathlib.Data.List.Find

/-!
# The agent decides as written

The rules in force give a key the type of the first written rule that covers it, where
the repeated asterisks of a pattern count as one.
-/

namespace Zabbix.KeyAccess.Enforcement

open Common.Text Library.Wildcard List
open ItemKey.ParseKey (isKeyChar)
open ItemKey.Grammar ItemKey.Values ItemKey.Requests
open ItemKey.Agents (parse_name parse_params closed_iff params_render valueA)
open Rules Plain RuleMeaning Decisions

variable {rules : List WrittenRule} {stored final : List AccessRule} {key : Text}
  {params : List Text}

/-! ## Requests -/

theorem exists_request {name : Text} (isName : ∀ char ∈ name, isKeyChar char = true)
    (nonempty : name ≠ []) (list : ParamList) :
    ∃ request, parseItemKey (name ++ '[' :: (renderParams list ++ [']'])) = some request ∧
      request.key = name ∧ requestParams request = list.toList.map Param.value := by
  have parsed := (parse_params isName nonempty (renderParams list ++ [']'])).1
  rw [if_pos ((closed_iff _).mpr ⟨list, rfl⟩), dropLast_concat] at parsed
  have copied := congrArg (map fun param => Option.getD param []) (params_render list)
  rw [List.map_map, List.map_map] at copied
  refine ⟨_, parsed, rfl, ?_⟩
  rw [requestParams]
  refine Eq.trans ?_ (copied.trans ?_)
  · rw [List.map_map]
    rfl
  · rw [List.map_map]
    exact List.map_id _

/-! ## Rules -/

theorem respects_applies (key : Text) (params : List Text) :
    Respects fun rule => applies rule key params := by
  intro rule other isSame
  obtain ⟨type, ruleKey, elements, emptyArguments⟩ := rule
  obtain ⟨type', ruleKey', elements', emptyArguments'⟩ := other
  simp only [isSameRule, Bool.and_eq_true, beq_iff_eq] at isSame
  obtain ⟨⟨rfl, rfl⟩, rfl⟩ := isSame
  rfl

theorem applies_of_isMatchAll {rule : AccessRule} (isAll : isMatchAll rule = true) :
    applies rule key params = true := by
  rw [applies, if_pos isAll]

theorem ruleOf_type (rule : WrittenRule) : (ruleOf rule).type = rule.type := by
  unfold ruleOf
  split
  · rfl
  · split_ifs
    · rfl
    · rfl

/-- The rule for `system.run` covers it with parameters. -/
theorem applies_sysrunDeny :
    applies sysrunDeny key params = true ↔ key = sysrunKey ∧ params ≠ [] := by
  have notAll : ¬IsEmptyAll sysrunPattern := by
    rintro ⟨stars, -, same⟩
    have before := congrArg (fun text => text.dropLast.getLast?) same
    rw [List.append_cons, dropLast_concat, getLast?_concat] at before
    exact absurd before (by decide)
  refine (applies_ruleOf (sysrunWritten .deny) notAll key params).trans ?_
  have opened : isOpen [['*']] = true := by decide
  have noneEssential : essential [['*']] = [] := by decide
  have plain : ∀ char ∈ sysrunKey, char ≠ '*' := by simp [sysrunKey]
  change Matches '*' sysrunKey key ∧ (if isOpen [['*']] = true then _ else _) ↔ _
  rw [matches_text plain, if_pos opened, noneEssential]
  exact and_congr_right fun _ => and_iff_left ⟨[], params, rfl, List.Forall₂.nil⟩

theorem covers_of_given (noEmptyAll : ∀ rule ∈ rules, ¬IsEmptyAll rule.text) (isKey : key = sysrunKey)
    (isList : params ≠ []) (given : SysrunGiven rules) :
    ∃ rule ∈ rules, Covers rule.pattern key params := by
  obtain ⟨rule, isRule, isText⟩ := given
  refine ⟨rule, isRule, ?_⟩
  rw [← applies_ruleOf rule (noEmptyAll rule isRule)]
  have parsed := parse_written rule
  rcases isText with isSysrun | isStar
  · have same : ruleOf rule = ruleOf (sysrunWritten rule.type) := by
      rw [isSysrun] at parsed
      exact Option.some.inj (parsed.symm.trans (parse_written (sysrunWritten rule.type)))
    rw [same]
    exact applies_sysrunDeny.mpr ⟨isKey, isList⟩
  · have same : ruleOf rule = ⟨rule.type, ['*'], [], false⟩ := by
      rw [isStar] at parsed
      exact Option.some.inj (parsed.symm.trans rfl)
    rw [same]
    rfl

/-! ## The decision -/

theorem find?_map_ruleOf (covers : AccessRule → Bool) (default : AccessType)
    (rules : List WrittenRule) :
    verdict default (rules.map ruleOf) covers =
      match rules.find? fun rule => covers (ruleOf rule) with
      | some rule => rule.type
      | none => default := by
  rw [verdict, find?_map]
  cases found : rules.find? (covers ∘ ruleOf) with
  | none =>
    have same : (rules.find? fun rule => covers (ruleOf rule)) = none := found
    rw [same]
    rfl
  | some rule =>
    have same : (rules.find? fun rule => covers (ruleOf rule)) = some rule := found
    rw [same]
    exact ruleOf_type rule

open Classical in
theorem find?_ruleOf (noEmptyAll : ∀ rule ∈ rules, ¬IsEmptyAll rule.text) :
    (rules.find? fun rule => applies (ruleOf rule) key params) =
      rules.find? fun rule => decide (Covers rule.pattern key params) := by
  apply find?_congr
  intro rule isRule
  rw [Bool.eq_iff_iff, applies_ruleOf rule (noEmptyAll rule isRule), decide_eq_true_iff]

open Classical in
theorem verdict_written (noEmptyAll : ∀ rule ∈ rules, ¬IsEmptyAll rule.text) :
    verdict (if applies sysrunDeny key params then .deny else .allow) (rules.map ruleOf)
        (fun rule => applies rule key params) = decision Covers rules key params := by
  rw [find?_map_ruleOf (fun rule => applies rule key params), find?_ruleOf noEmptyAll, decision]
  cases found : rules.find? fun rule => decide (Covers rule.pattern key params) with
  | some rule => rfl
  | none =>
    have notGiven : key = sysrunKey → params ≠ [] → ¬SysrunGiven rules := by
      intro isKey isList given
      obtain ⟨rule, isRule, covered⟩ := covers_of_given noEmptyAll isKey isList given
      have notCovered := find?_eq_none.mp found rule isRule
      exact notCovered (decide_eq_true covered)
    by_cases isSysrun : key = sysrunKey ∧ params ≠ []
    · have denied : applies sysrunDeny key params = true := applies_sysrunDeny.mpr isSysrun
      have default : key = sysrunKey ∧ params ≠ [] ∧ ¬SysrunGiven rules :=
        ⟨isSysrun.1, isSysrun.2, notGiven isSysrun.1 isSysrun.2⟩
      simp only [if_pos denied, if_pos default]
    · have notDenied : ¬applies sysrunDeny key params = true :=
        fun denied => isSysrun (applies_sysrunDeny.mp denied)
      have notDefault : ¬(key = sysrunKey ∧ params ≠ [] ∧ ¬SysrunGiven rules) :=
        fun all => isSysrun ⟨all.1, all.2.1⟩
      simp only [if_neg notDenied, if_neg notDefault]

theorem exists_config {given : List (AccessType × Text)} (loaded : loadRules given = some stored) :
    ∃ rules, config rules = given := by
  rw [loadRules] at loaded
  generalize ([] : List AccessRule) = before at loaded
  induction given generalizing before with
  | nil => exact ⟨[], rfl⟩
  | cons first later ih =>
    obtain ⟨type, text⟩ := first
    rw [foldlM_cons] at loaded
    obtain ⟨next, isAdded, isLoaded⟩ := Option.bind_eq_some_iff.mp loaded
    obtain ⟨rule, parsed, -⟩ := Option.map_eq_some_iff.mp isAdded
    obtain ⟨pattern, reads⟩ := exists_written parsed
    obtain ⟨rules, rfl⟩ := ih next isLoaded
    exact ⟨⟨type, text, pattern, reads⟩ :: rules, rfl⟩

/-- `DenyKey=k[a,*,*]` -/
def repeatedStars : WrittenRule where
  type := .deny
  text := ['k', '[', 'a', ',', '*', ',', '*', ']']
  pattern := ⟨['k'], some [['a'], ['*'], ['*']]⟩
  reads :=
    { nonempty := cons_ne_nil _ _
      isName := forall_mem_singleton.mpr rfl
      isText := ⟨⟨.single valueA, [.single starElement, .single starElement]⟩, rfl, rfl⟩ }

end Zabbix.KeyAccess.Enforcement
