import Zabbix.KeyAccess.RuleMeaning

/-!
# Decisions

Removing duplicates, rules behind `*` and trailing `AllowKey` rules, and the rule that
is added for `system.run`, seen through the first rule that applies to a request.
-/

namespace Zabbix.KeyAccess.Decisions

open Common.Text Library.Wildcard ItemKey.Requests Rules Plain RuleMeaning List Option

def verdict (default : AccessType) (rules : List AccessRule) (covers : AccessRule → Bool) :
    AccessType :=
  match rules.find? covers with
  | some rule => rule.type
  | none => default

variable {default : AccessType} {rules before after stored final : List AccessRule}
  {rule other : AccessRule} {covers : AccessRule → Bool}

theorem verdict_of_covers (covered : covers rule = true) :
    verdict default (rule :: after) covers = rule.type := by
  rw [verdict, find?_cons_of_pos covered]

theorem verdict_of_not (notCovered : ¬covers rule = true) :
    verdict default (rule :: after) covers = verdict default after covers := by
  rw [verdict, find?_cons_of_neg notCovered, verdict]

theorem verdict_append (before after : List AccessRule) :
    verdict default (before ++ after) covers =
      verdict (verdict default after covers) before covers := by
  induction before with
  | nil => rfl
  | cons first later ih =>
    by_cases covered : covers first = true
    · rw [cons_append, verdict_of_covers covered, verdict_of_covers covered]
    · rw [cons_append, verdict_of_not covered, verdict_of_not covered, ih]

theorem verdict_of_mem {default' : AccessType} (isRule : rule ∈ rules) (covered : covers rule = true) :
    verdict default rules covers = verdict default' rules covers := by
  cases found : rules.find? covers with
  | none => exact absurd covered (find?_eq_none.mp found rule isRule)
  | some first => rw [verdict, verdict, found]

/-! ## Duplicates -/

/-- A rule is added at the end unless there is the same one. -/
def insertRule (rules : List AccessRule) (rule : AccessRule) : List AccessRule :=
  if rules.any fun r => isSameRule r rule then rules else rules ++ [rule]

/-- Rules that are the same cover the same requests. -/
def Respects (covers : AccessRule → Bool) : Prop :=
  ∀ rule other, isSameRule rule other = true → covers rule = covers other

theorem find?_insertRules (respects : Respects covers) (rules added : List AccessRule) :
    (added.foldl insertRule rules).find? covers = (rules ++ added).find? covers := by
  induction added generalizing rules with
  | nil => rw [append_nil, foldl_nil]
  | cons rule later ih =>
    rw [foldl_cons, ih, insertRule]
    split_ifs with isKnown
    · obtain ⟨known, isRule, isSame⟩ := List.any_eq_true.mp isKnown
      rw [find?_append, find?_append]
      cases found : rules.find? covers with
      | some first => rfl
      | none =>
        have notKnown := find?_eq_none.mp found known isRule
        rw [respects known rule isSame] at notKnown
        rw [find?_cons_of_neg notKnown]
    · rw [append_assoc, singleton_append]

theorem verdict_insertRules (respects : Respects covers) (default : AccessType)
    (added : List AccessRule) :
    verdict default (added.foldl insertRule []) covers = verdict default added covers := by
  rw [verdict, find?_insertRules respects, nil_append, verdict]

theorem loadRules_config (rules : List WrittenRule) :
    loadRules (config rules) = some ((rules.map ruleOf).foldl insertRule []) := by
  rw [loadRules, config]
  generalize ([] : List AccessRule) = stored
  induction rules generalizing stored with
  | nil => rfl
  | cons rule later ih =>
    have added : addKeyAccessRule stored rule.text rule.type =
        some (insertRule stored (ruleOf rule)) := by
      rw [addKeyAccessRule, parse_written, map_some, insertRule]
    rw [map_cons, foldlM_cons]
    change (addKeyAccessRule stored rule.text rule.type).bind _ = _
    rw [added]
    exact ih (insertRule stored (ruleOf rule))

/-! ## Trailing rules -/

/-- An `AllowKey` rule at the end decides as the default does. -/
theorem verdict_dropTrailing (rules : List AccessRule) :
    verdict .allow (dropTrailing rules).reverse covers = verdict .allow rules.reverse covers := by
  have last : ∀ {rule : AccessRule}, rule.type = .allow → verdict .allow [rule] covers = .allow := by
    intro rule isAllow
    by_cases covered : covers rule = true
    · rw [verdict_of_covers covered, isAllow]
    · rw [verdict_of_not covered]
      rfl
  induction rules with
  | nil => rfl
  | cons rule before ih =>
    rw [dropTrailing]
    split_ifs with isDeny isOther
    · rfl
    · rw [reverse_cons, verdict_append, last (not_not.mp isDeny), ih]
    · rw [reverse_cons, reverse_cons, verdict_append, verdict_append,
        last (not_not.mp isDeny), ih]

def isAllow (rule : AccessRule) : Bool :=
  rule.type == .allow

/-- The `AllowKey` rules at the end of a list. -/
def trailingAllow (rules : List AccessRule) : List AccessRule :=
  rules.reverse.takeWhile isAllow

theorem find?_dropTrailing
    (uncovered : ∀ rule ∈ rules.takeWhile isAllow, rule.key ≠ sysrunKey → ¬covers rule = true) :
    (dropTrailing rules).reverse.find? covers = rules.reverse.find? covers := by
  induction rules with
  | nil => rfl
  | cons rule before ih =>
    rw [dropTrailing]
    by_cases isDeny : rule.type ≠ .allow
    · rw [if_pos isDeny]
    · have allowed : isAllow rule = true := by simpa [isAllow] using isDeny
      rw [takeWhile_cons_of_pos allowed] at uncovered
      obtain ⟨isFirst, isLater⟩ := forall_mem_cons.mp uncovered
      rw [if_neg isDeny]
      split_ifs with isOther
      · rw [ih isLater, reverse_cons, find?_append,
          find?_cons_of_neg (isFirst isOther), find?_nil, or_none]
      · rw [reverse_cons, reverse_cons, find?_append, find?_append,
          ih isLater]

/-! ## The list in force -/

/-- The rule that is added for `system.run`. -/
def sysrunDeny : AccessRule :=
  ⟨.deny, sysrunKey, [['*']], false⟩

/-- A rule that is dropped covers a request for which the rule for `system.run` is added. -/
def Overlooked (stored : List AccessRule) (covers : AccessRule → Bool) : Prop :=
  covers sysrunDeny = true ∧
    (∀ rule ∈ stored, isSameRule rule sysrunDeny = false ∧ isMatchAll rule = false) ∧
      ∃ rule ∈ trailingAllow stored, rule.key ≠ sysrunKey ∧ covers rule = true

/-- The value `*`. -/
def starElement : ItemKey.Grammar.Element where
  before := 0
  content := .unquoted '*' []
  valid := ⟨by decide, by decide, by decide, rfl, fun _ member => (nomatch member)⟩

/-- The rule for `system.run`, as a parameter of the configuration. -/
def sysrunWritten (type : AccessType) : WrittenRule where
  type := type
  text := sysrunPattern
  pattern := ⟨sysrunKey, some [['*']]⟩
  reads :=
    { nonempty := by decide
      isName := List.all_eq_true.mp rfl
      isText := ⟨⟨.single starElement, []⟩, rfl, rfl⟩ }

theorem parse_sysrunPattern : parseKeyAccessRule .deny sysrunPattern = some sysrunDeny :=
  parse_written (sysrunWritten .deny)

theorem isSome_minIndex (first second : Option Nat) :
    (minIndex first second).isSome = (first.isSome || second.isSome) := by
  cases first with
  | none => rfl
  | some i =>
    cases second with
    | none => rfl
    | some j => rfl

theorem find?_take {i : Nat} (isRule : rules[i]? = some rule) (covered : covers rule = true) :
    (rules.take (i + 1)).find? covers = rules.find? covers := by
  have found : ∃ first, (rules.take (i + 1)).find? covers = some first := by
    apply isSome_iff_exists.mp
    rw [find?_isSome]
    exact ⟨rule, mem_of_getElem? ((getElem?_take_of_lt (Nat.lt_succ_self i)).trans isRule), covered⟩
  obtain ⟨first, isFirst⟩ := found
  have split := take_append_drop (i + 1) rules
  rw [isFirst, ← split, find?_append, isFirst]
  rfl

theorem find?_dropUnreachable (all : ∀ rule, isMatchAll rule = true → covers rule = true) :
    (dropUnreachable rules).find? covers = rules.find? covers := by
  rw [dropUnreachable]
  cases isAll : rules.findIdx? isMatchAll with
  | none => rfl
  | some i =>
    obtain ⟨within, covered, -⟩ := findIdx?_eq_some_iff_getElem.mp isAll
    exact find?_take (getElem?_eq_getElem within) (all _ covered)

/-- What is in force decides as the rules that were read, with the default for `system.run`. -/
theorem verdict_finalize (accepted : finalizeKeyAccessRulesConfiguration stored = some final)
    (respects : Respects covers) (all : ∀ rule, isMatchAll rule = true → covers rule = true)
    (seen : ¬Overlooked stored covers) :
    verdict .allow final covers =
      verdict (if covers sysrunDeny then .deny else .allow) stored covers := by
  have given : (stored.findIdx? fun r => isSameRule r sysrunDeny).isSome = true ∨
      (stored.findIdx? isMatchAll).isSome = true →
        verdict .allow stored covers =
          verdict (if covers sysrunDeny then .deny else .allow) stored covers := by
    intro isGiven
    split_ifs with isSysrun
    · rw [findIdx?_isSome, findIdx?_isSome, List.any_eq_true, List.any_eq_true] at isGiven
      rcases isGiven with ⟨rule, isRule, isSame⟩ | ⟨rule, isRule, isAll⟩
      · exact verdict_of_mem isRule ((respects rule sysrunDeny isSame).trans isSysrun)
      · exact verdict_of_mem isRule (all rule isAll)
    · rfl
  have appended : ∀ kept, verdict .allow (kept ++ [sysrunDeny]) covers =
      verdict (if covers sysrunDeny then .deny else .allow) kept covers := by
    intro kept
    rw [verdict_append]
    split_ifs with isSysrun
    · rw [verdict_of_covers isSysrun]
      rfl
    · rw [verdict_of_not isSysrun]
      rfl
  rw [finalizeKeyAccessRulesConfiguration, parse_sysrunPattern, bind_some] at accepted
  dsimp only at accepted
  by_cases few : (if (stored.findIdx? fun r => isSameRule r sysrunDeny).isSome = true then
      stored.length - 1 else stored.length) = 0
  · rw [if_pos few] at accepted
    obtain rfl := some.inj accepted
    by_cases isMissing : (stored.findIdx? fun r => isSameRule r sysrunDeny) = none
    · rw [if_pos isMissing]
      exact appended stored
    · rw [if_neg isMissing]
      exact given (Or.inl (isSome_iff_ne_none.mpr isMissing))
  · rw [if_neg few] at accepted
    have kept : verdict .allow (dropTrailing (dropUnreachable stored).reverse).reverse covers =
        verdict .allow stored covers := by
      rw [verdict_dropTrailing, reverse_reverse, verdict, find?_dropUnreachable all, verdict]
    split_ifs at accepted with isEmpty isMissing
    · obtain rfl := some.inj accepted
      have notGiven := congrArg isSome isMissing
      rw [isSome_minIndex, isSome_none, Bool.or_eq_false_iff, findIdx?_isSome,
        findIdx?_isSome, List.any_eq_false, List.any_eq_false] at notGiven
      have whole : dropUnreachable stored = stored := by
        rw [dropUnreachable, findIdx?_eq_none_iff.mpr]
        exact fun rule isRule => by simpa using notGiven.2 rule isRule
      rw [appended]
      split_ifs with isSysrun
      · have sameFirst : (dropTrailing stored.reverse).reverse.find? covers =
            stored.reverse.reverse.find? covers := by
          apply find?_dropTrailing
          intro rule isTrailing isOther covered
          apply seen
          refine ⟨isSysrun, fun other isRule => ?_, rule, isTrailing, isOther, covered⟩
          exact ⟨by simpa using notGiven.1 other isRule, by simpa using notGiven.2 other isRule⟩
        rw [whole, verdict, sameFirst, reverse_reverse, verdict]
      · exact kept
    · obtain rfl := some.inj accepted
      rw [kept]
      apply given
      rw [← ne_eq, ← isSome_iff_ne_none, isSome_minIndex, Bool.or_eq_true] at isMissing
      exact isMissing

end Zabbix.KeyAccess.Decisions
