import Zabbix.KeyAccess.SameReading
import Zabbix.KeyAccess.Decisions

/-!
# Both agents

Lists of patterns in the agent and in agent 2.  What agent 2 does with the rules that
it reads alike is what the agent does.
-/

namespace Zabbix.KeyAccess.BothAgents

open List Option

open Common.Text Library.Wildcard ItemKey ItemKey.Grammar ItemKey.Requests ItemKey.Splitting
open ItemKey.Agents (Agree key_cases parse_noName parse_name parse_other parse_params
  agree_render agree_refused)
open WildcardMatch Rules
open Decisions (parse_sysrunPattern sysrunDeny)
open RuleMeaning (minimize_eq_star)
open Plain (isStars)
open SameReading
open Agent2Wildcard (wildcardMatch Sure wildcardMatch_eq_iff
  sure_of_zbxWildcardMatch)
open Agent2Rules (Rule Record findRule shiftDown cutoffLoop isFullMatch
  removeUnreachable finishRules returns checkRules)

variable {rules stored final : List AccessRule} {rule other : AccessRule}

/-! ## Single rules -/

/-- A rule with empty brackets has no parameters, and its key is not an asterisk. -/
def Kept (rule : AccessRule) : Prop :=
  rule.emptyArguments = true → rule.params = [] ∧ rule.key ≠ ['*']

/-- The rules are not `key[]` and `key` with one empty parameter. -/
def Apart (rule other : AccessRule) : Prop :=
  rule.key = other.key → rule.emptyArguments = true → other.params ≠ [[]]

theorem same_toAgent2 (kept : Kept rule) (keptOther : Kept other) (apart : Apart rule other)
    (apartOther : Apart other rule) :
    ((toAgent2 rule).key == (toAgent2 other).key &&
      (toAgent2 rule).params == (toAgent2 other).params) = isSameRule other rule := by
  obtain ⟨type, key, params, emptyArguments⟩ := rule
  obtain ⟨type', key', params', emptyArguments'⟩ := other
  rw [Bool.eq_iff_iff]
  simp only [toAgent2, isSameRule, Bool.and_eq_true, beq_iff_eq]
  cases emptyArguments with
  | false =>
    cases emptyArguments' with
    | false => simp [eq_comm]
    | true =>
      have isApart : key' = key → params ≠ [[]] := fun same => apartOther same rfl
      simp only [if_true, Bool.false_eq_true, if_false, Bool.true_eq_false, false_and, iff_false]
      exact fun both => isApart both.1.symm both.2
  | true =>
    obtain ⟨noParams, -⟩ := kept rfl
    cases emptyArguments' with
    | false =>
      have isApart : key = key' → params' ≠ [[]] := fun same => apart same rfl
      simp only [if_true, Bool.false_eq_true, if_false, false_and, iff_false]
      exact fun both => isApart both.1 both.2.symm
    | true =>
      obtain ⟨noParams', -⟩ := keptOther rfl
      have sameParams : params' = params := noParams'.trans noParams.symm
      simp [sameParams, eq_comm]

theorem isFullMatch_toAgent2 (kept : Kept rule) :
    isFullMatch (toAgent2 rule) = isMatchAll rule := by
  obtain ⟨type, key, params, emptyArguments⟩ := rule
  rw [Bool.eq_iff_iff]
  simp only [isFullMatch, toAgent2, isMatchAll, Bool.and_eq_true, beq_iff_eq, length_eq_zero_iff]
  cases emptyArguments with
  | false => exact and_comm
  | true =>
    obtain ⟨-, notStar⟩ := kept rfl
    exact iff_of_false (fun both => notStar both.2) fun both => notStar both.1

/-! ## Lists of rules -/

theorem findIdx?_congr {Item : Type} {first second : Item → Bool} {items : List Item}
    (same : ∀ item ∈ items, first item = second item) :
    items.findIdx? first = items.findIdx? second := by
  induction items with
  | nil => rfl
  | cons item later ih =>
    obtain ⟨isItem, isLater⟩ := forall_mem_cons.mp same
    rw [findIdx?_cons, findIdx?_cons, isItem, ih isLater]

theorem findRule_toAgent2 (kept : ∀ other ∈ rules, Kept other) (keptRule : Kept rule)
    (apart : ∀ other ∈ rules, Apart rule other ∧ Apart other rule) :
    findRule (rules.map toAgent2) (toAgent2 rule) = rules.findIdx? fun r => isSameRule r rule := by
  rw [findRule, findIdx?_map]
  apply findIdx?_congr
  intro other isRule
  exact same_toAgent2 keptRule (kept other isRule) (apart other isRule).1 (apart other isRule).2

theorem cutoffLoop_spec (before : List AccessRule) (after cleared : List Rule) :
    (cutoffLoop before.length (before.map toAgent2 ++ after ++ cleared)
        (before.length + after.length)).1.take
      (cutoffLoop before.length (before.map toAgent2 ++ after ++ cleared)
        (before.length + after.length)).2 =
      (dropTrailing before.reverse).reverse.map toAgent2 ++ after := by
  have whole : ∀ (kept : List AccessRule) (after cleared : List Rule),
      (kept.map toAgent2 ++ after ++ cleared).take (kept.length + after.length) =
        kept.map toAgent2 ++ after := by
    intro kept after cleared
    have sameLength : kept.length + after.length = (kept.map toAgent2 ++ after).length := by
      rw [length_append, length_map]
    rw [sameLength, take_left]
  induction before using reverseRecOn generalizing after cleared with
  | nil => exact whole [] after cleared
  | append_singleton before last ih =>
    have isLast : ((before ++ [last]).map toAgent2 ++ after ++ cleared)[before.length]? =
        some (toAgent2 last) := by
      simp
    rw [reverse_concat, dropTrailing, length_append, length_singleton, cutoffLoop, isLast]
    dsimp only
    by_cases isDeny : (toAgent2 last).permission ≠ .allow
    · have isDeny' : last.type ≠ .allow := isDeny
      rw [if_pos isDeny, if_pos isDeny', reverse_cons, reverse_reverse]
      have kept := whole (before ++ [last]) after cleared
      rw [length_append, length_singleton] at kept
      exact kept
    · have isAllow : ¬last.type ≠ .allow := isDeny
      rw [if_neg isDeny, if_neg isAllow]
      by_cases isOther : (toAgent2 last).key ≠ sysrunKey
      · have isOther' : last.key ≠ sysrunKey := isOther
        have shifted : shiftDown ((before ++ [last]).map toAgent2 ++ after ++ cleared)
            before.length = before.map toAgent2 ++ after ++ (cleared ++
              ((before ++ [last]).map toAgent2 ++ after ++ cleared).getLast?.toList) := by
          have isTaken : ((before ++ [last]).map toAgent2 ++ after ++ cleared).take before.length =
              before.map toAgent2 := by
            simp
          have isDropped : ((before ++ [last]).map toAgent2 ++ after ++ cleared).drop
              (before.length + 1) = after ++ cleared := by
            rw [append_assoc, drop_left' (by simp)]
          rw [shiftDown, isTaken, isDropped]
          simp only [append_assoc]
        have fewer : before.length + 1 + after.length - 1 = before.length + after.length := by
          omega
        rw [if_pos isOther, if_pos isOther', shifted, fewer]
        exact ih after _
      · have isSysrun : ¬last.key ≠ sysrunKey := isOther
        have moved : (before ++ [last]).map toAgent2 ++ after ++ cleared =
            before.map toAgent2 ++ (toAgent2 last :: after) ++ cleared := by
          simp
        have same : before.length + 1 + after.length =
            before.length + (toAgent2 last :: after).length := by
          rw [length_cons]
          omega
        rw [if_neg isOther, if_neg isSysrun, moved, same, ih]
        simp

/-- The pattern for `system.run` is read alike. -/
theorem parse_sysrun : Agent2Rules.parse .deny sysrunPattern = some (toAgent2 sysrunDeny) := by
  have alike : ReadAlike sysrunPattern := by
    intro name inside nonempty isName same
    obtain ⟨isTaken, isDropped⟩ := @split_while name '[' isPatternChar isName (by decide)
      (inside ++ [']'])
    rw [← same] at isTaken isDropped
    obtain rfl : ['*'] = inside := by
      have isRest : ['[', '*', ']'] = '[' :: (inside ++ [']']) := isDropped
      exact append_cancel_right (cons.inj isRest).2
    refine ⟨fun isEmpty => (nomatch isEmpty), ⟨.single Decisions.starElement, []⟩, rfl, ?_, ?_, ?_⟩
    · intro item member
      rw [mem_singleton.mp member]
      trivial
    · exact Or.inl (by decide)
    · intro value member
      rw [mem_singleton.mp member]
      exact isUtf8_ascii (forall_mem_singleton.mpr (by decide))
  rw [parse_toAgent2 alike, parse_sysrunPattern, map_some]

variable (kept : ∀ rule ∈ stored, Kept rule)

include kept

theorem fullMatch_toAgent2 :
    (stored.map toAgent2).findIdx? isFullMatch = stored.findIdx? isMatchAll := by
  rw [findIdx?_map]
  exact findIdx?_congr fun rule isRule => isFullMatch_toAgent2 (kept rule isRule)

theorem removeUnreachable_toAgent2 :
    removeUnreachable (stored.map toAgent2) = (dropUnreachable stored).map toAgent2 := by
  rw [removeUnreachable, fullMatch_toAgent2 kept, dropUnreachable]
  cases stored.findIdx? isMatchAll with
  | none => rfl
  | some i => exact map_take.symm

theorem finishRules_toAgent2 :
    finishRules (stored.map toAgent2) =
      (finalizeKeyAccessRulesConfiguration stored).map (map toAgent2) := by
  have sysrunIndex : findRule (stored.map toAgent2) (toAgent2 sysrunDeny) =
      stored.findIdx? fun r => isSameRule r sysrunDeny := by
    apply findRule_toAgent2 kept
    · exact fun isEmpty => (nomatch isEmpty)
    · exact fun other _ => ⟨fun _ isEmpty => (nomatch isEmpty), fun _ _ isEmpty => (nomatch isEmpty)⟩
  have appended : ∀ (index : Option Nat) (rules : List AccessRule),
      (if index = none then rules.map toAgent2 ++ [toAgent2 sysrunDeny] else rules.map toAgent2) =
        (if index = none then rules ++ [sysrunDeny] else rules).map toAgent2 := by
    intro index rules
    split_ifs
    · rw [map_append, map_singleton]
    · rfl
  have trimmed := cutoffLoop_spec (dropUnreachable stored) [] []
  rw [append_nil, append_nil, append_nil, length_nil, Nat.add_zero] at trimmed
  rw [finishRules, parse_sysrun, finalizeKeyAccessRulesConfiguration, parse_sysrunPattern,
    bind_some, bind_some, sysrunIndex]
  dsimp only
  rw [removeUnreachable_toAgent2 kept, fullMatch_toAgent2 kept, length_map, length_map, trimmed,
    appended, appended]
  simp only [map_eq_nil_iff]
  split_ifs
  all_goals rfl

omit kept

/-! ## Loading -/

def parsedRules (given : List (AccessType × Text)) : List AccessRule :=
  given.filterMap fun (type, text) => parseKeyAccessRule type text

/--
Both agents load the list alike: each pattern is read alike, and no key is there both
with empty brackets and with one empty parameter in another form.
-/
structure LoadAlike (given : List (AccessType × Text)) : Prop where
  alike : ∀ rule ∈ given, ReadAlike rule.2
  apart : ∀ rule ∈ parsedRules given, ∀ other ∈ parsedRules given, Apart rule other

variable {given : List (AccessType × Text)}

theorem kept_parsed {type : AccessType} {text : Text} (alike : ReadAlike text)
    (parsed : parseKeyAccessRule type text = some rule) : Kept rule := by
  have split := takeWhile_append_dropWhile (p := isPatternChar) (l := text)
  have isName : ∀ char ∈ text.takeWhile isPatternChar, isPatternChar char = true :=
    fun _ => mem_takeWhile_imp
  rw [parseKeyAccessRule] at parsed
  generalize text.takeWhile isPatternChar = name at parsed split isName
  generalize text.dropWhile isPatternChar = rest at parsed split
  split_ifs at parsed with isEmpty
  split at parsed
  · obtain rfl := some.inj parsed
    exact fun isTrue => by cases isTrue
  case h_2 later =>
    split_ifs at parsed with notClosed isNil
    · obtain rfl := some.inj parsed
      have isLater : later = [] ++ [']'] := by
        have whole := dropLast_append_getLast? ']' (not_not.mp notClosed)
        rw [isNil] at whole
        exact whole.symm
      rw [isLater] at split
      have notStars := (alike name [] isEmpty isName split.symm).1 rfl
      exact fun _ => ⟨rfl, fun isStar => Bool.eq_false_iff.mp notStars (minimize_eq_star.mp isStar)⟩
    · obtain ⟨params, -, rfl⟩ := map_eq_some_iff.mp parsed
      exact fun isTrue => by cases isTrue
  · cases parsed

theorem addRule_toAgent2 (kept : ∀ other ∈ stored, Kept other) {record : Record}
    (alike : ReadAlike record.pattern)
    (apart : ∀ rule, parseKeyAccessRule record.permission record.pattern = some rule →
      ∀ other ∈ stored, Apart rule other ∧ Apart other rule) :
    Agent2Rules.addRule (stored.map toAgent2) record =
      (addKeyAccessRule stored record.pattern record.permission).map (map toAgent2) := by
  rw [Agent2Rules.addRule, addKeyAccessRule, parse_toAgent2 alike]
  cases parsed : parseKeyAccessRule record.permission record.pattern with
  | none => rfl
  | some rule =>
    have found := findRule_toAgent2 kept (kept_parsed alike parsed) (apart rule parsed)
    rw [map_some, map_some, map_some, map_some, found, findIdx?_isSome]
    split_ifs
    · rfl
    · rw [map_append, map_singleton]

theorem mem_addKeyAccessRule {type : AccessType} {text : Text} {next : List AccessRule}
    (added : addKeyAccessRule stored text type = some next) :
    ∃ rule, parseKeyAccessRule type text = some rule ∧ ∀ other ∈ next, other ∈ stored ∨ other = rule := by
  obtain ⟨rule, parsed, rfl⟩ := map_eq_some_iff.mp added
  refine ⟨rule, parsed, fun other member => ?_⟩
  split_ifs at member
  · exact Or.inl member
  · exact (mem_append.mp member).imp_right mem_singleton.mp

def configOf (records : List Record) : List (AccessType × Text) :=
  records.map fun record => (record.permission, record.pattern)

/-- The agent adds a parameter of its configuration. -/
def addPattern (rules : List AccessRule) (rule : AccessType × Text) : Option (List AccessRule) :=
  addKeyAccessRule rules rule.2 rule.1

theorem addRules_toAgent2 (records : List Record) (stored : List AccessRule)
    (alike : ∀ record ∈ records, ReadAlike record.pattern) (kept : ∀ rule ∈ stored, Kept rule)
    (apart : ∀ rule ∈ stored ++ parsedRules (configOf records),
      ∀ other ∈ stored ++ parsedRules (configOf records), Apart rule other) :
    records.foldlM Agent2Rules.addRule (stored.map toAgent2) =
        ((configOf records).foldlM addPattern stored).map (map toAgent2) ∧
      ∀ loaded, (configOf records).foldlM addPattern stored = some loaded →
        ∀ rule ∈ loaded, Kept rule := by
  induction records generalizing stored with
  | nil =>
    refine ⟨rfl, fun loaded isLoaded => ?_⟩
    obtain rfl := some.inj isLoaded
    exact kept
  | cons record later ih =>
    obtain ⟨isAlike, laterAlike⟩ := forall_mem_cons.mp alike
    have isConfig : configOf (record :: later) =
        (record.permission, record.pattern) :: configOf later := rfl
    have isParsed : ∀ {rule}, parseKeyAccessRule record.permission record.pattern = some rule →
        parsedRules (configOf (record :: later)) = rule :: parsedRules (configOf later) := by
      intro rule parsed
      exact filterMap_cons_some parsed
    have added := addRule_toAgent2 kept isAlike fun rule parsed other isRule => by
      have isFirst : rule ∈ stored ++ parsedRules (configOf (record :: later)) := by
        rw [isParsed parsed]
        exact mem_append_right _ (mem_cons_self ..)
      have isStored := mem_append_left (parsedRules (configOf (record :: later))) isRule
      exact ⟨apart rule isFirst other isStored, apart other isStored rule isFirst⟩
    rw [foldlM_cons, isConfig, foldlM_cons, added, addPattern]
    cases isNext : addKeyAccessRule stored record.pattern record.permission with
    | none =>
      refine ⟨rfl, fun loaded isLoaded => ?_⟩
      cases isLoaded
    | some next =>
      obtain ⟨rule, parsed, members⟩ := mem_addKeyAccessRule isNext
      apply ih next laterAlike
      · intro other member
        rcases members other member with isStored | rfl
        · exact kept other isStored
        · exact kept_parsed isAlike parsed
      · rw [isParsed parsed] at apart
        have isKnown : ∀ other ∈ next ++ parsedRules (configOf later),
            other ∈ stored ++ rule :: parsedRules (configOf later) := by
          intro other member
          rcases mem_append.mp member with isNext | isLater
          · rcases members other isNext with isStored | rfl
            · exact mem_append_left _ isStored
            · exact mem_append_right _ (mem_cons_self ..)
          · exact mem_append_right _ (mem_cons_of_mem _ isLater)
        exact fun first isFirst second isSecond =>
          apart first (isKnown first isFirst) second (isKnown second isSecond)

theorem sort_records {records : List Record} (ordered : records.Pairwise fun a b => a.line < b.line) :
    (records.filter (·.permission == .allow) ++ records.filter (·.permission != .allow)).mergeSort
      (fun a b => a.line ≤ b.line) = records := by
  have permuted := filter_append_perm (fun record : Record => record.permission == .allow) records
  have sorted := @pairwise_mergeSort Record (fun a b => a.line ≤ b.line)
    (fun a b c => by simpa using Nat.le_trans) (fun a b => by simpa using Nat.le_total a.line b.line)
    (records.filter (·.permission == .allow) ++ records.filter (·.permission != .allow))
  have atMost : records.Pairwise fun a b => decide (a.line ≤ b.line) = true :=
    ordered.imp fun isLess => decide_eq_true (Nat.le_of_lt isLess)
  have sameRecords := (mergeSort_perm (records.filter (·.permission == .allow) ++
    records.filter (·.permission != .allow)) fun a b => decide (a.line ≤ b.line)).trans permuted
  apply List.Perm.eq_of_pairwise _ sorted atMost sameRecords
  intro first second isFirst isSecond isLe isGe
  have sameLine : first.line = second.line :=
    Nat.le_antisymm (of_decide_eq_true isLe) (of_decide_eq_true isGe)
  have distinct : (records.map Record.line).Nodup :=
    (pairwise_map.mpr ordered).imp Nat.ne_of_lt
  exact inj_on_of_nodup_map distinct (sameRecords.mem_iff.mp isFirst) isSecond sameLine

theorem loadRules_toAgent2 {records : List Record}
    (ordered : records.Pairwise fun a b => a.line < b.line)
    (same : LoadAlike (configOf records)) :
    Agent2Rules.loadRules (records.filter (·.permission == .allow))
        (records.filter (·.permission != .allow)) =
      ((loadRules (configOf records)).bind finalizeKeyAccessRulesConfiguration).map
        (map toAgent2) := by
  have alike : ∀ record ∈ records, ReadAlike record.pattern :=
    fun record isRecord => same.alike _ (List.mem_map.mpr ⟨record, isRecord, rfl⟩)
  obtain ⟨added, kept⟩ := addRules_toAgent2 records [] alike (fun _ member => (nomatch member)) same.apart
  have isLoad : loadRules (configOf records) = (configOf records).foldlM addPattern [] := rfl
  rw [Agent2Rules.loadRules, sort_records ordered, isLoad]
  have added : records.foldlM Agent2Rules.addRule [] = _ := added
  rw [added]
  cases isLoaded : (configOf records).foldlM addPattern [] with
  | none => rfl
  | some loaded => exact finishRules_toAgent2 (kept loaded isLoaded)

/-! ## Requests -/

variable {key : Text} {params elements : List Text}

theorem paramsMatch_of_sure (sure : ∀ pair ∈ params.zip elements, Sure pair.1 pair.2) :
    Agent2Rules.paramsMatch elements params = paramsMatch elements params := by
  fun_induction paramsMatch elements params with
  | case1 params => rfl
  | case2 params => exact if_pos rfl
  | case3 last notStar => exact if_neg notStar
  | case4 last notStar param rest =>
    have isSure := sure (param, last) (mem_cons_self ..)
    have matched := (wildcardMatch_eq_iff _ _).mpr isSure
    exact (if_neg notStar).trans matched
  | case5 element next later => rfl
  | case6 element elements param params nonempty ih =>
    have isSure := sure (param, element) (mem_cons_self ..)
    have matched := (wildcardMatch_eq_iff _ _).mpr isSure
    have isLater := ih fun pair member => sure pair (mem_cons_of_mem _ member)
    rw [← matched, ← isLater]
    cases elements with
    | nil => exact absurd rfl nonempty
    | cons next later => rfl

theorem sure_star (param : Text) : Sure param ['*'] :=
  sure_of_zbxWildcardMatch ((zbxWildcardMatch_iff _ _).mpr (matches_singleton param))

theorem sure_of_paramsMatch (isMatch : paramsMatch elements params = true) :
    ∀ pair ∈ params.zip elements, Sure pair.1 pair.2 := by
  fun_induction paramsMatch elements params with
  | case1 params => cases isMatch
  | case2 params =>
    intro pair member
    have isStar := mem_singleton.mp (of_mem_zip member).2
    rw [isStar]
    exact sure_star pair.1
  | case3 last notStar => cases isMatch
  | case4 last notStar param rest =>
    intro pair member
    rw [zip_cons_cons, zip_nil_right, mem_singleton] at member
    rw [member]
    exact sure_of_zbxWildcardMatch isMatch
  | case5 element next later => cases isMatch
  | case6 element elements param params nonempty ih =>
    obtain ⟨isFirst, isLater⟩ := Bool.and_eq_true_iff.mp isMatch
    intro pair member
    rw [zip_cons_cons] at member
    rcases mem_cons.mp member with rfl | isRest
    · exact sure_of_zbxWildcardMatch isFirst
    · exact ih isLater pair isRest

theorem wildcardMatch_empty (value : Text) : wildcardMatch value [] = (value == []) := by
  rw [Agent2Wildcard.wildcardMatch, Agent2Wildcard.prefixLoop]
  rfl

/-- `Match` is right for the key, and for the parameters if the key matches. -/
def SureRule (rule : AccessRule) (key : Text) (params : List Text) : Prop :=
  Sure key rule.key ∧
    (zbxWildcardMatch key rule.key = true → ∀ pair ∈ params.zip rule.params, Sure pair.1 pair.2)

theorem returns_toAgent2 (kept : Kept rule)
    (sure : isMatchAll rule = true ∨ SureRule rule key params) :
    returns (toAgent2 rule) key params = applies rule key params := by
  obtain ⟨type, ruleKey, elements, emptyArguments⟩ := rule
  have all : (ruleKey = ['*'] ∧ elements = []) ↔
      isMatchAll ⟨type, ruleKey, elements, emptyArguments⟩ = true := by
    simp [isMatchAll]
  cases emptyArguments with
  | true =>
    obtain ⟨noElements, notStar⟩ := kept rfl
    obtain rfl : elements = [] := noElements
    have notAll : ¬isMatchAll ⟨type, ruleKey, [], true⟩ = true :=
      fun isAll => notStar (all.mpr isAll).1
    have matched := (wildcardMatch_eq_iff _ _).mpr (sure.resolve_left notAll).1
    rw [returns, applies, if_neg notAll]
    simp only [toAgent2, if_true, matched]
    rcases params with _ | ⟨param, rest⟩
    · simp
    · rcases rest with _ | ⟨next, later⟩
      · simp [Agent2Rules.paramsMatch, wildcardMatch_empty]
      · simp
  | false =>
    rw [returns, applies]
    simp only [toAgent2, Bool.false_eq_true, if_false, all]
    by_cases isAll : isMatchAll ⟨type, ruleKey, elements, false⟩ = true
    · rw [if_pos isAll, if_pos isAll]
    · obtain ⟨sureKey, sureParams⟩ := sure.resolve_left isAll
      have matched : wildcardMatch key ruleKey = zbxWildcardMatch key ruleKey :=
        (wildcardMatch_eq_iff _ _).mpr sureKey
      have oneEmpty : elements ≠ [] → elements.length < params.length →
          ¬(params == [[]]) = true := by
        intro nonempty longer isEmpty
        rw [beq_iff_eq.mp isEmpty] at longer
        exact nonempty (eq_nil_of_length_eq_zero (Nat.lt_one_iff.mp longer))
      have tooMany : (elements ≠ [] ∧ elements.getLast? ≠ some ['*'] ∧
          elements.length < params.length ∧ ¬(params == [[]]) = true) ↔
            (elements ≠ [] ∧ elements.getLast? ≠ some ['*'] ∧ elements.length < params.length) :=
        ⟨fun all => ⟨all.1, all.2.1, all.2.2.1⟩,
          fun all => ⟨all.1, all.2.1, all.2.2, oneEmpty all.1 all.2.2⟩⟩
      simp only [isAll, matched, tooMany, and_comm (b := elements = [])]
      by_cases isMatch : zbxWildcardMatch key ruleKey = true
      · rw [paramsMatch_of_sure (sureParams isMatch)]
      · simp only [isMatch]
        simp

/-- Where the agent ends, agent 2 is right. -/
theorem sure_of_applies (kept : Kept rule) (applied : applies rule key params = true) :
    isMatchAll rule = true ∨ SureRule rule key params := by
  rw [applies] at applied
  split_ifs at applied with isAll one few many isMatch isEmpty noneGiven neither
  · exact Or.inl isAll
  · refine Or.inr ⟨sure_of_zbxWildcardMatch isMatch, fun _ => ?_⟩
    rw [(kept isEmpty).1, zip_nil_right]
    simp
  · refine Or.inr ⟨sure_of_zbxWildcardMatch isMatch, fun _ => ?_⟩
    rw [neither.2, zip_nil_right]
    simp
  · exact Or.inr ⟨sure_of_zbxWildcardMatch isMatch,
      fun _ => sure_of_paramsMatch applied⟩

theorem checkRules_toAgent2 (kept : ∀ rule ∈ final, Kept rule)
    (sure : ∀ rule ∈ final.takeWhile fun rule => !applies rule key params,
      SureRule rule key params) :
    checkRules (final.map toAgent2) key params = true ↔
      checkRequestAccessRules final key params = .allow := by
  have sameFirst : (final.map toAgent2).find? (fun rule => returns rule key params) =
      (final.find? fun rule => applies rule key params).map toAgent2 := by
    induction final with
    | nil => rfl
    | cons rule later ih =>
      obtain ⟨isKept, laterKept⟩ := forall_mem_cons.mp kept
      by_cases applied : applies rule key params = true
      · have returned := (returns_toAgent2 isKept (sure_of_applies isKept applied)).trans applied
        simp only [map_cons, find?_cons, returned, applied, map_some]
      · rw [takeWhile_cons_of_pos (by simpa using applied)] at sure
        obtain ⟨isSure, laterSure⟩ := forall_mem_cons.mp sure
        have notReturned := (returns_toAgent2 isKept (Or.inr isSure)).trans
          (Bool.eq_false_iff.mpr applied)
        simp only [map_cons, find?_cons, notReturned, Bool.eq_false_iff.mpr applied]
        exact ih laterKept laterSure
  rw [checkRules, sameFirst, checkRequestAccessRules]
  cases final.find? fun rule => applies rule key params with
  | none => exact iff_of_true rfl rfl
  | some rule => exact beq_iff_eq

/-! ## The agents -/

theorem sublist_dropTrailing (rules : List AccessRule) : (dropTrailing rules).Sublist rules := by
  induction rules with
  | nil => exact List.Sublist.refl _
  | cons rule before ih =>
    rw [dropTrailing]
    split_ifs
    · exact List.Sublist.refl _
    · exact ih.cons rule
    · exact ih.cons_cons rule

/-- The rules in force are among those that were read, besides the one for `system.run`. -/
theorem mem_finalize (accepted : finalizeKeyAccessRulesConfiguration stored = some final)
    (isRule : rule ∈ final) : rule ∈ stored ∨ rule = sysrunDeny := by
  have appended : ∀ (index : Option Nat) (rules : List AccessRule),
      rule ∈ (if index = none then rules ++ [sysrunDeny] else rules) →
        rule ∈ rules ∨ rule = sysrunDeny := by
    intro index rules member
    split_ifs at member
    · exact (mem_append.mp member).imp_right mem_singleton.mp
    · exact Or.inl member
  have kept : ∀ rule ∈ (dropTrailing (dropUnreachable stored).reverse).reverse, rule ∈ stored := by
    intro rule member
    have isReached := (sublist_dropTrailing _).mem (mem_reverse.mp member)
    rw [mem_reverse, dropUnreachable] at isReached
    split at isReached
    · exact mem_of_mem_take isReached
    · exact isReached
  rw [finalizeKeyAccessRulesConfiguration, parse_sysrunPattern, bind_some] at accepted
  dsimp only at accepted
  by_cases few : (if (stored.findIdx? fun r => isSameRule r sysrunDeny).isSome = true then
      stored.length - 1 else stored.length) = 0
  · rw [if_pos few] at accepted
    obtain rfl := some.inj accepted
    exact appended _ _ isRule
  · rw [if_neg few] at accepted
    by_cases isEmpty : (dropTrailing (dropUnreachable stored).reverse).reverse = []
    · rw [if_pos isEmpty] at accepted
      cases accepted
    · rw [if_neg isEmpty] at accepted
      obtain rfl := some.inj accepted
      exact (appended _ _ isRule).imp_left (kept rule)

theorem same_request {metric key : Text} {params : List Text} {request : AgentRequest}
    (isRequest : parseItemKey metric = some request)
    (isRequest2 : ItemUtil.parseItemKey metric = some (key, params)) :
    request.key = key ∧ requestParams request = params := by
  have agreed : Agree metric := by
    rcases key_cases metric with noName | ⟨nonempty, isName⟩ |
      ⟨name, char, rest, nonempty, isName, isEnd, rfl⟩
    · rw [(parse_noName noName).1] at isRequest
      cases isRequest
    · obtain ⟨agent, agent2⟩ := parse_name isName nonempty
      rw [Agree, agent, agent2]
      exact ⟨rfl, rfl⟩
    · by_cases isBracket : char = '['
      · subst isBracket
        by_cases isParams : ∃ params : ParamList, rest = renderParams params ++ [']']
        · obtain ⟨list, rfl⟩ := isParams
          rw [agree_render isName nonempty list]
          by_contra loose
          have isLoose : ∃ item ∈ list.toList, ¬Param.Tight item := by
            by_contra allTight
            exact loose fun item member => by_contra fun notTight => allTight ⟨item, member, notTight⟩
          rw [(parse_params isName nonempty _).2, paramsLoop_loose list isLoose []] at isRequest2
          cases isRequest2
        · exact agree_refused isName nonempty isParams
      · rw [(parse_other isName nonempty isEnd isBracket rest).1] at isRequest
        cases isRequest
  rw [Agree, isRequest, isRequest2] at agreed
  obtain ⟨sameKey, sameParams⟩ := agreed
  have copied := congrArg (map fun param => Option.getD param []) sameParams
  rw [List.map_map, List.map_map] at copied
  exact ⟨sameKey, copied.trans (List.map_id _)⟩

/-- `DenyKey=a` in the first line. -/
def denyA : Record :=
  ⟨['a'], .deny, 1⟩

theorem loadAlike_denyA : LoadAlike (configOf [denyA]) where
  alike := by
    intro rule isRule name inside nonempty isName same
    rw [mem_singleton.mp isRule] at same
    have isBracket : '[' ∈ ['a'] := by
      have member : '[' ∈ name ++ '[' :: (inside ++ [']']) :=
        mem_append_right _ (mem_cons_self ..)
      rw [← same] at member
      exact member
    exact absurd isBracket (by decide)
  apart := by
    intro rule isRule other _ _ isEmpty
    have isParsed : parsedRules (configOf [denyA]) = [⟨.deny, ['a'], [], false⟩] := rfl
    rw [isParsed, mem_singleton] at isRule
    rw [isRule] at isEmpty
    cases isEmpty

theorem accepted_denyA : (loadRules (configOf [denyA])).bind finalizeKeyAccessRulesConfiguration =
    some [⟨.deny, ['a'], [], false⟩, sysrunDeny] := by
  have loaded : loadRules (configOf [denyA]) = some [⟨.deny, ['a'], [], false⟩] := rfl
  rw [loaded, bind_some, finalizeKeyAccessRulesConfiguration, parse_sysrunPattern]
  rfl

theorem loadRules_denyA : Agent2Rules.loadRules [] [denyA] =
    some [⟨.deny, ['a'], []⟩, toAgent2 sysrunDeny] := by
  have loaded := loadRules_toAgent2 (pairwise_singleton _ denyA) loadAlike_denyA
  rw [accepted_denyA] at loaded
  exact loaded

end Zabbix.KeyAccess.BothAgents
