import Mathlib.Data.List.Basic
import Zabbix.ItemKey.ItemUtil

/-!
# Aliases of item keys

The aliases of agent 2.  An item key that is the name of an alias stands for the key of the alias,
and a name that ends with `[*]` stands for all its parameters.
-/

namespace Zabbix.ItemKey.KeyAliases

open Common.Text ItemUtil List Option

structure KeyAlias where
  name : Text
  key : Text
deriving DecidableEq

def parseAlias (text : Text) : Option (Text × Text) :=
  (parseKey text false).bind fun (_, _, left) =>
    if left.length < 2 ∨ left.head? ≠ some ':' then none
    else
      (parseKey left.tail false).bind fun (_, _, left2) =>
        if left2 ≠ [] then none else some (text.take (text.length - left.length), left.tail)

/-- The loop of `addAliases`, with the aliases that the manager has. -/
def addAliases (aliases : List KeyAlias) : List Text → Option (List KeyAlias)
  | [] => some aliases
  | data :: rest =>
    (parseAlias data).bind fun (name, key) =>
      if aliases.any fun existing => existing.name = name then none
      else addAliases (aliases ++ [{ name, key }]) rest

def wildcard : Text :=
  ['[', '*', ']']

/-- The test on the last three characters, of which there are more. -/
def endsWithWildcard (text : Text) : Bool :=
  3 < text.length && text.drop (text.length - 3) = wildcard

/-- The second loop of `Manager.Get`. -/
def getWildcard (orig : Text) : List KeyAlias → Text
  | [] => orig
  | entry :: rest =>
    let aliasLn := entry.name.length
    if endsWithWildcard entry.name = false then getWildcard orig rest
    else if orig.length < aliasLn - 2 then orig
    else if entry.name.take (aliasLn - 2) ≠ orig.take (aliasLn - 2) then getWildcard orig rest
    else if endsWithWildcard entry.key = false then entry.key
    else entry.key.take (entry.key.length - 3) ++ orig.drop (aliasLn - 3)

/-- `Manager.Get` -/
def get (aliases : List KeyAlias) (orig : Text) : Text :=
  if parseItemKey orig = none then orig
  else
    match aliases.find? fun entry => entry.name = orig with
    | some entry => entry.key
    | none => getWildcard orig aliases

/-! ## What aliases stand for -/

/-- The name of the alias is a name with `[*]` after it, and the item key starts with that name and
its bracket. -/
def Applies (orig : Text) (entry : KeyAlias) : Prop :=
  ∃ name rest, entry.name = name ++ wildcard ∧ orig = name ++ '[' :: rest

/-- What an alias for parameters gives: its key, where `[*]` at its end is replaced by what the
item key has after the name. -/
inductive Gives (orig : Text) (entry : KeyAlias) : Text → Prop where
  | replaced (name rest key : Text) (isName : entry.name = name ++ wildcard)
      (isOrig : orig = name ++ '[' :: rest) (isKey : entry.key = key ++ wildcard) :
      Gives orig entry (key ++ '[' :: rest)
  | plain (noWildcard : ¬ wildcard <:+ entry.key) : Gives orig entry entry.key

/-- What an item key stands for. -/
inductive StandsFor (aliases : List KeyAlias) (orig : Text) : Text → Prop where
  | named (entry : KeyAlias) (member : entry ∈ aliases) (isName : entry.name = orig) :
      StandsFor aliases orig entry.key
  | parameters (before after : List KeyAlias) (entry : KeyAlias) (key : Text)
      (notNamed : ∀ other ∈ aliases, other.name ≠ orig)
      (isSplit : aliases = before ++ entry :: after)
      (isFirst : ∀ other ∈ before, ¬ Applies orig other) (applies : Applies orig entry)
      (gives : Gives orig entry key) : StandsFor aliases orig key
  | itself (notNamed : ∀ other ∈ aliases, other.name ≠ orig)
      (noneApplies : ∀ other ∈ aliases, ¬ Applies orig other) : StandsFor aliases orig orig

/-! ## Accepted aliases -/

variable {aliases : List KeyAlias} {orig text : Text} {entry : KeyAlias}

/-- A key starts with a character of its name. -/
theorem parseKey_bracket (rest : Text) (withWildcard : Bool) :
    parseKey ('[' :: rest) withWildcard = none := by
  have notKey : isKeyChar '[' withWildcard = false := by
    cases withWildcard <;> decide
  rw [parseKey, takeWhile_cons_of_neg (by simp [notKey]), dropWhile_cons_of_neg (by simp [notKey])]
  rfl

/-- An alias with a name and a key that are not just the wildcard. -/
structure IsProper (entry : KeyAlias) : Prop where
  name : entry.name ≠ wildcard
  key : entry.key ≠ wildcard

theorem isProper_of_parseAlias {name key : Text} (isAlias : parseAlias text = some (name, key)) :
    IsProper { name, key } := by
  obtain ⟨⟨first, params, left⟩, isFirst, found⟩ := bind_eq_some_iff.mp isAlias
  simp only at found
  split_ifs at found
  obtain ⟨⟨second, params', left2⟩, isSecond, found⟩ := bind_eq_some_iff.mp found
  simp only at found
  split_ifs at found
  obtain ⟨rfl, rfl⟩ := Prod.mk.inj (some.inj found)
  constructor
  · intro isWildcard
    simp only at isWildcard
    cases text with
    | nil => cases isWildcard.symm.trans (take_nil)
    | cons c rest =>
      have isPrefix := take_prefix ((c :: rest).length - left.length) (c :: rest)
      rw [isWildcard] at isPrefix
      obtain ⟨later, same⟩ := isPrefix
      obtain ⟨rfl, -⟩ := cons.inj same
      rw [parseKey_bracket] at isFirst
      cases isFirst
  · intro isWildcard
    simp only at isWildcard
    rw [isWildcard, wildcard, parseKey_bracket] at isSecond
    cases isSecond

theorem isProper_of_addAliases {texts : List Text} {before : List KeyAlias}
    (areProper : ∀ entry ∈ before, IsProper entry)
    (isAdded : addAliases before texts = some aliases) : ∀ entry ∈ aliases, IsProper entry := by
  induction texts generalizing before with
  | nil =>
    obtain rfl := some.inj isAdded
    exact areProper
  | cons data rest ih =>
    obtain ⟨⟨name, key⟩, isAlias, later⟩ := bind_eq_some_iff.mp isAdded
    simp only at later
    split_ifs at later
    refine ih (fun entry member => ?_) later
    obtain isOld | isNew := mem_append.mp member
    · exact areProper entry isOld
    · obtain rfl := mem_singleton.mp isNew
      exact isProper_of_parseAlias isAlias

/-! ## The search -/

theorem endsWithWildcard_iff (notWildcard : text ≠ wildcard) :
    endsWithWildcard text = true ↔ wildcard <:+ text := by
  rw [endsWithWildcard, Bool.and_eq_true, decide_eq_true_eq, decide_eq_true_eq]
  constructor
  · rintro ⟨-, isEnd⟩
    rw [← isEnd]
    exact drop_suffix _ _
  · rintro ⟨name, rfl⟩
    have nonempty : name ≠ [] := by
      rintro rfl
      exact notWildcard rfl
    have positive := length_pos_iff.mpr nonempty
    have isLength : (name ++ wildcard).length - 3 = name.length := by
      rw [length_append]
      rfl
    refine ⟨?_, ?_⟩
    · rw [length_append]
      change 3 < name.length + 3
      omega
    · rw [isLength, drop_left]

/-- An alias for parameters whose name is too long for the item key ends the search. -/
def TooLong (orig : Text) (entry : KeyAlias) : Prop :=
  wildcard <:+ entry.name ∧ orig.length + 2 < entry.name.length

theorem not_applies_of_tooLong (tooLong : TooLong orig entry) : ¬ Applies orig entry := by
  rintro ⟨name, rest, isName, rfl⟩
  have isLonger := tooLong.2
  rw [isName, length_append, length_append, wildcard, length_cons] at isLonger
  simp only [length_cons, length_nil] at isLonger
  omega

/-- An item key that starts as the name of an alias does. -/
theorem applies_iff_take {name : Text} (isName : name ++ wildcard = entry.name) :
    Applies orig entry ↔ name ++ ['['] = orig.take (name.length + 1) := by
  constructor
  · rintro ⟨name', rest, isName', rfl⟩
    rw [← isName, append_left_inj] at isName'
    rw [isName', take_length_add_append]
    rfl
  · intro isHead
    refine ⟨name, orig.drop (name.length + 1), isName.symm, ?_⟩
    rw [← take_append_drop (name.length + 1) orig, ← isHead]
    simp

/-- What one turn of the loop does. -/
theorem getWildcard_cons (isProper : IsProper entry) (rest : List KeyAlias) :
    (¬ Applies orig entry ∧ ¬ TooLong orig entry ∧
      getWildcard orig (entry :: rest) = getWildcard orig rest) ∨
    (TooLong orig entry ∧ getWildcard orig (entry :: rest) = orig) ∨
    (Applies orig entry ∧ Gives orig entry (getWildcard orig (entry :: rest))) := by
  have isEnd := endsWithWildcard_iff isProper.name
  rw [getWildcard]
  by_cases hasWildcard : wildcard <:+ entry.name
  · rw [if_neg (by rw [isEnd.mpr hasWildcard]; exact Bool.true_eq_false.mp)]
    obtain ⟨name, isName⟩ := id hasWildcard
    have isLength : entry.name.length = name.length + 3 := by
      rw [← isName, length_append]
      rfl
    have isCount : entry.name.length - 2 = name.length + 1 := by omega
    have isHead : entry.name.take (name.length + 1) = name ++ ['['] := by
      rw [← isName, take_length_add_append]
      rfl
    have applies := @applies_iff_take orig entry name isName
    rw [isCount, isHead]
    split_ifs with isLonger isOther noWildcard
    · exact Or.inr (Or.inl ⟨⟨hasWildcard, by omega⟩, rfl⟩)
    · exact Or.inl ⟨fun isApplied => isOther (applies.mp isApplied),
        fun tooLong => isLonger (by have := tooLong.2; omega), rfl⟩
    · refine Or.inr (Or.inr ⟨applies.mpr (not_not.mp isOther), .plain fun isThere => ?_⟩)
      rw [(endsWithWildcard_iff isProper.key).mpr isThere] at noWildcard
      cases noWildcard
    · have isApplied := applies.mpr (not_not.mp isOther)
      refine Or.inr (Or.inr ⟨isApplied, ?_⟩)
      rw [Bool.not_eq_false, endsWithWildcard_iff isProper.key] at noWildcard
      obtain ⟨key, isKey⟩ := noWildcard
      obtain ⟨name', later, isName', rfl⟩ := isApplied
      rw [← isName, append_left_inj] at isName'
      have isKeyLength : entry.key.length - 3 = key.length := by
        rw [← isKey, length_append]
        rfl
      have isNameLength : entry.name.length - 3 = name'.length := by
        rw [isLength, isName']
        omega
      rw [isKeyLength, isNameLength, ← isKey, take_left, drop_left]
      exact .replaced name' later key (isName' ▸ isName.symm) rfl isKey.symm
  · rw [if_pos (Bool.eq_false_iff.mpr fun isTrue => hasWildcard (isEnd.mp isTrue))]
    refine Or.inl ⟨?_, fun tooLong => hasWildcard tooLong.1, rfl⟩
    rintro ⟨name, later, isName, -⟩
    exact hasWildcard ⟨name, isName.symm⟩

theorem exists_first (someApplies : ∃ entry ∈ aliases, Applies orig entry) :
    ∃ before entry after, aliases = before ++ entry :: after ∧
      (∀ other ∈ before, ¬ Applies orig other) ∧ Applies orig entry := by
  induction aliases with
  | nil =>
    obtain ⟨entry, member, -⟩ := someApplies
    cases member
  | cons first rest ih =>
    by_cases applies : Applies orig first
    · exact ⟨[], first, rest, rfl, nofun, applies⟩
    · obtain ⟨before, entry, after, isSplit, isFirst, found⟩ :=
        ih ((exists_mem_cons_iff ..).mp someApplies |>.resolve_left applies)
      exact ⟨first :: before, entry, after, by rw [isSplit]; rfl,
        forall_mem_cons.mpr ⟨applies, isFirst⟩, found⟩

/-- The search finds the first alias that applies, or ends without it. -/
theorem getWildcard_cases (areProper : ∀ entry ∈ aliases, IsProper entry) :
    ((∀ entry ∈ aliases, ¬ Applies orig entry) ∧ getWildcard orig aliases = orig) ∨
    (∃ before entry after, aliases = before ++ entry :: after ∧
      (∀ other ∈ before, ¬ Applies orig other) ∧ Applies orig entry ∧
      (((∃ other ∈ before, TooLong orig other) ∧ getWildcard orig aliases = orig) ∨
        ((∀ other ∈ before, ¬ TooLong orig other) ∧
          Gives orig entry (getWildcard orig aliases)))) := by
  induction aliases with
  | nil => exact Or.inl ⟨nofun, rfl⟩
  | cons entry rest ih =>
    obtain ⟨isProper, laterProper⟩ := forall_mem_cons.mp areProper
    obtain ⟨notApplies, notLong, isLater⟩ | ⟨tooLong, isOrig⟩ | ⟨applies, gives⟩ :=
      @getWildcard_cons orig entry isProper rest
    · rw [isLater]
      obtain ⟨noneApplies, isOrig⟩ |
          ⟨before, found, after, isSplit, isFirst, applies, isFound⟩ := ih laterProper
      · exact Or.inl ⟨forall_mem_cons.mpr ⟨notApplies, noneApplies⟩, isOrig⟩
      · refine Or.inr ⟨entry :: before, found, after, by rw [isSplit]; rfl,
          forall_mem_cons.mpr ⟨notApplies, isFirst⟩, applies, isFound.imp ?_ ?_⟩
        · rintro ⟨⟨other, member, isLong⟩, isOrig⟩
          exact ⟨⟨other, mem_cons_of_mem _ member, isLong⟩, isOrig⟩
        · rintro ⟨noneLong, gives⟩
          exact ⟨forall_mem_cons.mpr ⟨notLong, noneLong⟩, gives⟩
    · rw [isOrig]
      by_cases someApplies : ∃ found ∈ rest, Applies orig found
      · obtain ⟨before, found, after, isSplit, isFirst, applies⟩ := exists_first someApplies
        exact Or.inr ⟨entry :: before, found, after, by rw [isSplit]; rfl,
          forall_mem_cons.mpr ⟨not_applies_of_tooLong tooLong, isFirst⟩, applies,
          Or.inl ⟨⟨entry, mem_cons_self, tooLong⟩, rfl⟩⟩
      · refine Or.inl ⟨forall_mem_cons.mpr ⟨not_applies_of_tooLong tooLong, ?_⟩, rfl⟩
        exact fun found member applies => someApplies ⟨found, member, applies⟩
    · exact Or.inr ⟨[], entry, rest, rfl, nofun, applies, Or.inr ⟨nofun, gives⟩⟩

theorem first_unique {before before' after after' : List KeyAlias} {entry' : KeyAlias}
    (same : before ++ entry :: after = before' ++ entry' :: after')
    (isFirst : ∀ other ∈ before, ¬ Applies orig other) (applies : Applies orig entry)
    (isFirst' : ∀ other ∈ before', ¬ Applies orig other) (applies' : Applies orig entry') :
    before = before' ∧ entry = entry' := by
  induction before generalizing before' with
  | nil =>
    cases before' with
    | nil => exact ⟨rfl, (cons.inj same).1⟩
    | cons other before' =>
      obtain ⟨rfl, -⟩ := cons.inj same
      exact absurd applies (isFirst' _ mem_cons_self)
  | cons other before ih =>
    obtain ⟨notApplies, laterFirst⟩ := forall_mem_cons.mp isFirst
    cases before' with
    | nil =>
      obtain ⟨rfl, -⟩ := cons.inj same
      exact absurd applies' notApplies
    | cons other' before' =>
      obtain ⟨rfl, isLater⟩ := cons.inj same
      obtain ⟨rfl, rfl⟩ :=
        ih isLater laterFirst (forall_mem_cons.mp isFirst').2
      exact ⟨rfl, rfl⟩

/-! ## The answer -/

/-- Where no alias has the item key's name, none that is too long is before the first one that
applies, or that one gives the item key itself. -/
def KeepsLooking (aliases : List KeyAlias) (orig : Text) : Prop :=
  (∀ other ∈ aliases, other.name ≠ orig) → ∀ before entry after,
    aliases = before ++ entry :: after → (∀ other ∈ before, ¬ Applies orig other) →
      Applies orig entry → (∀ other ∈ before, ¬ TooLong orig other) ∨ Gives orig entry orig

theorem gives_of_standsFor {before after : List KeyAlias} {key : Text}
    (notNamed : ∀ other ∈ aliases, other.name ≠ orig) (isSplit : aliases = before ++ entry :: after)
    (isFirst : ∀ other ∈ before, ¬ Applies orig other) (applies : Applies orig entry)
    (standsFor : StandsFor aliases orig key) : Gives orig entry key := by
  cases standsFor with
  | named named member isName => exact absurd isName (notNamed named member)
  | parameters before' after' entry' _ _ isSplit' isFirst' applies' gives =>
    obtain ⟨-, rfl⟩ := first_unique (isSplit.symm.trans isSplit') isFirst applies isFirst' applies'
    exact gives
  | itself _ noneApplies =>
    exact absurd applies (noneApplies entry (isSplit ▸ mem_append_right _ mem_cons_self))

/-- The answer is what the item key stands for if and only if the search is not cut short. -/
theorem standsFor_get_iff {texts : List Text} (accepted : addAliases [] texts = some aliases)
    (isKey : parseItemKey orig ≠ none) :
    StandsFor aliases orig (get aliases orig) ↔ KeepsLooking aliases orig := by
  have areProper := isProper_of_addAliases (fun _ member => absurd member not_mem_nil) accepted
  rw [get, if_neg isKey]
  cases isNamed : aliases.find? fun entry => entry.name = orig with
  | some entry =>
    have member := mem_of_find?_eq_some isNamed
    have isName : entry.name = orig := by simpa using find?_some isNamed
    exact iff_of_true (.named entry member isName) fun notNamed =>
      absurd isName (notNamed entry member)
  | none =>
    have notNamed : ∀ other ∈ aliases, other.name ≠ orig := fun other member isName =>
      find?_eq_none.mp isNamed other member (decide_eq_true isName)
    simp only
    obtain ⟨noneApplies, isOrig⟩ | ⟨before, entry, after, isSplit, isFirst, applies, isFound⟩ :=
      getWildcard_cases areProper
    · rw [isOrig]
      refine iff_of_true (.itself notNamed noneApplies) ?_
      rintro - before entry after rfl - applies
      exact absurd applies (noneApplies entry (mem_append_right _ mem_cons_self))
    · obtain ⟨⟨other, member, tooLong⟩, isOrig⟩ | ⟨noneLong, gives⟩ := isFound
      · rw [isOrig]
        constructor
        · intro standsFor notNamed before' entry' after' isSplit' isFirst' applies'
          obtain ⟨rfl, rfl⟩ :=
            first_unique (isSplit.symm.trans isSplit') isFirst applies isFirst' applies'
          exact Or.inr (gives_of_standsFor notNamed isSplit isFirst applies standsFor)
        · intro keepsLooking
          obtain noneLong | gives := keepsLooking notNamed before entry after isSplit isFirst applies
          · exact absurd tooLong (noneLong other member)
          · exact .parameters before after entry orig notNamed isSplit isFirst applies gives
      · refine iff_of_true (.parameters before after entry _ notNamed isSplit isFirst applies gives)
          fun _ before' entry' after' isSplit' isFirst' applies' => ?_
        obtain ⟨rfl, rfl⟩ :=
          first_unique (isSplit.symm.trans isSplit') isFirst applies isFirst' applies'
        exact Or.inl noneLong

/-! ## Two aliases -/

theorem paramsLoop_last {data param left : Text}
    (isParam : parseParam data = some (param, ']' :: left)) :
    paramsLoop data = some ([param], left) := by
  rw [paramsLoop]
  split <;> simp_all

theorem parseKey_params {data name param rest left : Text}
    (isName : data.takeWhile (fun char => isKeyChar char false) = name) (nonempty : name ≠ [])
    (isRest : data.dropWhile (fun char => isKeyChar char false) = '[' :: rest)
    (isParam : parseParam rest = some (param, ']' :: left)) :
    parseKey data false = some (name, [param], left) := by
  rw [parseKey, isRest, isName]
  simp only
  rw [if_neg nonempty, if_neg (not_not.mpr rfl), parseParams, paramsLoop_last isParam]
  rfl

theorem parseAlias_short :
    parseAlias "a[*]:k[*]".toList = some ("a[*]".toList, "k[*]".toList) := by
  have isName : parseKey "a[*]:k[*]".toList false =
      some (['a'], [['*']], ":k[*]".toList) := parseKey_params rfl nofun rfl rfl
  have isKey : parseKey "k[*]".toList false = some (['k'], [['*']], []) :=
    parseKey_params rfl nofun rfl rfl
  rw [parseAlias, isName, bind_some]
  simp only
  rw [if_neg (by decide)]
  change (parseKey "k[*]".toList false).bind _ = _
  rw [isKey]
  rfl

theorem parseAlias_long :
    parseAlias "longer[*]:x".toList = some ("longer[*]".toList, "x".toList) := by
  have isName : parseKey "longer[*]:x".toList false =
      some ("longer".toList, [['*']], ":x".toList) := parseKey_params rfl nofun rfl rfl
  rw [parseAlias, isName]
  rfl

theorem addAliases_cons {before : List KeyAlias} {data name key : Text} (rest : List Text)
    (isAlias : parseAlias data = some (name, key))
    (isNew : (before.any fun existing => existing.name = name) = false) :
    addAliases before (data :: rest) = addAliases (before ++ [⟨name, key⟩]) rest := by
  rw [addAliases, isAlias, bind_some]
  simp only
  rw [isNew, if_neg Bool.false_ne_true]

def longAlias : KeyAlias where
  name := "longer[*]".toList
  key := "x".toList

def shortAlias : KeyAlias where
  name := "a[*]".toList
  key := "k[*]".toList

theorem parseItemKey_short : parseItemKey "a[1]".toList ≠ none := by
  have isKey : parseKey "a[1]".toList false = some (['a'], [['1']], []) :=
    parseKey_params rfl nofun rfl rfl
  rw [parseItemKey, parseMetricKey, if_neg nofun, isKey]
  nofun

theorem applies_shortAlias : Applies "a[1]".toList shortAlias :=
  ⟨['a'], "1]".toList, rfl, rfl⟩

theorem standsFor_get_iff_short :
    StandsFor [shortAlias, longAlias] "a[1]".toList (get [shortAlias, longAlias] "a[1]".toList) := by
  have accepted : addAliases [] ["a[*]:k[*]".toList, "longer[*]:x".toList] =
      some [shortAlias, longAlias] := by
    rw [addAliases_cons _ parseAlias_short rfl, addAliases_cons _ parseAlias_long rfl]
    rfl
  refine (standsFor_get_iff accepted parseItemKey_short).mpr ?_
  intro _ before entry after isSplit isFirst _
  cases before with
  | nil => exact Or.inl fun _ member => absurd member not_mem_nil
  | cons other before =>
    obtain ⟨rfl, -⟩ := cons.inj isSplit
    exact absurd applies_shortAlias (isFirst _ mem_cons_self)

/-- An alias with a longer name hides the one that applies. -/
theorem not_standsFor_get_hidden :
    addAliases [] ["longer[*]:x".toList, "a[*]:k[*]".toList] = some [longAlias, shortAlias] ∧
      parseItemKey "a[1]".toList ≠ none ∧
      ¬ StandsFor [longAlias, shortAlias] "a[1]".toList
        (get [longAlias, shortAlias] "a[1]".toList) := by
  refine ⟨?_, parseItemKey_short, fun standsFor => ?_⟩
  · rw [addAliases_cons _ parseAlias_long rfl, addAliases_cons _ parseAlias_short rfl]
    rfl
  · have isOrig : get [longAlias, shortAlias] "a[1]".toList = "a[1]".toList := by
      rw [get, if_neg parseItemKey_short]
      rfl
    rw [isOrig] at standsFor
    have notApplies : ¬ Applies "a[1]".toList longAlias :=
      not_applies_of_tooLong ⟨⟨"longer".toList, rfl⟩, by decide⟩
    have gives := @gives_of_standsFor _ _ shortAlias [longAlias] [] _ (by decide) rfl
      (by simpa using notApplies) applies_shortAlias standsFor
    generalize isAnswer : "a[1]".toList = answer at gives
    cases gives with
    | replaced name rest key isName isOrig isKey =>
      have isShort : shortAlias.name = ['a'] ++ wildcard := rfl
      have isValue : shortAlias.key = ['k'] ++ wildcard := rfl
      rw [isShort, append_left_inj] at isName
      rw [isValue, append_left_inj] at isKey
      subst isName isKey
      cases isAnswer
    | plain noWildcard => exact noWildcard ⟨['k'], rfl⟩

end Zabbix.ItemKey.KeyAliases
