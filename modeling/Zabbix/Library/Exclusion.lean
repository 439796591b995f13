import Mathlib.Data.List.Nodup

/-!
# Exclusive possession marked by flags

Holders possess tokens, and a token carries a flag.  `Exclusive` says that no
token has two holders, and that a token is flagged exactly when it has one.
Granting unflagged tokens and releasing a held token keep this.
-/

namespace Zabbix.Library.Exclusion

open List

variable {Holder Token : Type*}

/-- Every flagged token is held once, by one holder. -/
structure Exclusive (held : Holder → List Token) (flagged : Token → Prop) : Prop where
  distinct : ∀ holder, (held holder).Nodup
  apart : ∀ first second token, token ∈ held first → token ∈ held second → first = second
  exact : ∀ token, flagged token ↔ ∃ holder, token ∈ held holder

variable {held : Holder → List Token} {flagged flagged' : Token → Prop}

theorem exclusive_congr (exclusive : Exclusive held flagged)
    (same : ∀ token, flagged' token ↔ flagged token) :
    Exclusive held flagged' where
  distinct := exclusive.distinct
  apart := exclusive.apart
  exact token := (same token).trans (exclusive.exact token)

theorem flagged_iff_unique (exclusive : Exclusive held flagged) (token : Token) :
    flagged token ↔ ∃! holder, token ∈ held holder := by
  rw [exclusive.exact]
  constructor
  · rintro ⟨holder, member⟩
    exact ⟨holder, member, fun other isIn => exclusive.apart other holder token isIn member⟩
  · rintro ⟨holder, member, -⟩
    exact ⟨holder, member⟩

variable [DecidableEq Holder]

theorem mem_update {holder other : Holder} {tokens : List Token} {token : Token} :
    token ∈ Function.update held holder tokens other ↔
      (other = holder ∧ token ∈ tokens) ∨ (other ≠ holder ∧ token ∈ held other) := by
  rw [Function.update_apply]
  by_cases same : other = holder
  · simp [same]
  · simp [same]

variable (exclusive : Exclusive held flagged)

include exclusive

theorem exclusive_perm {holder : Holder}
    {tokens : List Token} (permuted : tokens.Perm (held holder)) :
    Exclusive (Function.update held holder tokens) flagged := by
  have same (other : Holder) (token : Token) :
      token ∈ Function.update held holder tokens other ↔ token ∈ held other := by
    rw [mem_update, permuted.mem_iff]
    by_cases own : other = holder
    · simp [own]
    · simp [own]
  constructor
  · intro other
    by_cases own : other = holder
    · subst own
      rw [Function.update_self]
      exact permuted.nodup_iff.mpr (exclusive.distinct other)
    · rw [Function.update_of_ne own]
      exact exclusive.distinct other
  · intro first second token isFirst isSecond
    rw [same] at isFirst isSecond
    exact exclusive.apart first second token isFirst isSecond
  · intro token
    rw [exclusive.exact]
    exact exists_congr fun other => (same other token).symm

theorem exclusive_grant (holder : Holder)
    {granted : List Token} (distinct : granted.Nodup) (free : ∀ token ∈ granted, ¬flagged token)
    (marked : ∀ token, flagged' token ↔ flagged token ∨ token ∈ granted) :
    Exclusive (Function.update held holder (held holder ++ granted)) flagged' := by
  have new (other : Holder) (token : Token) :
      token ∈ Function.update held holder (held holder ++ granted) other ↔
        token ∈ held other ∨ (other = holder ∧ token ∈ granted) := by
    rw [mem_update, mem_append]
    by_cases own : other = holder
    · simp [own]
    · simp [own]
  have unheld (other : Holder) (token : Token) (isGranted : token ∈ granted) :
      token ∉ held other := fun isHeld =>
    free token isGranted ((exclusive.exact token).mpr ⟨other, isHeld⟩)
  constructor
  · intro other
    by_cases own : other = holder
    · subst own
      rw [Function.update_self]
      refine (exclusive.distinct other).append distinct ?_
      intro token isHeld isGranted
      exact unheld other token isGranted isHeld
    · rw [Function.update_of_ne own]
      exact exclusive.distinct other
  · intro first second token isFirst isSecond
    rw [new] at isFirst isSecond
    rcases isFirst with isFirst | ⟨rfl, isGranted⟩
    · rcases isSecond with isSecond | ⟨rfl, isGranted⟩
      · exact exclusive.apart first second token isFirst isSecond
      · exact absurd isFirst (unheld first token isGranted)
    · rcases isSecond with isSecond | ⟨rfl, -⟩
      · exact absurd isSecond (unheld second token isGranted)
      · rfl
  · intro token
    rw [marked, exclusive.exact]
    constructor
    · rintro (⟨other, isHeld⟩ | isGranted)
      · exact ⟨other, (new other token).mpr (Or.inl isHeld)⟩
      · exact ⟨holder, (new holder token).mpr (Or.inr ⟨rfl, isGranted⟩)⟩
    · rintro ⟨other, isHeld⟩
      rcases (new other token).mp isHeld with isHeld | ⟨-, isGranted⟩
      · exact Or.inl ⟨other, isHeld⟩
      · exact Or.inr isGranted

theorem exclusive_release {holder : Holder}
    {token : Token} {rest : List Token} (isHeld : held holder = token :: rest)
    (marked : ∀ other, flagged' other ↔ flagged other ∧ other ≠ token) :
    Exclusive (Function.update held holder rest) flagged' := by
  have ownDistinct := exclusive.distinct holder
  rw [isHeld, nodup_cons] at ownDistinct
  have left (other : Holder) (remaining : Token) :
      remaining ∈ Function.update held holder rest other ↔
        remaining ∈ held other ∧ remaining ≠ token := by
    rw [mem_update]
    by_cases own : other = holder
    · subst own
      rw [isHeld, mem_cons]
      constructor
      · rintro (⟨-, member⟩ | ⟨different, -⟩)
        · exact ⟨Or.inr member, fun same => ownDistinct.1 (same ▸ member)⟩
        · exact absurd rfl different
      · rintro ⟨same | member, different⟩
        · exact absurd same different
        · exact Or.inl ⟨rfl, member⟩
    · constructor
      · rintro (⟨same, -⟩ | ⟨-, member⟩)
        · exact absurd same own
        · refine ⟨member, ?_⟩
          rintro rfl
          exact own (exclusive.apart other holder _ member (isHeld ▸ mem_cons_self))
      · rintro ⟨member, -⟩
        exact Or.inr ⟨own, member⟩
  constructor
  · intro other
    by_cases own : other = holder
    · subst own
      rw [Function.update_self]
      exact ownDistinct.2
    · rw [Function.update_of_ne own]
      exact exclusive.distinct other
  · intro first second remaining isFirst isSecond
    exact exclusive.apart first second remaining ((left _ _).mp isFirst).1 ((left _ _).mp isSecond).1
  · intro other
    rw [marked, exclusive.exact]
    constructor
    · rintro ⟨⟨owner, member⟩, different⟩
      exact ⟨owner, (left _ _).mpr ⟨member, different⟩⟩
    · rintro ⟨owner, member⟩
      obtain ⟨isIn, different⟩ := (left _ _).mp member
      exact ⟨⟨owner, isIn⟩, different⟩

theorem exclusive_transfer {source target : Holder}
    {token : Token} {rest : List Token} (apart : target ≠ source)
    (isHeld : held source = token :: rest) :
    Exclusive
      (Function.update (Function.update held source rest) target (held target ++ [token]))
      flagged := by
  have isFlagged : flagged token :=
    (exclusive.exact token).mpr ⟨source, isHeld ▸ mem_cons_self⟩
  have released := exclusive_release exclusive isHeld
    fun other => (Iff.rfl : flagged other ∧ other ≠ token ↔ flagged other ∧ other ≠ token)
  have marked (other : Token) :
      flagged other ↔ (flagged other ∧ other ≠ token) ∨ other ∈ [token] := by
    by_cases same : other = token
    · simp [same, isFlagged]
    · simp [same]
  have granted := exclusive_grant released target (nodup_singleton token) (by simp) marked
  rwa [Function.update_of_ne apart] at granted

/-- A token is given back wherever it stands in the list, if nobody else has it. -/
theorem exclusive_erase [DecidableEq Token]
    {holder : Holder} {token : Token} (own : token ∈ held holder ∨ ¬flagged token)
    (marked : ∀ other, flagged' other ↔ flagged other ∧ other ≠ token) :
    Exclusive (Function.update held holder ((held holder).erase token)) flagged' := by
  by_cases isHeld : token ∈ held holder
  · have reordered := exclusive_perm exclusive (perm_cons_erase isHeld).symm
    have released := exclusive_release reordered (Function.update_self _ _ _) marked
    rwa [Function.update_idem] at released
  · rw [erase_of_not_mem isHeld, Function.update_eq_self]
    apply exclusive_congr exclusive
    intro other
    rw [marked]
    refine and_iff_left_of_imp ?_
    rintro isFlagged rfl
    exact own.elim isHeld fun free => free isFlagged

end Zabbix.Library.Exclusion
