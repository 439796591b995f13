import Mathlib.Data.List.Infix

/-!
# Wildcard patterns

A pattern is a list of symbols in which one symbol, the star, stands for any text.
The rules say how stars and the text between them are matched: a star may always
take the least that lets the segment after it match.
-/

namespace Zabbix.Library.Wildcard

open List

variable {Symbol : Type*} [DecidableEq Symbol]

/-- A star stands for any text, every other symbol for itself. -/
def Matches (star : Symbol) : List Symbol → List Symbol → Prop
  | [], text => text = []
  | symbol :: pattern, text =>
    if symbol = star then ∃ rest, rest <:+ text ∧ Matches star pattern rest
    else ∃ rest, text = symbol :: rest ∧ Matches star pattern rest

variable {star symbol : Symbol} {pattern segment text rest : List Symbol}

theorem matches_nil : Matches star [] text ↔ text = [] :=
  Iff.rfl

theorem matches_star :
    Matches star (star :: pattern) text ↔ ∃ rest, rest <:+ text ∧ Matches star pattern rest := by
  rw [Matches, if_pos rfl]

theorem matches_plain (isPlain : symbol ≠ star) :
    Matches star (symbol :: pattern) text ↔
      ∃ rest, text = symbol :: rest ∧ Matches star pattern rest := by
  rw [Matches, if_neg isPlain]

theorem matches_cons (isPlain : symbol ≠ star) :
    Matches star (symbol :: pattern) (symbol :: text) ↔ Matches star pattern text := by
  rw [matches_plain isPlain]
  constructor
  · rintro ⟨rest, same, isMatch⟩
    rw [(cons.inj same).2]
    exact isMatch
  · exact fun isMatch => ⟨text, rfl, isMatch⟩

theorem matches_singleton (text : List Symbol) : Matches star [star] text :=
  matches_star.mpr ⟨[], nil_suffix, rfl⟩

theorem matches_star_suffix (isSuffix : rest <:+ text) (isMatch : Matches star (star :: pattern) rest) :
    Matches star (star :: pattern) text := by
  obtain ⟨later, isLater, isMatch⟩ := matches_star.mp isMatch
  exact matches_star.mpr ⟨later, isLater.trans isSuffix, isMatch⟩

theorem matches_star_star :
    Matches star (star :: star :: pattern) text ↔ Matches star (star :: pattern) text := by
  constructor
  · intro isMatch
    obtain ⟨rest, isSuffix, isMatch⟩ := matches_star.mp isMatch
    exact matches_star_suffix isSuffix isMatch
  · exact fun isMatch => matches_star.mpr ⟨text, suffix_rfl, isMatch⟩

variable (isPlain : ∀ symbol ∈ segment, symbol ≠ star)

include isPlain

theorem matches_segment :
    Matches star (segment ++ pattern) text ↔
      ∃ rest, text = segment ++ rest ∧ Matches star pattern rest := by
  induction segment generalizing text with
  | nil => exact ⟨fun isMatch => ⟨text, rfl, isMatch⟩, fun ⟨_, same, isMatch⟩ => same ▸ isMatch⟩
  | cons first later ih =>
    have isLater : ∀ symbol ∈ later, symbol ≠ star :=
      fun symbol member => isPlain symbol (mem_cons_of_mem _ member)
    rw [cons_append, matches_plain (isPlain first (mem_cons_self ..))]
    constructor
    · rintro ⟨rest, rfl, isMatch⟩
      obtain ⟨after, rfl, isRest⟩ := (ih isLater).mp isMatch
      exact ⟨after, rfl, isRest⟩
    · rintro ⟨after, rfl, isMatch⟩
      exact ⟨later ++ after, rfl, (ih isLater).mpr ⟨after, rfl, isMatch⟩⟩

theorem matches_append :
    Matches star (segment ++ pattern) (segment ++ text) ↔ Matches star pattern text := by
  rw [matches_segment isPlain]
  constructor
  · rintro ⟨rest, same, isMatch⟩
    rw [append_cancel_left same]
    exact isMatch
  · exact fun isMatch => ⟨text, rfl, isMatch⟩

theorem matches_text :
    Matches star segment text ↔ text = segment := by
  have whole : Matches star (segment ++ []) text ↔ ∃ rest, text = segment ++ rest ∧ rest = [] :=
    matches_segment isPlain
  rw [append_nil] at whole
  rw [whole]
  constructor
  · rintro ⟨rest, rfl, rfl⟩
    exact append_nil segment
  · exact fun same => ⟨[], by rw [same, append_nil], rfl⟩

omit isPlain

theorem matches_empty : Matches star pattern [] ↔ ∀ symbol ∈ pattern, symbol = star := by
  induction pattern with
  | nil => exact iff_of_true rfl fun _ member => (nomatch member)
  | cons first later ih =>
    rw [forall_mem_cons]
    by_cases isStar : first = star
    · subst isStar
      rw [matches_star, ← ih]
      constructor
      · rintro ⟨rest, isSuffix, isMatch⟩
        rw [suffix_nil.mp isSuffix] at isMatch
        exact ⟨rfl, isMatch⟩
      · exact fun both => ⟨[], suffix_rfl, both.2⟩
    · rw [matches_plain isStar]
      exact iff_of_false (fun ⟨_, same, _⟩ => (nomatch same)) fun both => isStar both.1

theorem matches_earliest (isPlain : ∀ symbol ∈ segment, symbol ≠ star) :
    Matches star (star :: (segment ++ star :: pattern)) (segment ++ text) ↔
      Matches star (star :: pattern) text := by
  constructor
  · intro isMatch
    obtain ⟨rest, isSuffix, isMatch⟩ := matches_star.mp isMatch
    obtain ⟨after, rfl, isRest⟩ := (matches_segment isPlain).mp isMatch
    have shorter := isSuffix.length_le
    rw [length_append, length_append] at shorter
    have afterText : after <:+ text := by
      apply suffix_of_suffix_length_le ((suffix_append segment after).trans isSuffix)
        (suffix_append segment text)
      exact Nat.le_of_add_le_add_left shorter
    exact matches_star_suffix afterText isRest
  · intro isMatch
    exact matches_star.mpr ⟨segment ++ text, suffix_rfl, (matches_append isPlain).mpr isMatch⟩

theorem matches_star_cons (notHere : ¬Matches star pattern (symbol :: text)) :
    Matches star (star :: pattern) (symbol :: text) ↔ Matches star (star :: pattern) text := by
  constructor
  · intro isMatch
    obtain ⟨rest, isSuffix, isMatch⟩ := matches_star.mp isMatch
    rcases suffix_cons_iff.mp isSuffix with rfl | isLater
    · exact absurd isMatch notHere
    · exact matches_star.mpr ⟨rest, isLater, isMatch⟩
  · exact matches_star_suffix (suffix_cons symbol text)

theorem matches_star_ended (isPlain : ∀ symbol ∈ segment, symbol ≠ star) :
    Matches star (star :: (segment ++ pattern)) segment ↔ ∀ symbol ∈ pattern, symbol = star := by
  rw [← matches_empty]
  constructor
  · intro isMatch
    obtain ⟨rest, isSuffix, isMatch⟩ := matches_star.mp isMatch
    obtain ⟨after, rfl, isRest⟩ := (matches_segment isPlain).mp isMatch
    have shorter := isSuffix.length_le
    rw [length_append] at shorter
    have isEmpty : after = [] := eq_nil_of_length_eq_zero (by omega)
    rw [isEmpty] at isRest
    exact isRest
  · intro isMatch
    refine matches_star.mpr ⟨segment, suffix_rfl, ?_⟩
    exact (matches_segment isPlain).mpr ⟨[], (append_nil segment).symm, isMatch⟩

end Zabbix.Library.Wildcard
