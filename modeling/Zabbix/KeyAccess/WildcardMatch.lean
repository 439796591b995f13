import Zabbix.Common.Text
import Zabbix.Library.Wildcard

/-!
# Matching wildcards

`zbx_wildcard_minimize` and `zbx_wildcard_match`.  A pointer into a text is the rest
of it.  The second loop of the match is cut where it sets its pivots: from a pivot it
goes on character by character, to the end of the value, to the next asterisk, or to
a character that does not match.
-/

namespace Zabbix.KeyAccess.WildcardMatch

open Common.Text Library.Wildcard List

/-- The loop of `zbx_wildcard_minimize`, with the flag for an asterisk before. -/
def minimizeLoop (w : Bool) : Text → Text
  | [] => []
  | char :: rest =>
    if char = '*' then if w then minimizeLoop w rest else char :: minimizeLoop true rest
    else char :: minimizeLoop false rest

def zbxWildcardMinimize (str : Text) : Text :=
  minimizeLoop false str

/-- The first loop: the value and the wildcard where it ends, or `none` if they differ. -/
def prefixLoop : Text → Text → Option (Text × Text)
  | [], wildcard => some ([], wildcard)
  | _ :: _, [] => none
  | char :: value, other :: wildcard =>
    if other = '*' then some (char :: value, other :: wildcard)
    else if char = other then prefixLoop value wildcard else none

/-- How the second loop goes on from its pivots. -/
inductive Attempt where
  | ended (wildcard : Text)
  | asterisk (value wildcard : Text)
  | mismatch
deriving DecidableEq

def attempt : Text → Text → Attempt
  | [], wildcard => .ended wildcard
  | _ :: _, [] => .mismatch
  | char :: value, other :: wildcard =>
    if other = '*' then .asterisk (char :: value) wildcard
    else if char = other then attempt value wildcard else .mismatch

variable {value wildcard rest later : Text}

theorem attempt_spec (value wildcard : Text) :
    match attempt value wildcard with
    | .ended rest => (∀ char ∈ value, char ≠ '*') ∧ wildcard = value ++ rest
    | .asterisk later rest =>
      ∃ segment, (∀ char ∈ segment, char ≠ '*') ∧ value = segment ++ later ∧
        wildcard = segment ++ '*' :: rest
    | .mismatch => value ≠ [] ∧ ¬Matches '*' wildcard value := by
  fun_induction attempt value wildcard with
  | case1 wildcard => exact ⟨by simp, rfl⟩
  | case2 char value => exact ⟨cons_ne_nil _ _, cons_ne_nil _ _⟩
  | case3 char value wildcard => exact ⟨[], by simp, rfl, rfl⟩
  | case4 value char wildcard isPlain ih =>
    have isSegment : ∀ {segment : Text}, (∀ other ∈ segment, other ≠ '*') →
        ∀ other ∈ char :: segment, other ≠ '*' := by
      intro segment plain other member
      rcases mem_cons.mp member with rfl | isLater
      · exact isPlain
      · exact plain other isLater
    cases stopped : attempt value wildcard with
    | ended rest =>
      rw [stopped] at ih
      exact ⟨isSegment ih.1, congrArg (char :: ·) ih.2⟩
    | asterisk later rest =>
      rw [stopped] at ih
      obtain ⟨segment, plain, rfl, rfl⟩ := ih
      exact ⟨char :: segment, isSegment plain, rfl, rfl⟩
    | mismatch =>
      rw [stopped] at ih
      exact ⟨cons_ne_nil _ _, fun isMatch => ih.2 ((matches_cons isPlain).mp isMatch)⟩
  | case5 char value other wildcard isPlain differs =>
    refine ⟨cons_ne_nil _ _, fun isMatch => ?_⟩
    obtain ⟨rest, same, -⟩ := (matches_plain isPlain).mp isMatch
    exact differs (cons.inj same).1

theorem attempt_asterisk_length (stopped : attempt value wildcard = .asterisk later rest) :
    rest.length < wildcard.length := by
  have spec := attempt_spec value wildcard
  rw [stopped] at spec
  obtain ⟨segment, -, -, rfl⟩ := spec
  rw [length_append, length_cons]
  omega

def matchLoop (value wildcard : Text) : Bool :=
  match _stopped : attempt value wildcard with
  | .ended rest => rest.all (· == '*')
  | .asterisk later rest => if rest = [] then true else matchLoop later rest
  | .mismatch =>
    match value with
    | [] => false
    | _ :: pivot => matchLoop pivot wildcard
termination_by (wildcard.length, value.length)
decreasing_by
  · exact Prod.Lex.left _ _ (attempt_asterisk_length _stopped)
  · exact Prod.Lex.right _ (Nat.lt_succ_self _)

def zbxWildcardMatch (value wildcard : Text) : Bool :=
  match prefixLoop value wildcard with
  | none => false
  | some (value, wildcard) => matchLoop value wildcard

theorem matchLoop_ended (stopped : attempt value wildcard = .ended rest) :
    matchLoop value wildcard = rest.all (· == '*') := by
  rw [matchLoop]
  split
  case h_1 found => rw [stopped] at found; cases found; rfl
  case h_2 found => rw [stopped] at found; cases found
  case h_3 found => rw [stopped] at found; cases found

theorem matchLoop_asterisk (stopped : attempt value wildcard = .asterisk later rest) :
    matchLoop value wildcard = if rest = [] then true else matchLoop later rest := by
  rw [matchLoop]
  split
  case h_1 found => rw [stopped] at found; cases found
  case h_2 found => rw [stopped] at found; cases found; rfl
  case h_3 found => rw [stopped] at found; cases found

/-! ## Matching -/

/-- The loop looks for the rest of the wildcard anywhere in the value. -/
theorem matchLoop_iff (value wildcard : Text) :
    matchLoop value wildcard = true ↔ Matches '*' ('*' :: wildcard) value := by
  fun_induction matchLoop value wildcard with
  | case1 value wildcard rest stopped =>
    have spec := attempt_spec value wildcard
    rw [stopped] at spec
    obtain ⟨plain, rfl⟩ := spec
    rw [matches_star_ended plain, List.all_eq_true]
    simp only [beq_iff_eq]
  | case2 value wildcard later stopped =>
    have spec := attempt_spec value wildcard
    rw [stopped] at spec
    obtain ⟨segment, plain, rfl, rfl⟩ := spec
    rw [matches_earliest plain]
    exact iff_of_true rfl (matches_singleton _)
  | case3 value wildcard later rest stopped isMore ih =>
    have spec := attempt_spec value wildcard
    rw [stopped] at spec
    obtain ⟨segment, plain, rfl, rfl⟩ := spec
    rw [matches_earliest plain, ih]
  | case4 wildcard stopped =>
    have spec := attempt_spec [] wildcard
    rw [stopped] at spec
    exact absurd rfl spec.1
  | case5 wildcard char pivot stopped ih =>
    have spec := attempt_spec (char :: pivot) wildcard
    rw [stopped] at spec
    rw [matches_star_cons spec.2, ih]

theorem prefixLoop_spec (value wildcard : Text) :
    match prefixLoop value wildcard with
    | none => ¬Matches '*' wildcard value
    | some (later, rest) =>
      (Matches '*' wildcard value ↔ Matches '*' rest later) ∧
        (later = [] ∨ rest.head? = some '*') := by
  fun_induction prefixLoop value wildcard with
  | case1 wildcard => exact ⟨Iff.rfl, Or.inl rfl⟩
  | case2 char value => exact cons_ne_nil _ _
  | case3 char value wildcard => exact ⟨Iff.rfl, Or.inr rfl⟩
  | case4 value char wildcard isPlain ih =>
    cases stopped : prefixLoop value wildcard with
    | none =>
      rw [stopped] at ih
      exact fun isMatch => ih ((matches_cons isPlain).mp isMatch)
    | some rest =>
      rw [stopped] at ih
      exact ⟨(matches_cons isPlain).trans ih.1, ih.2⟩
  | case5 char value other wildcard isPlain differs =>
    intro isMatch
    obtain ⟨rest, same, -⟩ := (matches_plain isPlain).mp isMatch
    exact differs (cons.inj same).1

/-- `zbx_wildcard_match` decides whether a value matches, each asterisk standing for any text. -/
theorem zbxWildcardMatch_iff (value wildcard : Text) :
    zbxWildcardMatch value wildcard = true ↔ Matches '*' wildcard value := by
  have spec := prefixLoop_spec value wildcard
  unfold zbxWildcardMatch
  cases stopped : prefixLoop value wildcard with
  | none =>
    rw [stopped] at spec
    exact iff_of_false Bool.false_ne_true spec
  | some rest =>
    obtain ⟨later, rest⟩ := rest
    rw [stopped] at spec
    obtain ⟨same, isEnd⟩ := spec
    rw [same]
    refine (matchLoop_iff later rest).trans ?_
    rcases isEnd with rfl | isStar
    · rw [matches_empty, matches_empty, forall_mem_cons]
      exact and_iff_right rfl
    · cases rest with
      | nil => cases isStar
      | cons first after =>
        obtain rfl := Option.some.inj isStar
        exact matches_star_star

/-! ## Minimizing -/

theorem matches_minimizeLoop (wildcard value : Text) :
    (Matches '*' (minimizeLoop false wildcard) value ↔ Matches '*' wildcard value) ∧
      (Matches '*' ('*' :: minimizeLoop true wildcard) value ↔
        Matches '*' ('*' :: wildcard) value) := by
  induction wildcard generalizing value with
  | nil => exact ⟨Iff.rfl, Iff.rfl⟩
  | cons char rest ih =>
    by_cases isStar : char = '*'
    · subst isStar
      have starred : Matches '*' ('*' :: minimizeLoop true rest) value ↔
          Matches '*' ('*' :: rest) value := (ih value).2
      exact ⟨starred, starred.trans matches_star_star.symm⟩
    · have plain : ∀ w text, Matches '*' (minimizeLoop w (char :: rest)) text ↔
          Matches '*' (char :: rest) text := by
        intro w text
        rw [minimizeLoop, if_neg isStar, matches_plain isStar, matches_plain isStar]
        exact exists_congr fun later => and_congr_right fun _ => (ih later).1
      refine ⟨plain false value, ?_⟩
      rw [matches_star, matches_star]
      exact exists_congr fun later => and_congr_right fun _ => plain true later

/-- Removing repeated asterisks makes no difference for what matches. -/
theorem matches_minimize (wildcard value : Text) :
    Matches '*' (zbxWildcardMinimize wildcard) value ↔ Matches '*' wildcard value :=
  (matches_minimizeLoop wildcard value).1

end Zabbix.KeyAccess.WildcardMatch
