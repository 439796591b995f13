import Zabbix.KeyAccess.Agent2Wildcard

/-!
# What agent 2 takes for a match

The values that `Match` takes for matches by mistake, and the patterns that `Minimize` leaves with
the same matches.
-/

namespace Zabbix.KeyAccess.WildcardExact

open Common.Text Library.Wildcard Agent2Wildcard List Option
open WildcardMatch (zbxWildcardMinimize zbxWildcardMatch zbxWildcardMatch_iff
  matches_minimizeLoop)

/-- The value has the first byte of each rune that the pattern has before an asterisk. -/
def startsAgree (value : Text) : Text → Bool
  | [] => true
  | char :: rest =>
    if char = '*' then true
    else
      match value with
      | [] => false
      | first :: later =>
        first = char &&
          startsAgree (later.drop (runeTail char rest)) (rest.drop (runeTail char rest))
termination_by text => text.length
decreasing_by
  simp only [length_cons, length_drop]
  omega

/-- Neither of the two mistakes is made: a pattern without an asterisk at the end of a longer value,
and other bytes inside the runes before an asterisk. -/
def IsDistinct (value pattern : Text) : Prop :=
  startsAgree value pattern = true →
    ('*' ∉ pattern → pattern = [] ∨ pattern = value ∨ ¬pattern <:+ value) ∧
      ∀ front after, '*' ∉ front → pattern = front ++ '*' :: after →
        front <+: value ∨ ¬Matches '*' ('*' :: after) (value.drop front.length)

/-- `Match` says whether the value is one of the pattern, and says the same of the minimized
pattern. -/
def MatchesExactly (value pattern : Text) : Prop :=
  (wildcardMatch value pattern = true ↔ Matches '*' pattern value) ∧
    (isUtf8 pattern = true →
      wildcardMatch value (minimize pattern) = wildcardMatch value pattern)

variable {value pattern front after later : Text}

/-! ## The two mistakes -/

theorem startsAgree_spec (value pattern : Text) :
    match prefixLoop value pattern with
    | none => startsAgree value pattern = false
    | some none =>
      (startsAgree value pattern = true ∧ '*' ∉ pattern) ∨
        (startsAgree value pattern = false ∧ value.length < pattern.length)
    | some (some _) => startsAgree value pattern = true := by
  fun_induction prefixLoop value pattern with
  | case1 value => exact Or.inl ⟨by rw [startsAgree], not_mem_nil⟩
  | case2 value rest =>
    show startsAgree value ('*' :: rest) = true
    rw [startsAgree.eq_def]
    exact if_pos rfl
  | case3 char rest isPlain =>
    exact Or.inr ⟨by rw [startsAgree, if_neg isPlain], Nat.succ_pos _⟩
  | case4 char rest isPlain first later differs =>
    dsimp only
    rw [startsAgree, if_neg isPlain]
    simp [differs]
  | case5 char rest isPlain first later same ih =>
    have isSame : startsAgree (first :: later) (char :: rest) =
        startsAgree (later.drop (runeTail char rest)) (rest.drop (runeTail char rest)) := by
      rw [startsAgree, if_neg isPlain]
      simp [not_not.mp same]
    cases ended : prefixLoop (later.drop (runeTail char rest)) (rest.drop (runeTail char rest)) with
    | none =>
      rw [ended] at ih
      exact isSame.trans ih
    | some reached =>
      rw [ended] at ih
      cases reached with
      | none =>
        obtain ⟨isAgreed, notLater⟩ | ⟨notAgreed, isShort⟩ := ih
        · refine Or.inl ⟨isSame.trans isAgreed, ?_⟩
          have plain := tail_plain char rest
          rw [← take_append_drop (runeTail char rest) rest, mem_cons, mem_append]
          rintro (isFirst | isTail | isLater)
          · exact isPlain isFirst.symm
          · exact plain _ isTail rfl
          · exact notLater isLater
        · refine Or.inr ⟨isSame.trans notAgreed, ?_⟩
          rw [length_drop, length_drop] at isShort
          rw [length_cons, length_cons]
          omega
      | some place => exact isSame.trans ih

theorem takeWhile_star (noStar : '*' ∉ front) (after : Text) :
    (front ++ '*' :: after).takeWhile (· != '*') = front := by
  refine (split_while (fun byte member => ?_) (by decide) after).1
  rw [bne_iff_ne]
  rintro rfl
  exact noStar member

theorem sure_iff (value pattern : Text) : Sure value pattern ↔ IsDistinct value pattern := by
  have spec := prefixLoop_spec value pattern
  have agree := startsAgree_spec value pattern
  rw [Sure, IsDistinct]
  cases ended : prefixLoop value pattern with
  | none =>
    rw [ended] at agree
    exact iff_of_true trivial fun isAgreed => absurd (agree.symm.trans isAgreed) (by decide)
  | some reached =>
    rw [ended] at spec agree
    cases reached with
    | none =>
      obtain ⟨isAgreed, noStar⟩ | ⟨notAgreed, isShort⟩ := agree
      · have noFront (front after : Text) : pattern ≠ front ++ '*' :: after := by
          rintro rfl
          exact noStar (mem_append_right _ mem_cons_self)
        constructor
        · exact fun isSure _ => ⟨fun _ => isSure, fun front after _ same =>
            absurd same (noFront front after)⟩
        · exact fun isDistinct => (isDistinct isAgreed).1 noStar
      · refine iff_of_true (Or.inr (Or.inr fun isSuffix => ?_)) fun isAgreed => ?_
        · exact absurd isSuffix.length_le (Nat.not_le.mpr isShort)
        · rw [notAgreed] at isAgreed
          cases isAgreed
    | some place =>
      obtain ⟨later, rest⟩ := place
      obtain ⟨segment, after, plain, rfl, rfl, rfl⟩ := spec
      have isSegment := takeWhile_star (fun member => plain _ member rfl) after
      have noMatch : zbxWildcardMatch (value.drop segment.length) ('*' :: after) = false ↔
          ¬Matches '*' ('*' :: after) (value.drop segment.length) := by
        rw [← zbxWildcardMatch_iff, Bool.not_eq_true]
      dsimp only
      rw [isSegment, noMatch]
      constructor
      · refine fun isSure _ => ⟨fun noStar => ?_, fun front after' noStar same => ?_⟩
        · exact absurd (mem_append_right _ mem_cons_self) noStar
        · have isFront := takeWhile_star noStar after'
          rw [← same, isSegment] at isFront
          subst isFront
          rw [(cons.inj (append_cancel_left same)).2] at isSure
          exact isSure
      · exact fun isDistinct => (isDistinct agree).2 segment after
          (fun member => plain _ member rfl) rfl

/-! ## Minimized patterns -/

theorem opens_star (first : Char) :
    opensThree first '*' = false ∧ opensFour first '*' = false := by
  have notWithin (low high : Nat) (isHigh : 0x80 ≤ low) : isWithin low high '*' = false := by
    refine Bool.eq_false_iff.mpr fun within => ?_
    have isLow := (isWithin_iff.mp within).1
    exact absurd (isHigh.trans isLow) (by decide)
  simp [opensThree, opensFour, isTail, notWithin]

/-- What follows an asterisk has no part in the rune before it. -/
theorem runeTail_star (first : Char) (front after after' : Text) :
    runeTail first (front ++ '*' :: after) = runeTail first (front ++ '*' :: after') := by
  have notTail : isTail '*' = false := by decide
  have atStar (after : Text) : runeTail first ('*' :: after) = 0 := by
    rcases after with _ | ⟨second, _ | ⟨third, after⟩⟩
    all_goals simp [runeTail, notTail, opens_star]
  have afterOne (second : Char) (after : Text) : runeTail first (second :: '*' :: after) =
      if isWithin 0xC2 0xDF first && isTail second then 1 else 0 := by
    rcases after with _ | ⟨fourth, after⟩
    all_goals simp [runeTail, notTail]
  rcases front with _ | ⟨second, _ | ⟨third, _ | ⟨fourth, front⟩⟩⟩
  · exact (atStar after).trans (atStar after').symm
  · exact (afterOne second after).trans (afterOne second after').symm
  · rfl
  · rfl

theorem prefixLoop_star (noStar : '*' ∉ front) (value after after' : Text) :
    prefixLoop value (front ++ '*' :: after) =
      (prefixLoop value (front ++ '*' :: after')).map
        (·.map fun place => (place.1, '*' :: after)) := by
  induction isLength : front.length using Nat.strong_induction_on generalizing front value with
  | _ length ih =>
    cases front with
    | nil =>
      have atStar (after : Text) :
          prefixLoop value ('*' :: after) = some (some (value, '*' :: after)) := by
        rw [prefixLoop.eq_def]
        exact if_pos rfl
      rw [nil_append, nil_append, atStar, atStar]
      rfl
    | cons char front =>
      rw [mem_cons, not_or] at noStar
      have isPlain : char ≠ '*' := fun same => noStar.1 same.symm
      rw [cons_append, cons_append]
      cases value with
      | nil =>
        rw [prefixLoop, prefixLoop, if_neg isPlain, if_neg isPlain]
        rfl
      | cons first rest =>
        rw [prefixLoop, prefixLoop, if_neg isPlain, if_neg isPlain]
        by_cases differs : first ≠ char
        · rw [if_pos differs, if_pos differs]
          rfl
        · rw [if_neg differs, if_neg differs, runeTail_star char front after after']
          have isWithinFront : runeTail char (front ++ '*' :: after') ≤ front.length := by
            by_contra isLonger
            refine tail_plain char (front ++ '*' :: after') '*' ?_ rfl
            rw [take_append, mem_append]
            refine Or.inr ?_
            rw [show runeTail char (front ++ '*' :: after') - front.length =
              runeTail char (front ++ '*' :: after') - front.length - 1 + 1 by omega,
              take_succ_cons]
            exact mem_cons_self
          rw [drop_append_of_le_length isWithinFront, drop_append_of_le_length isWithinFront]
          apply ih _ ?_ (fun member => noStar.2 (mem_of_mem_drop member)) _ rfl
          rw [length_drop, ← isLength, length_cons]
          omega

theorem matchLoop_short (noStar : '*' ∉ front)
    (ended : prefixLoop value (front ++ '*' :: after) = some none) :
    matchLoop value value (front ++ '*' :: after) = false := by
  have spec := prefixLoop_spec value (front ++ '*' :: after)
  rw [ended] at spec
  have short := spec.resolve_left fun plain =>
    plain '*' (mem_append_right _ mem_cons_self) rfl
  rw [matchLoop_eq (Or.inl rfl), ← Bool.not_eq_true, WildcardMatch.matchLoop_iff, matches_star]
  rintro ⟨rest, isSuffix, isMatch⟩
  exact not_matches_of_short (Nat.lt_of_le_of_lt isSuffix.length_le short) isMatch

theorem wildcardMatch_star (noStar : '*' ∉ front)
    (same : ∀ text, Matches '*' ('*' :: after) text ↔ Matches '*' ('*' :: later) text)
    (value : Text) :
    wildcardMatch value (front ++ '*' :: after) = wildcardMatch value (front ++ '*' :: later) := by
  have reached := prefixLoop_star noStar value after later
  have spec := prefixLoop_spec value (front ++ '*' :: later)
  rw [wildcardMatch, wildcardMatch]
  cases ended : prefixLoop value (front ++ '*' :: later) with
  | none =>
    rw [ended] at reached
    rw [reached]
    rfl
  | some place =>
    rw [ended] at reached spec
    cases place with
    | none =>
      rw [reached]
      dsimp only
      rw [map_some, map_none] at reached
      rw [map_some, map_none]
      dsimp only
      rw [matchLoop_short noStar reached, matchLoop_short noStar ended, if_neg (by simp),
        if_neg (by simp)]
    | some place =>
      obtain ⟨text, rest⟩ := place
      obtain ⟨segment, tail, plain, isPattern, rfl, -⟩ := spec
      have isFront := takeWhile_star (fun member => plain _ member rfl) tail
      rw [← isPattern, takeWhile_star noStar] at isFront
      subst isFront
      rw [(cons.inj (append_cancel_left isPattern)).2] at same
      rw [reached]
      dsimp only [map_some]
      rw [matchLoop_star, matchLoop_star, Bool.eq_iff_iff, zbxWildcardMatch_iff,
        zbxWildcardMatch_iff]
      exact same text

theorem wildcardMatch_minimize (isText : isUtf8 pattern = true) (value : Text) :
    wildcardMatch value (minimize pattern) = wildcardMatch value pattern := by
  rw [minimize_eq isText]
  by_cases hasStar : '*' ∈ pattern
  · obtain ⟨front, after, rfl, noStar⟩ := eq_append_cons_of_mem hasStar
    have plain : ∀ byte ∈ front, byte ≠ '*' := fun byte member same => noStar (same ▸ member)
    rw [zbxWildcardMinimize, minimizeLoop_plain plain, WildcardMatch.minimizeLoop, if_pos rfl,
      if_neg Bool.false_ne_true]
    exact wildcardMatch_star noStar (fun text => (matches_minimizeLoop after text).2) value
  · have plain : ∀ byte ∈ pattern, byte ≠ '*' := fun byte member same => hasStar (same ▸ member)
    have minimized := minimizeLoop_plain plain []
    rw [append_nil] at minimized
    rw [zbxWildcardMinimize, minimized]
    congr 1
    exact append_nil pattern

theorem isMatch_iff (value pattern : Text) :
    (wildcardMatch value pattern = true ↔ Matches '*' pattern value) ↔
      IsDistinct value pattern := by
  rw [← zbxWildcardMatch_iff, ← Bool.eq_iff_iff, wildcardMatch_eq_iff, sure_iff]

/-- `Match` is exact where it makes neither of its mistakes, and only there. -/
theorem matchesExactly_iff (value pattern : Text) :
    MatchesExactly value pattern ↔ IsDistinct value pattern := by
  rw [MatchesExactly, and_iff_left fun isText => wildcardMatch_minimize isText value]
  exact isMatch_iff value pattern

/-- A pattern is taken for a longer value that begins and ends with it. -/
theorem not_matchesExactly_longer : ¬MatchesExactly "fooofoo".toList "foo".toList := by
  rintro ⟨isExact, -⟩
  have isDistinct := (isMatch_iff _ _).mp isExact
  have isAgreed : startsAgree "fooofoo".toList "foo".toList = true := by
    simp [startsAgree, runeTail_ascii]
  obtain isEmpty | isSame | notSuffix := (isDistinct isAgreed).1 (by decide)
  · cases isEmpty
  · cases isSame
  · exact notSuffix ⟨"fooo".toList, rfl⟩

end Zabbix.KeyAccess.WildcardExact
