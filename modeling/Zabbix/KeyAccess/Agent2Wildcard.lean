import Zabbix.KeyAccess.WildcardMatch

/-!
# Wildcards in agent 2

The package `wildcard`.  A string is the list of its bytes, and `range` goes over the
runes of it: over UTF-8 sequences, and over single bytes where there is none.  The
second loop of `Match` is cut where it sets `vi` and `pi` back, as that of
`zbx_wildcard_match` is.
-/

namespace Zabbix.KeyAccess.Agent2Wildcard

open Common.Text Library.Wildcard List
open WildcardMatch (Attempt attempt attempt_spec attempt_asterisk_length
  zbxWildcardMinimize zbxWildcardMatch zbxWildcardMatch_iff)

/-! ## Runes -/

def isWithin (low high : Nat) (byte : Char) : Bool :=
  low ≤ byte.toNat && byte.toNat ≤ high

def isTail (byte : Char) : Bool :=
  isWithin 0x80 0xBF byte

/-- The first two bytes of a rune of three. -/
def opensThree (first second : Char) : Bool :=
  (isWithin 0xE0 0xE0 first && isWithin 0xA0 0xBF second) ||
    (isWithin 0xE1 0xEC first && isTail second) ||
      (isWithin 0xED 0xED first && isWithin 0x80 0x9F second) ||
        (isWithin 0xEE 0xEF first && isTail second)

/-- The first two bytes of a rune of four. -/
def opensFour (first second : Char) : Bool :=
  (isWithin 0xF0 0xF0 first && isWithin 0x90 0xBF second) ||
    (isWithin 0xF1 0xF3 first && isTail second) ||
      (isWithin 0xF4 0xF4 first && isWithin 0x80 0x8F second)

/-- The bytes after the first byte of a rune. -/
def runeTail (first : Char) : Text → Nat
  | second :: third :: fourth :: _ =>
    if isWithin 0xC2 0xDF first && isTail second then 1
    else if opensThree first second && isTail third then 2
    else if opensFour first second && isTail third && isTail fourth then 3
    else 0
  | [second, third] =>
    if isWithin 0xC2 0xDF first && isTail second then 1
    else if opensThree first second && isTail third then 2
    else 0
  | [second] => if isWithin 0xC2 0xDF first && isTail second then 1 else 0
  | [] => 0

/-- What `WriteRune` writes for a byte that is no UTF-8. -/
def runeError : Text :=
  [Char.ofNat 0xEF, Char.ofNat 0xBF, Char.ofNat 0xBD]

/-- The byte is a rune, or begins one. -/
def isRune (first : Char) (rest : Text) : Bool :=
  first.toNat < 0x80 || runeTail first rest != 0

/-! ## The package -/

/-- The loop of `Minimize`, with whether the last rune was an asterisk. -/
def minimizeLoop (last : Bool) : Text → Text
  | [] => []
  | char :: rest =>
    if char = '*' then if last then minimizeLoop true rest else char :: minimizeLoop true rest
    else
      (if isRune char rest then char :: rest.take (runeTail char rest) else runeError) ++
        minimizeLoop false (rest.drop (runeTail char rest))
termination_by text => text.length
decreasing_by
  all_goals
    simp only [length_cons, length_drop]
    omega

def minimize (pattern : Text) : Text :=
  minimizeLoop false pattern

/-- The first loop of `Match`: `none` where it returns, else the value and the pattern from
the first asterisk on, if the loop gets to one. -/
def prefixLoop (value : Text) : Text → Option (Option (Text × Text))
  | [] => some none
  | char :: rest =>
    if char = '*' then some (some (value, char :: rest))
    else
      match value with
      | [] => some none
      | first :: later =>
        if first ≠ char then none
        else prefixLoop (later.drop (runeTail char rest)) (rest.drop (runeTail char rest))
termination_by text => text.length
decreasing_by
  simp only [length_cons, length_drop]
  omega

/-- The second loop from `vi` and `pi = pp`, with the value from `vp` on. -/
def matchLoop (value vp pattern : Text) : Bool :=
  match _stopped : attempt value pattern with
  | .ended rest => rest.all (· == '*')
  | .asterisk later rest => if rest = [] then true else matchLoop later later.tail rest
  | .mismatch => matchLoop vp vp.tail pattern
termination_by (pattern.length, vp.length, value.length)
decreasing_by
  · exact Prod.Lex.left _ _ (attempt_asterisk_length _stopped)
  · apply Prod.Lex.right
    cases vp with
    | nil =>
      have spec := attempt_spec value pattern
      rw [_stopped] at spec
      exact Prod.Lex.right _ (length_pos_iff.mpr spec.1)
    | cons first later => exact Prod.Lex.left _ _ (Nat.lt_succ_self _)

/-- `Match` -/
def wildcardMatch (value pattern : Text) : Bool :=
  match prefixLoop value pattern with
  | none => false
  | some none => if pattern = [] then value == [] else matchLoop value value pattern
  | some (some (later, rest)) => matchLoop later value rest

/-! ## UTF-8 -/

variable {first byte char : Char} {text rest value pattern later : Text} {low high : Nat}

def isUtf8 : Text → Bool
  | [] => true
  | char :: rest => isRune char rest && isUtf8 (rest.drop (runeTail char rest))
termination_by text => text.length
decreasing_by
  simp only [length_cons, length_drop]
  omega

theorem isWithin_iff : isWithin low high byte = true ↔ low ≤ byte.toNat ∧ byte.toNat ≤ high := by
  rw [isWithin, Bool.and_eq_true, decide_eq_true_iff, decide_eq_true_iff]

theorem high_of_opensThree {second : Char} (opens : opensThree first second = true) :
    0x80 ≤ first.toNat ∧ 0x80 ≤ second.toNat := by
  simp only [opensThree, isTail, Bool.or_eq_true, Bool.and_eq_true, isWithin_iff] at opens
  omega

theorem high_of_opensFour {second : Char} (opens : opensFour first second = true) :
    0x80 ≤ first.toNat ∧ 0x80 ≤ second.toNat := by
  simp only [opensFour, isTail, Bool.or_eq_true, Bool.and_eq_true, isWithin_iff] at opens
  omega

theorem high_of_rune (first : Char) (rest : Text) :
    runeTail first rest = 0 ∨
      (0x80 ≤ first.toNat ∧ ∀ byte ∈ rest.take (runeTail first rest), 0x80 ≤ byte.toNat) := by
  have two : ∀ {second : Char}, (isWithin 0xC2 0xDF first && isTail second) = true →
      0x80 ≤ first.toNat ∧ 0x80 ≤ second.toNat := by
    intro second opens
    simp only [isTail, Bool.and_eq_true, isWithin_iff] at opens
    omega
  have tail : ∀ {byte : Char}, isTail byte = true → 0x80 ≤ byte.toNat :=
    fun isByte => (isWithin_iff.mp isByte).1
  unfold runeTail
  split
  · split_ifs with isTwo isThree isFour
    · obtain ⟨isFirst, isSecond⟩ := two isTwo
      exact Or.inr ⟨isFirst, by simpa using isSecond⟩
    · rw [Bool.and_eq_true] at isThree
      obtain ⟨isFirst, isSecond⟩ := high_of_opensThree isThree.1
      exact Or.inr ⟨isFirst, by simpa using ⟨isSecond, tail isThree.2⟩⟩
    · rw [Bool.and_eq_true, Bool.and_eq_true] at isFour
      obtain ⟨isFirst, isSecond⟩ := high_of_opensFour isFour.1.1
      exact Or.inr ⟨isFirst, by simpa using ⟨isSecond, tail isFour.1.2, tail isFour.2⟩⟩
    · exact Or.inl rfl
  · split_ifs with isTwo isThree
    · obtain ⟨isFirst, isSecond⟩ := two isTwo
      exact Or.inr ⟨isFirst, by simpa using isSecond⟩
    · rw [Bool.and_eq_true] at isThree
      obtain ⟨isFirst, isSecond⟩ := high_of_opensThree isThree.1
      exact Or.inr ⟨isFirst, by simpa using ⟨isSecond, tail isThree.2⟩⟩
    · exact Or.inl rfl
  · split_ifs with isTwo
    · obtain ⟨isFirst, isSecond⟩ := two isTwo
      exact Or.inr ⟨isFirst, by simpa using isSecond⟩
    · exact Or.inl rfl
  · exact Or.inl rfl

theorem runeTail_ascii (isAscii : first.toNat < 0x80) (rest : Text) : runeTail first rest = 0 := by
  rcases high_of_rune first rest with isSingle | ⟨isHigh, -⟩
  · exact isSingle
  · omega

theorem runeTail_le (first : Char) (rest : Text) : runeTail first rest ≤ rest.length := by
  unfold runeTail
  split
  · split_ifs
    all_goals
      simp only [length_cons]
      omega
  · split_ifs
    all_goals
      simp only [length_cons]
      omega
  · split_ifs
    all_goals simp
  · exact Nat.le_refl 0

theorem tail_plain (first : Char) (rest : Text) :
    ∀ byte ∈ rest.take (runeTail first rest), byte ≠ '*' := by
  rcases high_of_rune first rest with isSingle | ⟨-, high⟩
  · rw [isSingle]
    exact fun _ member => (nomatch member)
  · rintro byte member rfl
    exact absurd (high _ member) (by decide)

theorem minimizeLoop_plain {segment : Text} (plain : ∀ byte ∈ segment, byte ≠ '*') (later : Text) :
    WildcardMatch.minimizeLoop false (segment ++ later) =
      segment ++ WildcardMatch.minimizeLoop false later := by
  induction segment with
  | nil => rfl
  | cons byte rest ih =>
    obtain ⟨isPlain, isRest⟩ := forall_mem_cons.mp plain
    rw [cons_append, WildcardMatch.minimizeLoop, if_neg isPlain, ih isRest]
    rfl

theorem minimize_eq (isText : isUtf8 text = true) : minimize text = zbxWildcardMinimize text := by
  rw [minimize, zbxWildcardMinimize]
  generalize false = last
  fun_induction minimizeLoop last text with
  | case1 => rfl
  | case2 rest ih =>
    rw [isUtf8, runeTail_ascii (by decide), drop_zero, Bool.and_eq_true] at isText
    rw [ih isText.2, WildcardMatch.minimizeLoop, if_pos rfl, if_pos rfl]
  | case3 last rest notLast ih =>
    rw [isUtf8, runeTail_ascii (by decide), drop_zero, Bool.and_eq_true] at isText
    rw [ih isText.2, WildcardMatch.minimizeLoop, if_pos rfl, if_neg notLast]
  | case4 last char rest isPlain ih =>
    rw [isUtf8, Bool.and_eq_true] at isText
    obtain ⟨isFirst, isLater⟩ := isText
    have plain := tail_plain char rest
    rw [if_pos isFirst, ih isLater, WildcardMatch.minimizeLoop, if_neg isPlain, cons_append]
    have minimized := minimizeLoop_plain plain (rest.drop (runeTail char rest))
    rw [take_append_drop] at minimized
    rw [minimized]

/-! ## Matching -/

theorem matchLoop_ended {vp : Text} (stopped : attempt value pattern = .ended rest) :
    matchLoop value vp pattern = rest.all (· == '*') := by
  rw [matchLoop]
  split
  case h_1 found => rw [stopped] at found; cases found; rfl
  case h_2 found => rw [stopped] at found; cases found
  case h_3 found => rw [stopped] at found; cases found

theorem matchLoop_asterisk {vp : Text} (stopped : attempt value pattern = .asterisk later rest) :
    matchLoop value vp pattern = if rest = [] then true else matchLoop later later.tail rest := by
  rw [matchLoop]
  split
  case h_1 found => rw [stopped] at found; cases found
  case h_2 found => rw [stopped] at found; cases found; rfl
  case h_3 found => rw [stopped] at found; cases found

theorem matchLoop_mismatch {vp : Text} (stopped : attempt value pattern = .mismatch) :
    matchLoop value vp pattern = matchLoop vp vp.tail pattern := by
  rw [matchLoop]
  split
  case h_1 found => rw [stopped] at found; cases found
  case h_2 found => rw [stopped] at found; cases found
  case h_3 => rfl

/-- From a value on, with `vp` behind its first byte, the loops of the agents are the same. -/
theorem matchLoop_tail (value pattern : Text) :
    matchLoop value value.tail pattern = WildcardMatch.matchLoop value pattern := by
  fun_induction WildcardMatch.matchLoop value pattern with
  | case1 value pattern rest stopped => exact matchLoop_ended stopped
  | case2 value pattern later stopped => rw [matchLoop_asterisk stopped, if_pos rfl]
  | case3 value pattern later rest stopped isMore ih =>
    rw [matchLoop_asterisk stopped, if_neg isMore, ih]
  | case4 pattern stopped =>
    have spec := attempt_spec [] pattern
    rw [stopped] at spec
    exact absurd rfl spec.1
  | case5 pattern char pivot stopped ih =>
    rw [matchLoop_mismatch stopped]
    exact ih

/-- Beginning the value once more, or at an asterisk, makes no difference. -/
theorem matchLoop_eq {vp : Text} (isStart : vp = value ∨ attempt value pattern ≠ .mismatch) :
    matchLoop value vp pattern = WildcardMatch.matchLoop value pattern := by
  cases stopped : attempt value pattern with
  | ended rest => rw [matchLoop_ended stopped, WildcardMatch.matchLoop_ended stopped]
  | asterisk later rest =>
    rw [matchLoop_asterisk stopped, WildcardMatch.matchLoop_asterisk stopped, matchLoop_tail]
  | mismatch =>
    obtain rfl := isStart.resolve_right fun noMismatch => noMismatch stopped
    rw [matchLoop_mismatch stopped, matchLoop_tail]

theorem prefixLoop_spec (value pattern : Text) :
    match prefixLoop value pattern with
    | none => ¬Matches '*' pattern value
    | some none =>
      (∀ byte ∈ pattern, byte ≠ '*') ∨
        value.length < (pattern.takeWhile (· != '*')).length
    | some (some (later, rest)) =>
      ∃ segment after, (∀ byte ∈ segment, byte ≠ '*') ∧ pattern = segment ++ '*' :: after ∧
        rest = '*' :: after ∧ later = value.drop segment.length := by
  fun_induction prefixLoop value pattern with
  | case1 value => exact Or.inl (by simp)
  | case2 value rest => exact ⟨[], rest, by simp, rfl, rfl, rfl⟩
  | case3 char rest isPlain =>
    refine Or.inr ?_
    rw [takeWhile_cons_of_pos (by simpa using isPlain)]
    exact Nat.succ_pos _
  | case4 char rest isPlain first later differs =>
    intro isMatch
    obtain ⟨after, same, -⟩ := (matches_plain isPlain).mp isMatch
    exact differs (cons.inj same).1
  | case5 char rest isPlain first later same ih =>
    obtain rfl : first = char := not_not.mp same
    have plain := tail_plain first rest
    obtain ⟨tail, more, isRest, isCount⟩ : ∃ tail more, rest = tail ++ more ∧
        tail.length = runeTail first rest :=
      ⟨rest.take (runeTail first rest), rest.drop (runeTail first rest),
        (take_append_drop _ _).symm, length_take_of_le (runeTail_le first rest)⟩
    rw [← isCount] at plain ih ⊢
    subst isRest
    rw [drop_left] at ih ⊢
    rw [take_left] at plain
    have allPlain : ∀ byte ∈ first :: tail, byte ≠ '*' :=
      forall_mem_cons.mpr ⟨isPlain, plain⟩
    cases ended : prefixLoop (later.drop tail.length) more with
    | none =>
      rw [ended] at ih
      intro isMatch
      obtain ⟨after, same, isAfter⟩ := (matches_segment allPlain).mp isMatch
      rw [cons_append] at same
      rw [(cons.inj same).2, drop_left] at ih
      exact ih isAfter
    | some reached =>
      rw [ended] at ih
      cases reached with
      | none =>
        rcases ih with morePlain | short
        · refine Or.inl fun byte member => ?_
          rw [← cons_append] at member
          rcases mem_append.mp member with isTail | isMore
          · exact allPlain byte isTail
          · exact morePlain byte isMore
        · refine Or.inr ?_
          rw [← cons_append,
            takeWhile_append_of_pos fun byte member => by simpa using allPlain byte member]
          rw [length_drop] at short
          simp only [length_append, length_cons]
          omega
      | some place =>
        obtain ⟨segment, after, isSegment, rfl, isEnd, isLater⟩ := ih
        refine ⟨first :: tail ++ segment, after, ?_, by simp, isEnd, ?_⟩
        · intro byte member
          rcases mem_append.mp member with isTail | isMore
          · exact allPlain byte isTail
          · exact isSegment byte isMore
        · rw [isLater, drop_drop, cons_append, length_cons, drop_succ_cons,
            length_append]

/--
`Match` is right for this value and this pattern.  A pattern without an asterisk is not
taken for a longer value that ends with it, and what stands before an asterisk is not
taken for other bytes inside runes.
-/
def Sure (value pattern : Text) : Prop :=
  match prefixLoop value pattern with
  | none => True
  | some none => pattern = [] ∨ pattern = value ∨ ¬pattern <:+ value
  | some (some (later, rest)) =>
    pattern.takeWhile (· != '*') <+: value ∨ zbxWildcardMatch later rest = false

theorem matchLoop_plain (plain : ∀ byte ∈ pattern, byte ≠ '*') (value : Text) :
    matchLoop value value pattern = true ↔ pattern <:+ value := by
  rw [matchLoop_eq (Or.inl rfl), WildcardMatch.matchLoop_iff, matches_star]
  constructor
  · rintro ⟨rest, isSuffix, isMatch⟩
    rw [matches_text plain] at isMatch
    exact isMatch ▸ isSuffix
  · exact fun isSuffix => ⟨pattern, isSuffix, (matches_text plain).mpr rfl⟩

/-- A pattern whose text before the first asterisk is longer than the value. -/
theorem not_matches_of_short (short : value.length < (pattern.takeWhile (· != '*')).length) :
    ¬Matches '*' pattern value := by
  have split := takeWhile_append_dropWhile (p := (· != '*')) (l := pattern)
  have plain : ∀ byte ∈ pattern.takeWhile (· != '*'), byte ≠ '*' :=
    fun byte member => by simpa using mem_takeWhile_imp member
  intro isMatch
  rw [← split] at isMatch
  obtain ⟨rest, same, -⟩ := (matches_segment plain).mp isMatch
  rw [same, length_append] at short
  omega

/-- An asterisk matches from any place as it does in the agent. -/
theorem matchLoop_star (vp rest later : Text) :
    matchLoop later vp ('*' :: rest) = zbxWildcardMatch later ('*' :: rest) := by
  have isStart : attempt later ('*' :: rest) ≠ .mismatch := by
    cases later with
    | nil => exact fun found => (nomatch found)
    | cons first after => exact fun found => (nomatch found)
  rw [matchLoop_eq (Or.inr isStart), Bool.eq_iff_iff, WildcardMatch.matchLoop_iff,
    zbxWildcardMatch_iff, matches_star_star]

/-- `Match` gives what `zbx_wildcard_match` gives exactly where it is right. -/
theorem wildcardMatch_eq_iff (value pattern : Text) :
    wildcardMatch value pattern = zbxWildcardMatch value pattern ↔ Sure value pattern := by
  have spec := prefixLoop_spec value pattern
  rw [wildcardMatch, Sure]
  cases ended : prefixLoop value pattern with
  | none =>
    rw [ended] at spec
    have notMatched : zbxWildcardMatch value pattern = false :=
      Bool.eq_false_iff.mpr fun isMatch => spec ((zbxWildcardMatch_iff _ _).mp isMatch)
    exact iff_of_true notMatched.symm trivial
  | some reached =>
    rw [ended] at spec
    cases reached with
    | none =>
      dsimp only
      rw [Bool.eq_iff_iff, zbxWildcardMatch_iff]
      rcases spec with plain | short
      · rw [matches_text plain]
        split_ifs with isEmpty
        · subst isEmpty
          exact iff_of_true beq_iff_eq (Or.inl rfl)
        · rw [matchLoop_plain plain, or_iff_right isEmpty]
          constructor
          · intro same
            by_cases isSuffix : pattern <:+ value
            · exact Or.inl (same.mp isSuffix).symm
            · exact Or.inr isSuffix
          · rintro (rfl | notSuffix)
            · exact iff_of_true suffix_rfl rfl
            · exact iff_of_false notSuffix fun same => notSuffix (same ▸ suffix_rfl)
      · have nonempty : pattern ≠ [] := by
          rintro rfl
          exact Nat.not_lt_zero _ short
        have notFound : ¬matchLoop value value pattern = true := by
          rw [matchLoop_eq (Or.inl rfl), WildcardMatch.matchLoop_iff, matches_star]
          rintro ⟨rest, isSuffix, isMatch⟩
          exact not_matches_of_short (Nat.lt_of_le_of_lt isSuffix.length_le short) isMatch
        have notSuffix : ¬pattern <:+ value := by
          intro isSuffix
          have longer := ( takeWhile_prefix (l := pattern) (· != '*')).length_le
          exact absurd isSuffix.length_le (by omega)
        rw [if_neg nonempty]
        exact iff_of_true (iff_of_false notFound (not_matches_of_short short))
          (Or.inr (Or.inr notSuffix))
    | some place =>
      obtain ⟨later, rest⟩ := place
      obtain ⟨segment, after, plain, rfl, rfl, isLater⟩ := spec
      dsimp only
      have isSegment : (segment ++ '*' :: after).takeWhile (· != '*') = segment :=
        (split_while (fun byte member => by simpa using plain byte member) (by decide) after).1
      rw [matchLoop_star, isSegment]
      by_cases isPrefix : segment <+: value
      · obtain ⟨rest, rfl⟩ := isPrefix
        rw [isLater, drop_left, Bool.eq_iff_iff, zbxWildcardMatch_iff, zbxWildcardMatch_iff,
          matches_append plain]
        exact iff_of_true Iff.rfl (Or.inl (prefix_append segment rest))
      · have notMatched : zbxWildcardMatch value (segment ++ '*' :: after) = false := by
          rw [Bool.eq_false_iff]
          intro isMatch
          rw [zbxWildcardMatch_iff] at isMatch
          obtain ⟨rest, rfl, -⟩ := (matches_segment plain).mp isMatch
          exact isPrefix (prefix_append segment rest)
        rw [notMatched, or_iff_right isPrefix]

theorem sure_of_zbxWildcardMatch (isMatch : zbxWildcardMatch value pattern = true) :
    Sure value pattern := by
  rw [zbxWildcardMatch_iff] at isMatch
  have spec := prefixLoop_spec value pattern
  rw [Sure]
  cases ended : prefixLoop value pattern with
  | none => trivial
  | some reached =>
    rw [ended] at spec
    cases reached with
    | none =>
      rcases spec with plain | short
      · exact Or.inr (Or.inl ((matches_text plain).mp isMatch).symm)
      · exact absurd isMatch (not_matches_of_short short)
    | some place =>
      obtain ⟨later, rest⟩ := place
      obtain ⟨segment, after, plain, rfl, rfl, isLater⟩ := spec
      obtain ⟨rest, rfl, -⟩ := (matches_segment plain).mp isMatch
      have isSegment : (segment ++ '*' :: after).takeWhile (· != '*') = segment :=
        (split_while (fun byte member => by simpa using plain byte member) (by decide) after).1
      dsimp only
      rw [isSegment]
      exact Or.inl (prefix_append segment rest)

end Zabbix.KeyAccess.Agent2Wildcard
