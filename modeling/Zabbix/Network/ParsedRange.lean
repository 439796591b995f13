import Zabbix.Network.IpRange

/-!
# What a parsed range is

The parser leaves as many groups as the type has, each with its bounds in order, and behind an
IPv4 mask the last group has four values or more.
-/

namespace Zabbix.Network.ParsedRange

open Common.Text Common.Integers IpRange List Option

/-- The bounds of a group are in order and below the limit. -/
def Ordered (limit : Nat) (range : Range) : Prop :=
  range.fromValue ≤ range.toValue ∧ range.toValue < limit

structure Valid (iprange : IpRange) : Prop where
  groups : iprange.range.length = iprange.type.groups
  ordered : ∀ range ∈ iprange.range, Ordered (2 ^ iprange.type.groupBits) range
  ends : excludesEnds iprange = true → ∀ last ∈ iprange.range.getLast?,
    last.fromValue + 3 ≤ last.toValue

/-! ## Groups -/

variable {masked : Bool} {address ptr stop : Text} {limit : Nat}

def ReadsBelow (limit : Nat) (number : Text → Nat → Option Nat) : Prop :=
  ∀ text n value, number text n = some value → value < limit

theorem inRange_le {min max value : Nat} {found : Option Nat}
    (isValue : inRange min max found = some value) : value ≤ max := by
  have isWithin := (filter_eq_some_iff.mp isValue).2
  simp only [Bool.and_eq_true, decide_eq_true_eq] at isWithin
  exact isWithin.2

theorem readsBelow_uint : ReadsBelow (2 ^ 8) fun text n => isUintNRange text n 0 255 := by
  intro text n value isValue
  dsimp only at isValue
  unfold isUintNRange at isValue
  split at isValue
  · cases isValue
  · exact Nat.lt_succ_of_le (inRange_le isValue)

theorem readsBelow_hex : ReadsBelow (2 ^ 16) fun text n => isHexNRange text n 0 0xffff := by
  intro text n value isValue
  dsimp only at isValue
  unfold isHexNRange at isValue
  split at isValue
  · cases isValue
  · exact Nat.lt_succ_of_le (inRange_le isValue)

theorem ordered_of_groupParse {number : Text → Nat → Option Nat} {range : Range}
    (reads : ReadsBelow limit number)
    (parsed : groupParse number masked address ptr = some range) : Ordered limit range := by
  unfold groupParse at parsed
  split at parsed
  · cases parsed
  · split at parsed
    · obtain ⟨value, isValue, rfl⟩ := map_eq_some_iff.mp parsed
      exact ⟨le_rfl, reads _ _ _ isValue⟩
    · obtain ⟨fromValue, -, parsed⟩ := bind_eq_some_iff.mp parsed
      obtain ⟨toValue, isTo, parsed⟩ := bind_eq_some_iff.mp parsed
      split at parsed
      · cases parsed
      · next isOrder =>
          cases parsed
          exact ⟨not_lt.mp isOrder, reads _ _ _ isTo⟩

/-! ## Masks -/

theorem maskGroup_le (maskBits : Nat) (range : Range) :
    (maskGroup maskBits range).fromValue ≤ range.fromValue ∧
      range.toValue ≤ (maskGroup maskBits range).toValue :=
  ⟨Nat.and_le_left, Nat.left_le_or⟩

theorem ordered_maskGroup {bits maskBits : Nat} {range : Range} (fits : maskBits ≤ bits)
    (isWord : bits ≤ 32) (isOrdered : Ordered (2 ^ bits) range) :
    Ordered (2 ^ bits) (maskGroup maskBits range) := by
  obtain ⟨isFrom, isTo⟩ := maskGroup_le maskBits range
  refine ⟨isFrom.trans (isOrdered.1.trans isTo), ?_⟩
  refine Nat.or_lt_two_pow isOrdered.2 ?_
  rw [Nat.shiftRight_eq_div_pow]
  have isSmall : 0xffffffff / 2 ^ (32 - maskBits) < 2 ^ maskBits := by
    rw [Nat.div_lt_iff_lt_mul (Nat.two_pow_pos _), ← Nat.pow_add, Nat.add_sub_cancel' (by omega)]
    decide
  exact isSmall.trans_le (Nat.pow_le_pow_right (by decide) fits)

theorem maskGroup_wide {maskBits : Nat} {range : Range} (isWide : 2 ≤ maskBits)
    (fits : maskBits ≤ 8) (isOrdered : range.fromValue ≤ range.toValue) :
    (maskGroup maskBits range).fromValue + 3 ≤ (maskGroup maskBits range).toValue := by
  obtain ⟨isFrom, isTo⟩ := maskGroup_le maskBits range
  have lowFrom : (maskGroup maskBits range).fromValue % 2 ^ 2 = 0 := by
    have all : ∀ bits < 9, 2 ≤ bits → ((0xffffffff <<< bits) % 2 ^ 32) % 2 ^ 2 = 0 := by decide
    rw [maskGroup, Nat.and_mod_two_pow, all maskBits (Nat.lt_succ_of_le fits) isWide, Nat.and_zero]
  have lowTo : (maskGroup maskBits range).toValue % 2 ^ 2 = 3 := by
    have all : ∀ bits < 9, 2 ≤ bits → (0xffffffff >>> (32 - bits)) % 2 ^ 2 = 3 := by decide
    have allLow : ∀ low < 4, low ||| 3 = 3 := by decide
    rw [maskGroup, Nat.or_mod_two_pow, all maskBits (Nat.lt_succ_of_le fits) isWide]
    exact allLow _ (Nat.mod_lt _ (by decide))
  omega

theorem length_maskLoop (groupBits bits : Nat) (ranges : List Range) :
    (maskLoop groupBits bits ranges).length = ranges.length := by
  induction ranges generalizing bits with
  | nil => rfl
  | cons range rest ih =>
    rw [maskLoop]
    split
    · rw [length_cons, length_cons, ih]
    · rfl

theorem ordered_maskLoop {groupBits : Nat} (isWord : groupBits ≤ 32) (bits : Nat)
    {ranges : List Range} (areOrdered : ∀ range ∈ ranges, Ordered (2 ^ groupBits) range) :
    ∀ range ∈ maskLoop groupBits bits ranges, Ordered (2 ^ groupBits) range := by
  induction ranges generalizing bits with
  | nil => exact areOrdered
  | cons first rest ih =>
    rw [maskLoop]
    split
    · rintro range (_ | ⟨_, isIn⟩)
      · exact ordered_maskGroup (Nat.min_le_right _ _) isWord
          (areOrdered first mem_cons_self)
      · exact ih _ (fun other isOther => areOrdered other (mem_cons_of_mem _ isOther))
          range isIn
    · exact areOrdered

theorem applyMask_valid {type : IpType} {bits : Nat} {ranges : List Range}
    (isGroups : ranges.length = type.groups)
    (areOrdered : ∀ range ∈ ranges, Ordered (2 ^ type.groupBits) range) :
    (applyMask type bits ranges).length = type.groups ∧
      ∀ range ∈ applyMask type bits ranges, Ordered (2 ^ type.groupBits) range := by
  constructor
  · rw [applyMask, length_reverse, length_maskLoop, length_reverse, isGroups]
  · intro range isIn
    have isWord : type.groupBits ≤ 32 := by cases type <;> decide
    refine ordered_maskLoop isWord _ (fun other isOther => ?_) range (mem_reverse.mp isIn)
    exact areOrdered other (mem_reverse.mp isOther)

theorem applyMask_wide {bits : Nat} {ranges : List Range} (isMask : bits ≤ 30)
    (areOrdered : ∀ range ∈ ranges, range.fromValue ≤ range.toValue) :
    ∀ last ∈ (applyMask .v4 bits ranges).getLast?, last.fromValue + 3 ≤ last.toValue := by
  intro last isLast
  rw [applyMask, getLast?_reverse] at isLast
  cases reversed : ranges.reverse with
  | nil =>
    rw [reversed] at isLast
    cases isLast
  | cons first rest =>
    have isFree : 0 < IpType.v4.groups * IpType.v4.groupBits - bits := by
      simp only [IpType.groups, IpType.groupBits]
      omega
    rw [reversed, maskLoop, if_pos isFree] at isLast
    obtain rfl := some.inj isLast
    refine maskGroup_wide ?_ (Nat.min_le_right _ _) ?_
    · simp only [IpType.groups, IpType.groupBits]
      omega
    · exact areOrdered first (mem_reverse.mp (by rw [reversed]; exact mem_cons_self))

/-! ## IPv4 -/

theorem v4Loop_ordered {left : Nat} {ranges : List Range}
    (ran : v4Loop masked stop left address ptr = some ranges) :
    ∀ range ∈ ranges, Ordered (2 ^ 8) range := by
  induction left generalizing address ptr ranges with
  | zero =>
    cases ran
    nofun
  | succ left ih =>
    rw [v4Loop] at ran
    split at ran
    · obtain ⟨first, isFirst, ran⟩ := bind_eq_some_iff.mp ran
      obtain ⟨others, isOthers, rfl⟩ := map_eq_some_iff.mp ran
      rintro range (_ | ⟨_, isIn⟩)
      · exact ordered_of_groupParse readsBelow_uint isFirst
      · exact ih isOthers range isIn
    · cases ran
      nofun

theorem maskParse_le {maxBits bits : Nat} (parsed : maskParse maxBits address = some (some bits, stop)) :
    bits ≤ maxBits := by
  unfold maskParse at parsed
  split at parsed
  · obtain ⟨value, isValue, same⟩ := map_eq_some_iff.mp parsed
    obtain ⟨isBits, -⟩ := Prod.mk.inj same
    obtain rfl := some.inj isBits
    unfold isUintNRange at isValue
    split at isValue
    · cases isValue
    · exact inRange_le isValue
  · cases parsed

theorem valid_of_iprangev4Parse {iprange : IpRange}
    (parsed : iprangev4Parse address = some iprange) : Valid iprange := by
  obtain ⟨⟨bits, stop⟩, isMask, parsed⟩ := bind_eq_some_iff.mp parsed
  obtain ⟨ranges, ran, parsed⟩ := bind_eq_some_iff.mp parsed
  have areOrdered := v4Loop_ordered ran
  split at parsed
  · cases parsed
  · next isGroups =>
      rw [not_not] at isGroups
      obtain rfl := some.inj parsed
      cases bits with
      | none => exact ⟨isGroups, areOrdered, nofun⟩
      | some bits =>
        obtain ⟨length, ordered⟩ : (applyMask .v4 bits ranges).length = _ ∧ _ :=
          applyMask_valid isGroups areOrdered
        exact ⟨length, ordered, fun _ => applyMask_wide (maskParse_le isMask)
          fun range isIn => (areOrdered range isIn).1⟩

/-! ## IPv6 -/

/-- The groups of the loop are in order, and the filled one is among them. -/
structure Filled (groups : Groups) : Prop where
  ordered : ∀ range ∈ groups.range, Ordered (2 ^ 16) range
  fill : ∀ fill ∈ groups.fill, fill < groups.range.length

theorem filled_nil : Filled ⟨[], none⟩ :=
  ⟨fun _ isIn => absurd isIn not_mem_nil, fun _ isFill => absurd isFill (not_mem_none _)⟩

theorem Filled.append {groups : Groups} {range : Range} (filled : Filled groups)
    (isOrdered : Ordered (2 ^ 16) range) :
    Filled { groups with range := groups.range ++ [range] } := by
  refine ⟨fun other isIn => ?_, fun fill isFill => ?_⟩
  · obtain isIn | isIn := mem_append.mp isIn
    · exact filled.ordered other isIn
    · obtain rfl := mem_singleton.mp isIn
      exact isOrdered
  · rw [length_append]
    exact Nat.lt_add_right _ (filled.fill fill isFill)

/-- What a turn leaves when it does not refuse the text. -/
def Turn.Filled : Turn → Prop
  | .refused => True
  | .finished groups => ParsedRange.Filled groups
  | .goesOn groups _ => ParsedRange.Filled groups

theorem checkFill_filled {behind : Char} {groups : Groups} (filled : Filled groups) :
    Turn.Filled (checkFill behind stop groups ptr) := by
  have zero : Ordered (2 ^ 16) ⟨0, 0⟩ := ⟨le_rfl, by decide⟩
  have isFilled : Filled { range := groups.range ++ [⟨0, 0⟩], fill := some groups.range.length } := by
    refine ⟨(filled.append zero).ordered, fun fill isFill => ?_⟩
    obtain rfl := some.inj isFill
    rw [length_append]
    exact Nat.lt_succ_self _
  unfold checkFill
  split
  · split
    · trivial
    · dsimp only
      split
      · exact isFilled
      · exact isFilled
  · exact filled

theorem v6Turn_filled {behind : Char} {groups : Groups} (filled : Filled groups) :
    Turn.Filled (v6Turn behind masked stop groups address) := by
  unfold v6Turn
  dsimp only
  split
  · split
    · exact checkFill_filled filled
    · trivial
  · split
    · trivial
    · next parsed =>
        exact checkFill_filled (filled.append (ordered_of_groupParse readsBelow_hex parsed))

theorem v6Loop_filled {behind : Char} {fuel : Nat} {groups result : Groups}
    (filled : Filled groups)
    (ran : v6Loop behind masked stop fuel groups address ptr = some result) : Filled result := by
  induction fuel generalizing groups address ptr with
  | zero =>
    obtain rfl := some.inj ran
    exact filled
  | succ fuel ih =>
    rw [v6Loop] at ran
    split at ran
    · have turn : Turn.Filled (v6Turn behind masked stop groups address) := v6Turn_filled filled
      split at ran
      · cases ran
      · next isTurn =>
          obtain rfl := some.inj ran
          rwa [isTurn] at turn
      · next isTurn =>
          rw [isTurn] at turn
          exact ih turn ran
    · obtain rfl := some.inj ran
      exact filled

theorem expandFill_valid {fill : Nat} {ranges : List Range}
    (areOrdered : ∀ range ∈ ranges, Ordered (2 ^ 16) range)
    (short : ranges.length < IpType.v6.groups) (isFill : fill < ranges.length) :
    (expandFill fill ranges).length = IpType.v6.groups ∧
      ∀ range ∈ expandFill fill ranges, Ordered (2 ^ 16) range := by
  constructor
  · simp only [expandFill, length_append, length_take, length_replicate,
      length_drop]
    omega
  · intro range isIn
    simp only [expandFill, mem_append, mem_replicate] at isIn
    obtain (isIn | ⟨-, rfl⟩) | isIn := isIn
    · exact areOrdered range (mem_of_mem_take isIn)
    · exact ⟨le_rfl, by decide⟩
    · exact areOrdered range (mem_of_mem_drop isIn)

theorem valid_v6 {bits : Option Nat} {ranges : List Range}
    (isGroups : ranges.length = IpType.v6.groups)
    (areOrdered : ∀ range ∈ ranges, Ordered (2 ^ 16) range) :
    Valid { range := applyBits .v6 ranges bits, type := .v6, mask := bits.isSome } := by
  cases bits with
  | none => exact ⟨isGroups, areOrdered, nofun⟩
  | some bits =>
    obtain ⟨length, ordered⟩ : (applyMask .v6 bits ranges).length = _ ∧ _ :=
      applyMask_valid isGroups areOrdered
    exact ⟨length, ordered, nofun⟩

theorem valid_of_iprangev6Parse {behind : Char} {iprange : IpRange}
    (parsed : (iprangev6Parse behind address).result = some iprange) : Valid iprange := by
  unfold iprangev6Parse at parsed
  split at parsed
  · cases parsed
  · next bits stop isMask =>
      split at parsed
      · cases parsed
      · next groups ran =>
          have filled := v6Loop_filled filled_nil ran
          split at parsed
          · cases parsed
          · next fits =>
              dsimp only at parsed
              obtain ⟨ranges, isRange, rfl⟩ := map_eq_some_iff.mp parsed
              split at isRange
              · next short =>
                  obtain ⟨fill, isFill, rfl⟩ := map_eq_some_iff.mp isRange
                  obtain ⟨length, ordered⟩ :=
                    expandFill_valid filled.ordered short (filled.fill fill isFill)
                  exact valid_v6 length ordered
              · next notShort =>
                  obtain rfl := some.inj isRange
                  exact valid_v6 (by omega) filled.ordered

theorem valid_of_iprangeParse {behind : Char} {iprange : IpRange}
    (parsed : (iprangeParse behind address).result = some iprange) : Valid iprange := by
  unfold iprangeParse at parsed
  dsimp only at parsed
  split at parsed
  · exact valid_of_iprangev4Parse parsed
  · exact valid_of_iprangev6Parse parsed

end Zabbix.Network.ParsedRange
