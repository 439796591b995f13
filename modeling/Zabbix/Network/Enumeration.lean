import Zabbix.Library.Odometer
import Zabbix.Network.ParsedRange

/-!
# All addresses of a range

The functions that walk through a range are an odometer over its groups.  Behind an IPv4 mask
the first and the last address are left out.
-/

namespace Zabbix.Network.Enumeration

open Common.Integers Library.Odometer IpRange Option List
  Zabbix.Network.ParsedRange

variable {ranges : List Range} {address : List Nat}

def Within (ranges : List Range) (address : List Nat) : Prop :=
  List.Forall₂ (fun range value => range.fromValue ≤ value ∧ value ≤ range.toValue) ranges address

/-- All addresses of the groups, in lexicographic order. -/
def addresses (ranges : List Range) : List (List Nat) :=
  cells Range.fromValue Range.toValue ranges

theorem mem_addresses : address ∈ addresses ranges ↔ Within ranges address :=
  mem_cells

theorem within_iff :
    Within ranges address ↔
      address.length = ranges.length ∧ iprangeValidate ranges address = true := by
  unfold Within
  induction ranges generalizing address with
  | nil => cases address <;> simp [iprangeValidate]
  | cons range ranges ih =>
    cases address with
    | nil => simp
    | cons value values =>
      rw [List.forall₂_cons, ih, iprangeValidate]
      simp only [length_cons, Nat.add_right_cancel_iff]
      split
      · next isOutside =>
          simp only [Bool.or_eq_true, decide_eq_true_eq] at isOutside
          simp only [Bool.false_eq_true, and_false, iff_false, not_and]
          omega
      · next isInside =>
          simp only [Bool.or_eq_true, decide_eq_true_eq] at isInside
          constructor
          · rintro ⟨-, isRest⟩
            exact isRest
          · intro isRest
            exact ⟨by omega, isRest⟩

/-! ## The next address -/

/-- The groups that have reached their last value start again. -/
def restart (ranges : List Range) (values : List Nat) : List Nat :=
  List.zipWith (fun range value =>
    if range.fromValue < range.toValue then range.fromValue else value) ranges values

theorem restart_within (within : Within ranges address) :
    restart ranges address = ranges.map Range.fromValue := by
  unfold Within at within
  induction within with
  | nil => rfl
  | @cons range value ranges values isWithin _ ih =>
    rw [restart, zipWith_cons_cons, map_cons]
    refine congrArg₂ List.cons ?_ ih
    split
    · rfl
    · omega

theorem nextLoop_append {values : List Nat} (range : Range) (value : Nat)
    (sameLength : ranges.length = values.length) :
    nextLoop (ranges ++ [range]) (values ++ [value]) =
      match nextLoop ranges values with
      | some raised => some (raised ++ [value])
      | none =>
        if value < range.toValue then some (restart ranges values ++ [value + 1]) else none := by
  induction ranges generalizing values with
  | nil =>
    obtain rfl := eq_nil_of_length_eq_zero sameLength.symm
    by_cases isBelow : value < range.toValue
    · simp [nextLoop, restart, isBelow]
    · simp [nextLoop, isBelow]
  | cons first ranges ih =>
    cases values with
    | nil => cases sameLength
    | cons digit values =>
      rw [cons_append, cons_append, nextLoop, nextLoop, ih (Nat.succ.inj sameLength)]
      by_cases isBelow : digit < first.toValue
      · rw [if_pos isBelow, if_pos isBelow]
        rfl
      · rw [if_neg isBelow, if_neg isBelow]
        cases nextLoop ranges values with
        | some raised => rfl
        | none =>
          by_cases isRaised : value < range.toValue
          · simp [isRaised, restart]
          · simp [isRaised]

/-- The loop from the last group on counts like an odometer. -/
theorem nextLoop_reverse (within : Within ranges address) :
    (nextLoop ranges.reverse address.reverse).map List.reverse =
      next Range.fromValue Range.toValue ranges address := by
  have all : Within ranges address := within
  unfold Within at within
  induction within with
  | nil => rfl
  | @cons range value ranges values isWithin isRest ih =>
    have sameLength : ranges.reverse.length = values.reverse.length := by
      rw [length_reverse, length_reverse, isRest.length_eq]
    have isRestart : restart ranges.reverse values.reverse =
        ranges.reverse.map Range.fromValue := restart_within (List.forall₂_reverse_iff.mpr isRest)
    rw [reverse_cons, reverse_cons, nextLoop_append range value sameLength, Library.Odometer.next,
      ← ih isRest, isRestart]
    cases nextLoop ranges.reverse values.reverse with
    | some raised => simp
    | none =>
      by_cases isBelow : value < range.toValue
      · simp [isBelow]
      · simp [isBelow]

/-! ## The walk -/

variable {iprange : IpRange}

theorem le_of_valid (valid : Valid iprange) :
    ∀ range ∈ iprange.range, range.fromValue ≤ range.toValue :=
  fun range isIn => (valid.ordered range isIn).1

def visited (iprange : IpRange) : List (List Nat) :=
  if excludesEnds iprange then (addresses iprange.range).dropLast.tail
  else addresses iprange.range

theorem visits_all (valid : Valid iprange) (notExcluded : excludesEnds iprange = false) :
    Visits (iprangeNext iprange) (iprangeFirst iprange) (addresses iprange.range) := by
  have isFirst : iprangeFirst iprange = iprange.range.map Range.fromValue := by
    rw [iprangeFirst, notExcluded]
    rfl
  rw [isFirst]
  refine (visits_cells (le_of_valid valid)).congr fun address isIn => ?_
  rw [← nextLoop_reverse (mem_addresses.mp isIn), iprangeNext]
  simp only [notExcluded, Bool.false_eq_true, false_and, if_false]
  cases nextLoop iprange.range.reverse address.reverse <;> rfl

theorem iprangeNext_excluded (excluded : excludesEnds iprange = true)
    (within : Within iprange.range address) :
    iprangeNext iprange address =
      (next Range.fromValue Range.toValue iprange.range address).filter
        (· ≠ iprange.range.map Range.toValue) := by
  rw [← nextLoop_reverse within, iprangeNext]
  cases nextLoop iprange.range.reverse address.reverse with
  | none => rfl
  | some values =>
    simp only [excluded, true_and, bind_some, map_some]
    by_cases isTop : values.reverse = iprange.range.map Range.toValue
    · simp [isTop, filter_some]
    · rw [if_neg isTop]
      simp [isTop, filter_some]

/-- The second address has the last number raised. -/
theorem next_first (ranges : List Range)
    (isWide : ∀ last ∈ ranges.getLast?, last.fromValue < last.toValue) (notEmpty : ranges ≠ []) :
    next Range.fromValue Range.toValue ranges (ranges.map Range.fromValue) =
      some (incrementLast (ranges.map Range.fromValue)) := by
  induction ranges with
  | nil => exact absurd rfl notEmpty
  | cons range ranges ih =>
    cases ranges with
    | nil =>
      have isBelow : range.fromValue < range.toValue := isWide range rfl
      simp [Library.Odometer.next, incrementLast, isBelow]
    | cons second others =>
      have isNext := ih (by simpa using isWide) (cons_ne_nil _ _)
      rw [map_cons, Library.Odometer.next, isNext]
      rfl

/-! ## The network and the broadcast address -/

theorem ne_nil_of_valid (valid : Valid iprange) : iprange.range ≠ [] := by
  have notZero : iprange.type.groups ≠ 0 := by cases iprange.type <;> decide
  rintro isEmpty
  rw [← valid.groups, isEmpty] at notZero
  exact notZero rfl

theorem isTop_of_valid (valid : Valid iprange) :
    (addresses iprange.range).getLast? = some (iprange.range.map Range.toValue) :=
  getLast?_cells (le_of_valid valid)

theorem nodup_addresses : (addresses ranges).Nodup :=
  pairwise_cells.imp fun isLess => ne_of_lt isLess

/-- The number of addresses. -/
def total (ranges : List Range) : Nat :=
  (ranges.map fun range => range.toValue + 1 - range.fromValue).prod

theorem length_addresses : (addresses ranges).length = total ranges :=
  length_cells

theorem one_le_prod {numbers : List Nat} (positive : ∀ number ∈ numbers, 1 ≤ number) :
    1 ≤ numbers.prod := by
  induction numbers with
  | nil => exact le_rfl
  | cons number numbers ih =>
    rw [prod_cons]
    exact Nat.mul_pos (positive number mem_cons_self)
      (ih fun other isIn => positive other (mem_cons_of_mem _ isIn))

theorem one_le_total (ordered : ∀ range ∈ ranges, range.fromValue ≤ range.toValue) :
    1 ≤ total ranges := by
  refine one_le_prod fun number isIn => ?_
  obtain ⟨range, isRange, rfl⟩ := mem_map.mp isIn
  have isOrdered := ordered range isRange
  omega

theorem four_le_total (valid : Valid iprange) (excluded : excludesEnds iprange = true) :
    4 ≤ total iprange.range := by
  obtain ⟨init, last, same⟩ : ∃ init last, iprange.range = init ++ [last] :=
    ⟨_, _, (dropLast_append_getLast (ne_nil_of_valid valid)).symm⟩
  have isWide := valid.ends excluded last (by rw [same, getLast?_concat]; rfl)
  have isPositive : 1 ≤ total init := one_le_total fun range isIn =>
    le_of_valid valid range (by rw [same]; exact mem_append_left _ isIn)
  rw [total, same, map_append, prod_append, map_singleton, prod_singleton]
  exact Nat.mul_le_mul isPositive (by omega : 4 ≤ last.toValue + 1 - last.fromValue)

theorem visits_inner (valid : Valid iprange) (excluded : excludesEnds iprange = true) :
    Visits (iprangeNext iprange) (iprangeFirst iprange) (addresses iprange.range).dropLast.tail := by
  have enough := four_le_total valid excluded
  rw [← length_addresses] at enough
  have isOnce : iprange.range.map Range.toValue ∉ (addresses iprange.range).dropLast := by
    have isNodup : (addresses iprange.range).Nodup := nodup_addresses
    rw [← dropLast_append_getLast? _ (isTop_of_valid valid)] at isNodup
    exact fun isIn => (nodup_append.mp isNodup).2.2 _ isIn _ mem_cons_self rfl
  have notEmpty : (addresses iprange.range).dropLast ≠ [] := by
    refine ne_nil_of_length_pos ?_
    rw [length_dropLast]
    omega
  have outer := (visits_cells (le_of_valid valid)).dropLast (isTop_of_valid valid) isOnce notEmpty
  have walk : Visits (iprangeNext iprange) (iprange.range.map Range.fromValue)
      (addresses iprange.range).dropLast := by
    refine outer.congr fun address isIn => ?_
    exact (iprangeNext_excluded excluded
      (mem_addresses.mp ((dropLast_sublist _).subset isIn))).symm
  have isWide : ∀ last ∈ iprange.range.getLast?, last.fromValue < last.toValue :=
    fun last isLast => by
      have isFar := valid.ends excluded last isLast
      omega
  have isFirst : iprangeFirst iprange = incrementLast (iprange.range.map Range.fromValue) := by
    rw [iprangeFirst, excluded]
    rfl
  have isLong : 3 ≤ (addresses iprange.range).dropLast.length := by
    rw [length_dropLast]
    omega
  generalize (addresses iprange.range).dropLast = items at walk isLong ⊢
  cases walk with
  | last =>
    rw [length_singleton] at isLong
    omega
  | @more _ second others isStep rest =>
    have within : Within iprange.range (iprange.range.map Range.fromValue) :=
      List.forall₂_map_right_iff.mpr (List.forall₂_same.mpr fun range isIn =>
        ⟨le_rfl, le_of_valid valid range isIn⟩)
    rw [iprangeNext_excluded excluded within, next_first _ isWide (ne_nil_of_valid valid),
      ← isFirst] at isStep
    obtain ⟨isSecond, -⟩ := filter_eq_some_iff.mp isStep
    rw [some.inj isSecond]
    exact rest

theorem mem_dropLast_tail {α : Type} {items : List α} {first last item : α} (nodup : items.Nodup)
    (isFirst : items.head? = some first) (isLast : items.getLast? = some last)
    (differ : first ≠ last) :
    item ∈ items.dropLast.tail ↔ item ∈ items ∧ item ≠ first ∧ item ≠ last := by
  obtain ⟨rest, rfl⟩ := head?_eq_some_iff.mp isFirst
  obtain ⟨init, same⟩ := getLast?_eq_some_iff.mp isLast
  cases init with
  | nil => exact absurd (List.cons.inj same).1 differ
  | cons other middle =>
    obtain ⟨rfl, rfl⟩ := List.cons.inj same
    have isConcat : first :: middle.append [last] = (first :: middle) ++ [last] := rfl
    rw [isConcat] at nodup ⊢
    rw [dropLast_concat, tail_cons]
    obtain ⟨nodupInit, -, apart⟩ := nodup_append.mp nodup
    constructor
    · intro isIn
      have isInit : item ∈ first :: middle := mem_cons_of_mem _ isIn
      refine ⟨mem_append_left _ isInit, ?_, apart item isInit last mem_cons_self⟩
      rintro rfl
      exact (nodup_cons.mp nodupInit).1 isIn
    · rintro ⟨isIn, notFirst, notLast⟩
      obtain isInit | isEnd := mem_append.mp isIn
      · exact (mem_cons.mp isInit).resolve_left notFirst
      · exact absurd (mem_singleton.mp isEnd) notLast

/-! ## The volume -/

theorem volumeLoop_spec {volume : Nat} (isWord : volume ≤ maxUint64)
    (valid : ∀ range ∈ ranges, range.fromValue ≤ range.toValue) :
    volumeLoop volume ranges =
      if volume * total ranges ≤ maxUint64 then some (volume * total ranges) else none := by
  induction ranges generalizing volume with
  | nil =>
    rw [volumeLoop, total, map_nil, prod_nil, Nat.mul_one, if_pos isWord]
  | cons range ranges ih =>
    have isOrdered := valid range mem_cons_self
    have others : ∀ other ∈ ranges, other.fromValue ≤ other.toValue :=
      fun other isIn => valid other (mem_cons_of_mem _ isIn)
    have isTotal : volume * total (range :: ranges) =
        volume * (range.toValue - range.fromValue + 1) * total ranges := by
      rw [total, map_cons, prod_cons, Nat.mul_assoc, Nat.sub_add_comm isOrdered]
      rfl
    rw [volumeLoop, isTotal]
    have overflows : maxUint64 / (range.toValue - range.fromValue + 1) < volume ↔
        maxUint64 < volume * (range.toValue - range.fromValue + 1) :=
      Nat.div_lt_iff_lt_mul (Nat.succ_pos _)
    by_cases isOver : maxUint64 < volume * (range.toValue - range.fromValue + 1)
    · have isPositive : 1 ≤ total ranges := one_le_total others
      rw [if_pos (overflows.mpr isOver), if_neg]
      exact not_le.mpr (isOver.trans_le (Nat.le_mul_of_pos_right _ isPositive))
    · rw [if_neg (fun isLess => isOver (overflows.mp isLess)), ih (not_lt.mp isOver) others]

theorem iprangeVolume_eq (valid : Valid iprange) :
    iprangeVolume iprange =
      if total iprange.range ≤ maxUint64 then
        if excludesEnds iprange then total iprange.range - 2 else total iprange.range
      else maxUint64 := by
  rw [iprangeVolume, volumeLoop_spec (by decide) (le_of_valid valid), Nat.one_mul]
  by_cases fits : total iprange.range ≤ maxUint64
  · rw [if_pos fits, if_pos fits]
  · rw [if_neg fits, if_neg fits]

theorem prod_le_pow {bound : Nat} {numbers : List Nat}
    (areSmall : ∀ number ∈ numbers, number ≤ bound) : numbers.prod ≤ bound ^ numbers.length := by
  induction numbers with
  | nil => exact le_rfl
  | cons number numbers ih =>
    rw [prod_cons, length_cons, Nat.pow_succ']
    exact Nat.mul_le_mul (areSmall number mem_cons_self)
      (ih fun other isIn => areSmall other (mem_cons_of_mem _ isIn))

/-- The groups of an IPv4 range have at most 2^32 addresses. -/
theorem total_v4 (valid : Valid iprange) (excluded : excludesEnds iprange = true) :
    total iprange.range ≤ maxUint64 := by
  have isV4 : iprange.type = .v4 := by
    simp only [excludesEnds, Bool.and_eq_true, decide_eq_true_eq] at excluded
    exact excluded.1
  have isLength := valid.groups
  have isSmall : ∀ number ∈ iprange.range.map fun range => range.toValue + 1 - range.fromValue,
      number ≤ 256 := by
    intro number isIn
    obtain ⟨range, isRange, rfl⟩ := mem_map.mp isIn
    have isBelow := (valid.ordered range isRange).2
    rw [isV4] at isBelow
    have isLimit : 2 ^ IpType.v4.groupBits = 256 := by decide
    omega
  have isBound := prod_le_pow isSmall
  rw [length_map, isLength, isV4] at isBound
  exact isBound.trans (by decide)

/-! ## The walk through a range -/

/-- A list of numbers, one for each group, that the range accepts. -/
def IsAddress (iprange : IpRange) (address : List Nat) : Prop :=
  address.length = iprange.type.groups ∧ iprangeValidate iprange.range address = true

/-- The first address of the range, that of the network behind a mask. -/
def networkAddress (iprange : IpRange) : List Nat :=
  iprange.range.map Range.fromValue

def broadcastAddress (iprange : IpRange) : List Nat :=
  iprange.range.map Range.toValue

theorem mem_visited (valid : Valid iprange) :
    address ∈ visited iprange ↔ IsAddress iprange address ∧
      (excludesEnds iprange = true →
        address ≠ networkAddress iprange ∧ address ≠ broadcastAddress iprange) := by
  have isAddress : address ∈ addresses iprange.range ↔ IsAddress iprange address := by
    rw [mem_addresses, within_iff, IsAddress, valid.groups]
  unfold visited
  split
  · next excluded =>
      have isFirst : (addresses iprange.range).head? = some (networkAddress iprange) :=
        (visits_cells (le_of_valid valid)).head
      have differ : networkAddress iprange ≠ broadcastAddress iprange := by
        intro same
        have isLast := getLast?_eq_some_getLast (ne_nil_of_valid valid)
        have isWide := valid.ends excluded _ isLast
        have isSame := map_inj_left.mp same _ (getLast_mem (ne_nil_of_valid valid))
        omega
      rw [mem_dropLast_tail nodup_addresses isFirst (isTop_of_valid valid) differ, isAddress]
      simp [excluded, broadcastAddress]
  · next notExcluded => simp [isAddress, notExcluded]

theorem length_visited (iprange : IpRange) :
    (visited iprange).length =
      if excludesEnds iprange then total iprange.range - 2 else total iprange.range := by
  unfold visited
  split
  · rw [length_tail, length_dropLast, length_addresses]
    rfl
  · exact length_addresses

/-- The walk from the first address on visits each address of the range but for the excluded ones
once, in lexicographic order, and the volume is their number where it is below 2^64. -/
structure Walk (iprange : IpRange) (visited : List (List Nat)) : Prop where
  visits : Visits (iprangeNext iprange) (iprangeFirst iprange) visited
  ascending : visited.Pairwise (· < ·)
  exact : ∀ address, address ∈ visited ↔ IsAddress iprange address ∧
    (excludesEnds iprange = true →
      address ≠ networkAddress iprange ∧ address ≠ broadcastAddress iprange)
  volume : visited.length < 2 ^ 64 → iprangeVolume iprange = visited.length
  saturates : 2 ^ 64 ≤ visited.length → iprangeVolume iprange = maxUint64

/-- The walk through a parsed range is complete. -/
theorem iprange_walk (behind : Char) (text : Common.Text.Text) (iprange : IpRange)
    (parsed : (iprangeParse behind text).result = some iprange) :
    ∃ visited, Walk iprange visited := by
  have valid := valid_of_iprangeParse parsed
  refine ⟨visited iprange, ?_, ?_, fun address => mem_visited valid, ?_, ?_⟩
  · unfold visited
    by_cases excluded : excludesEnds iprange = true
    · rw [if_pos excluded]
      exact visits_inner valid excluded
    · rw [if_neg excluded]
      exact visits_all valid (Bool.not_eq_true _ ▸ excluded)
  · unfold visited
    split
    · exact pairwise_cells.sublist ((tail_sublist _).trans (dropLast_sublist _))
    · exact pairwise_cells
  · intro isShort
    rw [length_visited] at isShort ⊢
    have fits : total iprange.range ≤ maxUint64 := by
      by_cases excluded : excludesEnds iprange = true
      · exact total_v4 valid excluded
      · rw [if_neg excluded] at isShort
        exact Nat.le_of_lt_succ isShort
    rw [iprangeVolume_eq valid, if_pos fits]
  · intro isLong
    rw [length_visited] at isLong
    have notFits : ¬total iprange.range ≤ maxUint64 := by
      intro fits
      have isWord : maxUint64 < 2 ^ 64 := by decide
      split at isLong <;> omega
    rw [iprangeVolume_eq valid, if_neg notFits]

/-- `10.0.0.0/30` -/
theorem iprange_walk_network :
    ∃ visited, Walk ⟨[⟨10, 10⟩, ⟨0, 0⟩, ⟨0, 0⟩, ⟨0, 3⟩], .v4, true⟩ visited :=
  iprange_walk ' ' ['1', '0', '.', '0', '.', '0', '.', '0', '/', '3', '0'] _ (by decide +kernel)

end Zabbix.Network.Enumeration
