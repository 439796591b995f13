import Mathlib.Data.List.Induction
import Mathlib.Data.Nat.Basic

/-!
# Update flags of the timers

Each timer process has a bit in an array of words that says whether it has to process the
maintenances.  Whether any bit is set is decided from the bytes of the array, whose order in a
word depends on the machine.
-/

namespace Zabbix.Maintenance.UpdateFlags

open List

abbrev Word := BitVec 64

/-- `config->maintenance_update_flags` -/
abbrev Flags := List Word

/-- `ZBX_MAINTENANCE_UPDATE_FLAGS_NUM()` for `CONFIG_TIMER_FORKS` timers. -/
def slotsNum (forks : Nat) : Nat :=
  (forks + 64 - 1) / 64

def initialFlags (forks : Nat) : Flags :=
  replicate (slotsNum forks) 0#64

def zbxDcMaintenanceSetUpdateFlags (forks : Nat) : Flags :=
  let flags := replicate (slotsNum forks) (BitVec.allOnes 64)
  let timersLeft := forks % 64
  if timersLeft ≠ 0 then flags.modify (slotsNum forks - 1) (· >>> (64 - timersLeft)) else flags

def zbxDcMaintenanceResetUpdateFlag (timer : Nat) (flags : Flags) : Flags :=
  let timer := timer - 1
  flags.modify (timer / 64) (· &&& ~~~(1#64 <<< (timer % 64)))

def zbxDcMaintenanceCheckUpdateFlag (timer : Nat) (flags : Flags) : Bool :=
  let timer := timer - 1
  flags.getD (timer / 64) 0#64 &&& 1#64 <<< (timer % 64) ≠ 0#64

/-- The order of the bytes of a word. -/
inductive ByteOrder where
  | little
  | big
deriving DecidableEq

/-- The place among the eight bytes of a word where the byte at an address comes from. -/
def ByteOrder.lane : ByteOrder → Nat → Nat
  | .little, address => address % 8
  | .big, address => 7 - address % 8

def byteAt (order : ByteOrder) (flags : Flags) (address : Nat) : BitVec 8 :=
  (flags.getD (address / 8) 0#64).extractLsb' (8 * order.lane address) 8

/-- `0 != memcmp(first, second, count)` -/
def memoryDiffers (first second : Nat → BitVec 8) (count : Nat) : Bool :=
  (range count).any fun address => first address ≠ second address

def zbxDcMaintenanceCheckUpdateFlags (order : ByteOrder) (forks : Nat) (flags : Flags) : Bool :=
  if flags.getD 0 0#64 ≠ 0#64 then true
  else if slotsNum forks ≠ 1 then
    -- `flags + 1` is eight bytes further
    memoryDiffers (byteAt order flags) (fun address => byteAt order flags (address + 8))
      (slotsNum forks - 1)
  else false

/-! ## Runs -/

inductive Action where
  | setUpdateFlags
  | resetUpdateFlag (timer : Nat)
deriving DecidableEq

def act (forks : Nat) (flags : Flags) : Action → Flags
  | .setUpdateFlags => zbxDcMaintenanceSetUpdateFlags forks
  | .resetUpdateFlag timer => zbxDcMaintenanceResetUpdateFlag timer flags

def run (forks : Nat) (actions : List Action) : Flags :=
  actions.foldl (act forks) (initialFlags forks)

def IsTimer (forks timer : Nat) : Prop :=
  1 ≤ timer ∧ timer ≤ forks

/-- Only timers reset their flags. -/
def OfTimers (forks : Nat) (actions : List Action) : Prop :=
  ∀ timer, .resetUpdateFlag timer ∈ actions → IsTimer forks timer

/-- The timer has not reset its flag since the last time the flags were set. -/
def Pending (actions : List Action) (timer : Nat) : Prop :=
  ∃ before after, actions = before ++ .setUpdateFlags :: after ∧ .setUpdateFlags ∉ after ∧
    .resetUpdateFlag timer ∉ after

variable {forks timer index : Nat} {flags : Flags} {actions : List Action} {order : ByteOrder}

theorem pending_setUpdateFlags (actions : List Action) (timer : Nat) :
    Pending (actions ++ [.setUpdateFlags]) timer :=
  ⟨actions, [], rfl, not_mem_nil, not_mem_nil⟩

theorem pending_resetUpdateFlag {other : Nat} :
    Pending (actions ++ [.resetUpdateFlag other]) timer ↔ Pending actions timer ∧ timer ≠ other := by
  constructor
  · rintro ⟨before, after, split, noSet, noReset⟩
    obtain rfl | ⟨later, last, rfl⟩ := eq_nil_or_concat after
    · cases (append_inj' split rfl).2
    · rw [concat_eq_append, ← cons_append, ← append_assoc] at split
      obtain ⟨rfl, isLast⟩ := append_inj' split rfl
      obtain rfl := singleton_inj.mp isLast
      simp only [concat_eq_append, mem_append, not_or, mem_singleton] at noSet noReset
      refine ⟨⟨before, later, rfl, noSet.1, noReset.1⟩, ?_⟩
      rintro rfl
      exact noReset.2 rfl
  · rintro ⟨⟨before, after, rfl, noSet, noReset⟩, isOther⟩
    refine ⟨before, after ++ [.resetUpdateFlag other], by simp, ?_, ?_⟩
    · simpa using noSet
    · simpa using ⟨noReset, isOther⟩

/-! ## Bits -/

def flagBit (flags : Flags) (index : Nat) : Bool :=
  (flags.getD (index / 64) 0#64).getLsbD (index % 64)

theorem getD_modify (flags : Flags) (slot : Nat) (change : Word → Word) (other : Nat)
    (keepsZero : change 0#64 = 0#64) :
    (flags.modify slot change).getD other 0#64 =
      if slot = other then change (flags.getD other 0#64) else flags.getD other 0#64 := by
  simp only [getD_eq_getElem?_getD, getElem?_modify]
  split
  · cases flags[other]? with
    | none => exact keepsZero.symm
    | some word => rfl
  · rw [id_map']

theorem flagBit_initialFlags (forks index : Nat) : flagBit (initialFlags forks) index = false := by
  rw [flagBit, initialFlags, getD_eq_getElem?_getD, getElem?_replicate]
  split
  · exact BitVec.getLsbD_zero
  · exact BitVec.getLsbD_zero

theorem flagBit_setUpdateFlags (forks index : Nat) :
    flagBit (zbxDcMaintenanceSetUpdateFlags forks) index = decide (index < forks) := by
  have inSlot : index % 64 < 64 := Nat.mod_lt _ (by decide)
  have atSlot : (replicate (slotsNum forks) (BitVec.allOnes 64)).getD (index / 64) 0#64 =
      if index / 64 < slotsNum forks then BitVec.allOnes 64 else 0#64 := by
    rw [getD_eq_getElem?_getD, getElem?_replicate]
    split <;> rfl
  rw [flagBit, zbxDcMaintenanceSetUpdateFlags, Bool.eq_iff_iff, decide_eq_true_eq]
  unfold slotsNum at atSlot ⊢
  split
  · rw [getD_modify _ _ _ _ BitVec.zero_ushiftRight, atSlot]
    split
    · next isLast =>
        rw [if_pos (by omega), BitVec.getLsbD_ushiftRight, BitVec.getLsbD_allOnes,
          decide_eq_true_eq]
        omega
    · next notLast =>
        split
        · rw [BitVec.getLsbD_allOnes, decide_eq_true_eq]
          omega
        · refine iff_of_false (by simp) ?_
          omega
  · rw [atSlot]
    split
    · rw [BitVec.getLsbD_allOnes, decide_eq_true_eq]
      omega
    · refine iff_of_false (by simp) ?_
      omega

theorem getLsbD_mask {bit : Nat} (inWord : bit < 64) (other : Nat) :
    (1#64 <<< other).getLsbD bit = decide (bit = other) := by
  rw [BitVec.getLsbD_shiftLeft, BitVec.getLsbD_one, Bool.eq_iff_iff]
  simp only [Bool.and_eq_true, decide_eq_true_eq, Bool.not_eq_true', decide_eq_false_iff_not]
  omega

theorem flagBit_resetUpdateFlag (timer : Nat) (flags : Flags) (index : Nat) :
    flagBit (zbxDcMaintenanceResetUpdateFlag timer flags) index =
      (flagBit flags index && decide (index ≠ timer - 1)) := by
  have inSlot : index % 64 < 64 := Nat.mod_lt _ (by decide)
  rw [flagBit, flagBit, zbxDcMaintenanceResetUpdateFlag, getD_modify flags _ (· &&& ~~~(1#64 <<< ((timer - 1) % 64))) _ BitVec.zero_and]
  split
  · next sameSlot =>
      have sameBit : index % 64 = (timer - 1) % 64 ↔ index = timer - 1 := by omega
      rw [BitVec.getLsbD_and, BitVec.getLsbD_not, getLsbD_mask inSlot, decide_eq_true inSlot,
        Bool.true_and, ← decide_not, decide_eq_decide.mpr (not_congr sameBit)]
  · next otherSlot =>
      have isOther : index ≠ timer - 1 := fun same => otherSlot (congrArg (· / 64) same.symm)
      rw [decide_eq_true isOther, Bool.and_true]

theorem checkUpdateFlag_eq (timer : Nat) (flags : Flags) :
    zbxDcMaintenanceCheckUpdateFlag timer flags = flagBit flags (timer - 1) := by
  have inSlot : (timer - 1) % 64 < 64 := Nat.mod_lt _ (by decide)
  rw [zbxDcMaintenanceCheckUpdateFlag, flagBit, Bool.eq_iff_iff, decide_eq_true_eq]
  generalize flags.getD ((timer - 1) / 64) 0#64 = word
  constructor
  · intro notZero
    by_contra notSet
    refine notZero (BitVec.eq_of_getLsbD_eq fun bit inWord => ?_)
    rw [BitVec.getLsbD_and, getLsbD_mask inWord, BitVec.getLsbD_zero, Bool.and_eq_false_iff]
    by_cases same : bit = (timer - 1) % 64
    · rw [same]
      exact Or.inl (Bool.eq_false_iff.mpr notSet)
    · exact Or.inr (decide_eq_false same)
  · intro isSet isZero
    have atBit := congrArg (BitVec.getLsbD · ((timer - 1) % 64)) isZero
    rw [BitVec.getLsbD_and, getLsbD_mask inSlot, isSet, BitVec.getLsbD_zero, Bool.true_and,
      decide_eq_true rfl] at atBit
    cases atBit

theorem flagBit_run (actions : List Action) (ofTimers : OfTimers forks actions) (index : Nat) :
    flagBit (run forks actions) index = true ↔ index < forks ∧ Pending actions (index + 1) := by
  induction actions using reverseRecOn with
  | nil =>
    rw [run, foldl_nil, flagBit_initialFlags]
    refine iff_of_false Bool.false_ne_true ?_
    rintro ⟨-, before, after, split, -⟩
    exact append_ne_nil_of_right_ne_nil _ (cons_ne_nil _ _) split.symm
  | append_singleton earlier last ih =>
    have earlierOfTimers : OfTimers forks earlier := fun timer isIn =>
      ofTimers timer (mem_append_left _ isIn)
    rw [run, foldl_append, foldl_cons, foldl_nil]
    cases last with
    | setUpdateFlags =>
      rw [act, flagBit_setUpdateFlags, decide_eq_true_eq,
        and_iff_left (pending_setUpdateFlags earlier (index + 1))]
    | resetUpdateFlag timer =>
      have isTimer := ofTimers timer (mem_append_right _ mem_cons_self)
      have sameIndex : index ≠ timer - 1 ↔ index + 1 ≠ timer := by
        have atLeast := isTimer.1
        omega
      rw [act, flagBit_resetUpdateFlag, Bool.and_eq_true, decide_eq_true_eq, sameIndex,
        pending_resetUpdateFlag, ← and_assoc]
      exact and_congr_left fun _ => ih earlierOfTimers

/-! ## Bytes -/

theorem lane_lt (order : ByteOrder) (address : Nat) : order.lane address < 8 := by
  cases order with
  | little => exact Nat.mod_lt _ (by decide)
  | big => exact Nat.lt_succ_of_le (Nat.sub_le 7 _)

def byteAddress (order : ByteOrder) (index : Nat) : Nat :=
  8 * (index / 64) + order.lane (index % 64 / 8)

theorem byteAddress_eq_iff {address : Nat} :
    byteAddress order index = address ↔
      index / 64 = address / 8 ∧ index % 64 / 8 = order.lane address := by
  cases order with
  | little =>
    simp only [byteAddress, ByteOrder.lane]
    omega
  | big =>
    simp only [byteAddress, ByteOrder.lane]
    omega

theorem byteAt_ne_zero_iff (order : ByteOrder) (flags : Flags) (address : Nat) :
    byteAt order flags address ≠ 0#8 ↔
      ∃ index, byteAddress order index = address ∧ flagBit flags index = true := by
  have inWord := lane_lt order address
  have atBit (bit : Nat) (inByte : bit < 8) : (byteAt order flags address).getLsbD bit =
      flagBit flags (64 * (address / 8) + (8 * order.lane address + bit)) := by
    rw [byteAt, BitVec.getLsbD_extractLsb', decide_eq_true inByte, Bool.true_and, flagBit,
      show (64 * (address / 8) + (8 * order.lane address + bit)) / 64 = address / 8 by omega,
      show (64 * (address / 8) + (8 * order.lane address + bit)) % 64 =
        8 * order.lane address + bit by omega]
  constructor
  · intro notZero
    by_contra noBit
    refine notZero (BitVec.eq_of_getLsbD_eq fun bit inByte => ?_)
    rw [atBit bit inByte, BitVec.getLsbD_zero, ← Bool.not_eq_true]
    exact fun isSet => noBit ⟨_, byteAddress_eq_iff.mpr ⟨by omega, by omega⟩, isSet⟩
  · rintro ⟨index, isAddress, isSet⟩ isZero
    obtain ⟨sameSlot, sameLane⟩ := byteAddress_eq_iff.mp isAddress
    have isBit := atBit (index % 8) (Nat.mod_lt _ (by decide))
    rw [isZero, show 64 * (address / 8) + (8 * order.lane address + index % 8) = index by omega,
      isSet] at isBit
    cases BitVec.getLsbD_zero.symm.trans isBit

theorem memoryDiffers_shifted {bytes : Nat → BitVec 8} (isZero : ∀ address < 8, bytes address = 0#8)
    (count : Nat) :
    memoryDiffers bytes (fun address => bytes (address + 8)) count = true ↔
      ∃ address < 8 + count, bytes address ≠ 0#8 := by
  rw [memoryDiffers, List.any_eq_true]
  simp only [mem_range, decide_eq_true_eq]
  constructor
  · rintro ⟨address, isCompared, differs⟩
    by_cases isFirst : bytes address = 0#8
    · exact ⟨address + 8, by omega, fun isSecond => differs (isFirst.trans isSecond.symm)⟩
    · exact ⟨address, by omega, isFirst⟩
  · rintro ⟨address, isBelow, notZero⟩
    by_contra allEqual
    refine notZero ?_
    induction address using Nat.strong_induction_on with
    | _ address ih =>
      by_cases isFirst : address < 8
      · exact isZero address isFirst
      · have isEarlier : address - 8 < count := by omega
        have same : bytes (address - 8) = bytes (address - 8 + 8) := by
          by_contra differs
          exact allEqual ⟨address - 8, isEarlier, differs⟩
        rw [Nat.sub_add_cancel (Nat.le_of_not_lt isFirst)] at same
        rw [← same]
        by_contra notEarlier
        exact notEarlier (ih (address - 8) (by omega) (by omega) notEarlier)

theorem first_eq_zero_iff (order : ByteOrder) (flags : Flags) :
    flags.getD 0 0#64 = 0#64 ↔ ∀ address < 8, byteAt order flags address = 0#8 := by
  constructor
  · intro isZero address inWord
    rw [byteAt, Nat.div_eq_of_lt inWord, isZero]
    exact BitVec.eq_of_getLsbD_eq fun bit inByte => by
      rw [BitVec.getLsbD_extractLsb', BitVec.getLsbD_zero, BitVec.getLsbD_zero, Bool.and_false]
  · intro areZero
    refine BitVec.eq_of_getLsbD_eq fun bit inWord => ?_
    rw [BitVec.getLsbD_zero, ← Bool.not_eq_true]
    intro isSet
    have isBit : flagBit flags bit = true := by
      rw [flagBit, Nat.div_eq_of_lt inWord, Nat.mod_eq_of_lt inWord]
      exact isSet
    have isFirst : byteAddress order bit < 8 := by
      have isLane := lane_lt order (bit % 64 / 8)
      rw [byteAddress, Nat.div_eq_of_lt inWord]
      omega
    exact (byteAt_ne_zero_iff order flags _).mpr ⟨bit, rfl, isBit⟩ (areZero _ isFirst)

/-- The flags that are looked at: as many bytes behind the first word as there are other words. -/
def IsCompared (order : ByteOrder) (forks timer : Nat) : Prop :=
  byteAddress order (timer - 1) < 8 + (slotsNum forks - 1)

theorem checkUpdateFlags_iff (order : ByteOrder) (forks : Nat) (flags : Flags) :
    zbxDcMaintenanceCheckUpdateFlags order forks flags = true ↔
      ∃ index, byteAddress order index < 8 + (slotsNum forks - 1) ∧
        flagBit flags index = true := by
  have ofBytes : (∃ index, byteAddress order index < 8 + (slotsNum forks - 1) ∧
      flagBit flags index = true) ↔
        ∃ address < 8 + (slotsNum forks - 1), byteAt order flags address ≠ 0#8 := by
    simp only [byteAt_ne_zero_iff]
    constructor
    · exact fun ⟨index, isBelow, isSet⟩ => ⟨_, isBelow, index, rfl, isSet⟩
    · rintro ⟨_, isBelow, index, rfl, isSet⟩
      exact ⟨index, isBelow, isSet⟩
  rw [ofBytes, zbxDcMaintenanceCheckUpdateFlags]
  split
  · next notZero =>
      refine iff_of_true rfl ?_
      by_contra noByte
      refine notZero ((first_eq_zero_iff order flags).mpr fun address isFirst => ?_)
      by_contra notByte
      exact noByte ⟨address, by omega, notByte⟩
  · next isZero =>
      have firstBytes := (first_eq_zero_iff order flags).mp (not_not.mp isZero)
      split
      · exact memoryDiffers_shifted firstBytes _
      · next isOne =>
          rw [not_not.mp isOne]
          exact iff_of_false Bool.false_ne_true fun ⟨address, isFirst, notZero⟩ =>
            notZero (firstBytes address isFirst)

/-! ## All timers -/

/-- What is claimed of the flags after a run. -/
def FlagsCorrect (order : ByteOrder) (forks : Nat) (actions : List Action) : Prop :=
  (∀ timer, IsTimer forks timer →
      (zbxDcMaintenanceCheckUpdateFlag timer (run forks actions) = true ↔
        Pending actions timer)) ∧
    (zbxDcMaintenanceCheckUpdateFlags order forks (run forks actions) = true ↔
      ∃ timer, IsTimer forks timer ∧
        zbxDcMaintenanceCheckUpdateFlag timer (run forks actions) = true)

theorem checkUpdateFlag_run (ofTimers : OfTimers forks actions) (isTimer : IsTimer forks timer) :
    zbxDcMaintenanceCheckUpdateFlag timer (run forks actions) = true ↔ Pending actions timer := by
  obtain ⟨atLeast, atMost⟩ := isTimer
  rw [checkUpdateFlag_eq, flagBit_run actions ofTimers, Nat.sub_add_cancel atLeast]
  exact and_iff_right (by omega)

theorem checkUpdateFlags_run (order : ByteOrder) (ofTimers : OfTimers forks actions) :
    zbxDcMaintenanceCheckUpdateFlags order forks (run forks actions) = true ↔
      ∃ timer, IsTimer forks timer ∧ Pending actions timer ∧ IsCompared order forks timer := by
  rw [checkUpdateFlags_iff]
  constructor
  · rintro ⟨index, isBelow, isSet⟩
    obtain ⟨isIndex, isPending⟩ := (flagBit_run actions ofTimers index).mp isSet
    exact ⟨index + 1, ⟨Nat.succ_pos _, isIndex⟩, isPending, isBelow⟩
  · rintro ⟨timer, ⟨atLeast, atMost⟩, isPending, isBelow⟩
    refine ⟨timer - 1, isBelow, (flagBit_run actions ofTimers _).mpr ⟨by omega, ?_⟩⟩
    rwa [Nat.sub_add_cancel atLeast]

/-- The flags are right when a timer has to process the maintenances only while one does whose
flag is compared. -/
theorem flagsCorrect_iff (order : ByteOrder) (forks : Nat) (actions : List Action)
    (ofTimers : OfTimers forks actions) :
    FlagsCorrect order forks actions ↔
      ((∃ timer, IsTimer forks timer ∧ Pending actions timer) →
        ∃ timer, IsTimer forks timer ∧ Pending actions timer ∧ IsCompared order forks timer) := by
  have anyTimer : (∃ timer, IsTimer forks timer ∧
      zbxDcMaintenanceCheckUpdateFlag timer (run forks actions) = true) ↔
        ∃ timer, IsTimer forks timer ∧ Pending actions timer :=
    exists_congr fun timer => and_congr_right (checkUpdateFlag_run ofTimers)
  rw [FlagsCorrect, and_iff_right fun timer isTimer => checkUpdateFlag_run ofTimers isTimer,
    anyTimer, checkUpdateFlags_run order ofTimers]
  constructor
  · exact fun same => same.mpr
  · exact fun compared => ⟨fun ⟨timer, isTimer, isPending, _⟩ => ⟨timer, isTimer, isPending⟩,
      compared⟩

theorem flagsCorrect_iff_two :
    FlagsCorrect .little 2 [.setUpdateFlags, .resetUpdateFlag 1] ↔
      ((∃ timer, IsTimer 2 timer ∧ Pending [.setUpdateFlags, .resetUpdateFlag 1] timer) →
        ∃ timer, IsTimer 2 timer ∧ Pending [.setUpdateFlags, .resetUpdateFlag 1] timer ∧
          IsCompared .little 2 timer) :=
  flagsCorrect_iff _ _ _ fun timer isIn => by
    obtain rfl : timer = 1 := by simpa using isIn
    exact ⟨by decide, by decide⟩

/-- The first 72 of 128 timers have reset their flags. -/
def seventyTwoReset : List Action :=
  .setUpdateFlags :: (range 72).map fun index => .resetUpdateFlag (index + 1)

/-- The flags of the last timers are not seen. -/
theorem flagsCorrect_overlooks :
    ¬∀ order forks actions, 1 ≤ forks → forks ≤ 1000 → OfTimers forks actions →
      FlagsCorrect order forks actions := by
  intro correct
  have ofTimers : OfTimers 128 seventyTwoReset := by
    intro timer isIn
    obtain isSet | isReset := mem_cons.mp isIn
    · cases isSet
    · obtain ⟨index, inRange, same⟩ := List.mem_map.mp isReset
      cases same
      have isBelow := mem_range.mp inRange
      exact ⟨Nat.succ_pos _, by omega⟩
  have flags := (correct .little 128 seventyTwoReset (by decide) (by decide) ofTimers).2
  have isOverlooked :
      zbxDcMaintenanceCheckUpdateFlags .little 128 (run 128 seventyTwoReset) = false := by
    decide +kernel
  rw [isOverlooked] at flags
  exact absurd (flags.mpr ⟨73, ⟨by decide, by decide⟩, by decide +kernel⟩) Bool.false_ne_true

end Zabbix.Maintenance.UpdateFlags
