import Mathlib.Data.Rat.Defs

/-!
# Values, time stamps and record flags

The data which every cache of the server passes around: item identifiers, time
stamps, the five value types with their tagged union, and the flag byte of a
history record.  A finite `double` stands for the rational number it denotes.
-/

namespace Zabbix.Common.History

abbrev ItemId := Nat

/-- The value of a finite `double`. -/
abbrev Dbl := ℚ

/-- `zbx_timespec_t`. -/
structure TimeSpec where
  sec : Int
  ns : Int
deriving DecidableEq, Repr

def zbxTimespecCompare (t1 t2 : TimeSpec) : Int :=
  if t1.sec = t2.sec then t1.ns - t2.ns else t1.sec - t2.sec

/-- `zbx_item_value_type_t`. -/
inductive ItemValueType where
  | float
  | str
  | log
  | uint64
  | text
  | none
deriving DecidableEq, Repr

/-- `ITEM_STATE_NORMAL` and `ITEM_STATE_NOTSUPPORTED`. -/
inductive ItemState where
  | normal
  | notsupported
deriving DecidableEq, Repr

/-- `zbx_log_value_t`; a null string pointer is `none`. -/
structure LogValue where
  timestamp : Int := 0
  logeventid : Int := 0
  severity : Int := 0
  source : Option String := none
  value : Option String := none
deriving DecidableEq, Repr

/-- `history_value_t`; `zero` is the union as `memset` leaves it. -/
inductive HistoryValue where
  | zero
  | dbl (value : Dbl)
  | ui64 (value : Nat)
  | str (text : String)
  | err (text : String)
  | log (value : LogValue)
deriving DecidableEq, Repr

/-! ## Record flags -/

/-- `ZBX_DC_FLAG_META`: contains meta information (lastlogsize and mtime). -/
def zbxDcFlagMeta : UInt8 := 0x01

/-- `ZBX_DC_FLAG_NOVALUE`: entry contains no value. -/
def zbxDcFlagNovalue : UInt8 := 0x02

/-- `ZBX_DC_FLAG_LLD`: low-level discovery value. -/
def zbxDcFlagLld : UInt8 := 0x04

/-- `ZBX_DC_FLAG_UNDEF`: unsupported or undefined value. -/
def zbxDcFlagUndef : UInt8 := 0x08

/-- `0 != (mask & flags)`. -/
def hasFlag (mask flags : UInt8) : Bool :=
  mask &&& flags != 0

theorem hasFlag_or_right (mask flags : UInt8) (nonzero : mask ≠ 0) :
    hasFlag mask (flags ||| mask) = true := by
  have absorbed : mask &&& (flags ||| mask) = mask := by
    apply UInt8.toBitVec_inj.mp
    apply BitVec.eq_of_getLsbD_eq
    intro index _
    simp only [UInt8.toBitVec_and, UInt8.toBitVec_or, BitVec.getLsbD_and, BitVec.getLsbD_or]
    cases mask.toBitVec.getLsbD index <;> simp
  simp [hasFlag, absorbed, nonzero]

end Zabbix.Common.History
