import Zabbix.Common.Text

/-!
# Integers in text

The checks for unsigned numbers within a range and for numbers with a time suffix.  Each
returns the converted value.
-/

namespace Zabbix.Common.Integers

open Text

def maxUint64 : Nat :=
  0xffffffffffffffff

def digitValue (char : Char) : Nat :=
  char.toNat - '0'.toNat

/-- The loop over digits that fails when the value would exceed `max`. -/
def decimalLoop (max value : Nat) : Text → Option Nat
  | [] => some value
  | char :: rest =>
    if char.isDigit then
      if (max - digitValue char) / 10 < value then none
      else decimalLoop max (value * 10 + digitValue char) rest
    else none

def inRange (min max : Nat) (value : Option Nat) : Option Nat :=
  value.filter fun value => min ≤ value && value ≤ max

def isUintNRange (str : Text) (n min max : Nat) : Option Nat :=
  if str = [] ∨ n = 0 then none else inRange min max (decimalLoop maxUint64 0 (str.take n))

/-- `isxdigit` with the value of the digit. -/
def hexValue (char : Char) : Option Nat :=
  if '0' ≤ char ∧ char ≤ '9' then some (char.toNat - '0'.toNat)
  else if 'a' ≤ char ∧ char ≤ 'f' then some (10 + (char.toNat - 'a'.toNat))
  else if 'A' ≤ char ∧ char ≤ 'F' then some (10 + (char.toNat - 'A'.toNat))
  else none

/-- The loop over hexadecimal digits, `len` of which came before. -/
def hexLoop (len value : Nat) : Text → Option Nat
  | [] => some value
  | char :: rest =>
    match hexValue char with
    | none => none
    | some digit =>
      if 16 < len + 1 ∧ maxUint64 >>> 4 < value then none
      else hexLoop (len + 1) ((value <<< 4) + digit) rest

def isHexNRange (str : Text) (n min max : Nat) : Option Nat :=
  if str = [] ∨ n = 0 then none else inRange min max (hexLoop 0 0 (str.take n))

def secPerMin : Nat := 60
def secPerHour : Nat := 3600
def secPerDay : Nat := 86400
def secPerWeek : Nat := 7 * secPerDay

/-- The number of seconds that a suffix stands for. -/
def suffixFactor : Char → Option Nat
  | 's' => some 1
  | 'm' => some secPerMin
  | 'h' => some secPerHour
  | 'd' => some secPerDay
  | 'w' => some secPerWeek
  | _ => none

/-- The largest time in seconds. -/
def maxTime : Nat :=
  0x7fffffff

/-- What follows the digits: nothing, or a suffix and nothing after it. -/
def timeFactor : Text → Option Nat
  | [] => some 1
  | [suffix] => suffixFactor suffix
  | _ => none

/-- `is_time_suffix` on the characters that are to be validated. -/
def timeSuffix (text : Text) : Option Nat :=
  if text.takeWhile Char.isDigit = [] then none
  else
    (decimalLoop maxTime 0 (text.takeWhile Char.isDigit)).bind fun value =>
      (timeFactor (text.dropWhile Char.isDigit)).bind fun factor =>
        if maxTime / factor < value then none else some (value * factor)

/-- No length stands for `ZBX_LENGTH_UNLIMITED`. -/
def isTimeSuffix (str : Text) : Option Nat → Option Nat
  | none => timeSuffix str
  | some length => if length ≤ str.length then timeSuffix (str.take length) else none

theorem head_of_timeSuffix {text : Text} {value : Nat} (isTime : timeSuffix text = some value) :
    ∃ char rest, text = char :: rest ∧ char.isDigit = true := by
  unfold timeSuffix at isTime
  cases text with
  | nil => cases isTime
  | cons char rest =>
    by_cases isDigit : char.isDigit = true
    · exact ⟨char, rest, rfl, isDigit⟩
    · rw [List.takeWhile_cons_of_neg isDigit] at isTime
      cases isTime

end Zabbix.Common.Integers
