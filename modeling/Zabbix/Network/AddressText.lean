import Zabbix.Common.Integers

/-!
# Addresses in text

The checks for IPv4 and IPv6 addresses and for host names.
-/

namespace Zabbix.Network.AddressText

open Common.Text Common.Integers List

/-- The counters of `is_ip4`. -/
structure Ip4Counters where
  digits : Nat
  dots : Nat
  octet : Nat

/-- The loop of `is_ip4` over the rest of the text. -/
def ip4Loop (counters : Ip4Counters) : Text → Ip4Counters
  | [] => counters
  | char :: rest =>
    if char.isDigit then
      ip4Loop
        { counters with
          octet := counters.octet * 10 + digitValue char, digits := counters.digits + 1 } rest
    else if char = '.' then
      if counters.digits = 0 ∨ 3 < counters.digits ∨ 255 < counters.octet then counters
      else ip4Loop { digits := 0, octet := 0, dots := counters.dots + 1 } rest
    else { counters with digits := 0 }

def Ip4Counters.areValid (counters : Ip4Counters) : Bool :=
  counters.dots = 3 && 1 ≤ counters.digits && counters.digits ≤ 3 && counters.octet ≤ 255

def isIp4 (ip : Text) : Bool :=
  (ip4Loop ⟨0, 0, 0⟩ ip).areValid

/-- The counters of `is_ip6`. -/
structure Ip6Counters where
  xdigits : Nat
  onlyXdigits : Bool
  colons : Nat
  dblColons : Nat

/-- The loop of `is_ip6`, which leaves its counters and the rest of the text. -/
def ip6Loop (counters : Ip6Counters) : Text → Ip6Counters × Text
  | [] => (counters, [])
  | char :: rest =>
    if (hexValue char).isSome then
      ip6Loop { counters with xdigits := counters.xdigits + 1, onlyXdigits := true } rest
    else if char = ':' then
      -- consecutive sections of zeros are replaced with a double colon
      let counters :=
        if counters.xdigits = 0 ∧ 0 < counters.colons then
          { counters with onlyXdigits := true, dblColons := counters.dblColons + 1 }
        else counters
      if 4 < counters.xdigits ∨ 1 < counters.dblColons then (counters, char :: rest)
      else ip6Loop { counters with xdigits := 0, colons := counters.colons + 1 } rest
    else ({ counters with onlyXdigits := false }, char :: rest)

def isIp6 (ip : Text) : Bool :=
  let (counters, rest) := ip6Loop ⟨0, false, 0, 0⟩ ip
  if counters.colons < 2 ∨ 7 < counters.colons ∨ 1 < counters.dblColons ∨ 4 < counters.xdigits then
    false
  else if counters.onlyXdigits then true
  else if counters.colons < 7 ∧ ':' ∉ rest then
    -- past last column is ipv4 mapped address
    isIp4 (ip.reverse.takeWhile (· ≠ ':')).reverse
  else false

def isSupportedIp (ip : Text) : Bool :=
  isIp4 ip || isIp6 ip

def maxZbxDnsnameLen : Nat := 255

/-- The loop of `zbx_validate_hostname`, with the number of characters that may follow. -/
def hostnameLoop (component : Bool) : Nat → Text → Bool
  | _, [] => true
  | len, char :: rest =>
    if len - 1 = 0 then false
    else if char.isAlphanum || char = '-' || char = '_' then hostnameLoop true (len - 1) rest
    else if char = '.' && component then hostnameLoop false (len - 1) rest
    else false

def validateHostname (hostname : Text) : Bool :=
  match hostname with
  | [] => false
  | char :: rest =>
    -- the first character must be an alphanumeric character
    if char.isAlphanum then hostnameLoop true maxZbxDnsnameLen rest else false

example : isIp4 "192.168.1.255".toList = true ∧ isIp6 "::ffff:10.0.0.1".toList = true := by
  decide

/-! ## Colons -/

variable {text : Text}

theorem not_colon_of_ip4Loop (counters : Ip4Counters)
    (areValid : (ip4Loop counters text).areValid = true) : ':' ∉ text := by
  induction text generalizing counters with
  | nil => exact not_mem_nil
  | cons char rest ih =>
    rw [ip4Loop] at areValid
    split_ifs at areValid with isDigit isDot isRefused
    · refine not_mem_cons_of_ne_of_not_mem ?_ (ih _ areValid)
      rintro rfl
      exact absurd isDigit (by decide)
    · rw [Ip4Counters.areValid] at areValid
      simp only [Bool.and_eq_true, decide_eq_true_eq] at areValid
      omega
    · refine not_mem_cons_of_ne_of_not_mem ?_ (ih _ areValid)
      rw [isDot]
      decide
    · simp [Ip4Counters.areValid] at areValid

theorem not_colon_of_isIp4 (isIp4 : isIp4 text = true) : ':' ∉ text :=
  not_colon_of_ip4Loop ⟨0, 0, 0⟩ isIp4

theorem ip6Loop_colons (counters : Ip6Counters) (noColon : ':' ∉ text) :
    (ip6Loop counters text).1.colons = counters.colons := by
  induction text generalizing counters with
  | nil => rfl
  | cons char rest ih =>
    obtain ⟨isOther, noColon⟩ := ne_and_not_mem_of_not_mem_cons noColon
    rw [ip6Loop, if_neg (Ne.symm isOther)]
    split_ifs
    · rw [ih _ noColon]
    · rfl

theorem colon_of_isIp6 (isIp6 : isIp6 text = true) : ':' ∈ text := by
  by_contra noColon
  have colons := ip6Loop_colons ⟨0, false, 0, 0⟩ noColon
  unfold AddressText.isIp6 at isIp6
  simp only [colons] at isIp6
  simp at isIp6

end Zabbix.Network.AddressText
