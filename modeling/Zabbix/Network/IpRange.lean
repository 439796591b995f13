import Mathlib.Algebra.Group.Nat.Defs
import Mathlib.Data.List.Basic
import Zabbix.Common.Integers

/-!
# Ranges of IP addresses

The parser of IPv4 and IPv6 ranges and the functions that walk through a range.  A pointer is
the rest of the text from there, so a pointer is before another when its rest is longer.  The
character behind the terminating zero, which the IPv6 parser may read, is a parameter.
-/

namespace Zabbix.Network.IpRange

open Common.Text Common.Integers

/-- `zbx_range_t` -/
structure Range where
  fromValue : Nat
  toValue : Nat
deriving DecidableEq

inductive IpType
  | v4
  | v6
deriving DecidableEq

/-- `ZBX_IPRANGE_GROUPS_V4` and `ZBX_IPRANGE_GROUPS_V6` -/
def IpType.groups : IpType → Nat
  | .v4 => 4
  | .v6 => 8

def IpType.groupBits : IpType → Nat
  | .v4 => 8
  | .v6 => 16

/-- `zbx_iprange_t` with the groups that its type has. -/
structure IpRange where
  range : List Range
  type : IpType
  mask : Bool
deriving DecidableEq

def isWhitespaceCharacter (char : Char) : Bool :=
  char = ' ' || char = '\r' || char = '\n' || char = '\t'

/-- The length without trailing whitespace. -/
def addressLength (address : Text) : Nat :=
  (address.reverse.dropWhile isWhitespaceCharacter).length

def strchr (char : Char) (text : Text) : Option Text :=
  match text.dropWhile (· ≠ char) with
  | [] => none
  | rest => some rest

/-! ## Masks -/

/-- The mask of one group, of which `maskBits` bits are free. -/
def maskGroup (maskBits : Nat) (range : Range) : Range where
  fromValue := range.fromValue &&& ((0xffffffff <<< maskBits) % 2 ^ 32)
  toValue := range.toValue ||| (0xffffffff >>> (32 - maskBits))

/-- The loop of `iprange_apply_mask` over the groups from the last one. -/
def maskLoop (groupBits : Nat) : Nat → List Range → List Range
  | bits, range :: rest =>
    if 0 < bits then
      maskGroup (min bits groupBits) range :: maskLoop groupBits (bits - groupBits) rest
    else range :: rest
  | _, [] => []

def applyMask (type : IpType) (bits : Nat) (range : List Range) : List Range :=
  (maskLoop type.groupBits (type.groups * type.groupBits - bits) range.reverse).reverse

/-- `if (-1 != bits) iprange_apply_mask(iprange, bits);` -/
def applyBits (type : IpType) (range : List Range) : Option Nat → List Range
  | some bits => applyMask type bits range
  | none => range

/-! ## Groups -/

/-- One group of an address up to `ptr`.  The dash is searched in the whole rest, and with a mask
no dash may be there at all. -/
def groupParse (number : Text → Nat → Option Nat) (masked : Bool) (address ptr : Text) :
    Option Range :=
  if masked && (strchr '-' address).isSome then none
  else
    -- is the range specification used by this group?
    match (strchr '-' address).filter fun dash => ptr.length ≤ dash.length with
    | none =>
      (number address (address.length - ptr.length)).map fun value => ⟨value, value⟩
    | some dash =>
      (number address (address.length - dash.length)).bind fun fromValue =>
        (number dash.tail (dash.tail.length - ptr.length)).bind fun toValue =>
          if toValue < fromValue then none else some ⟨fromValue, toValue⟩

/-- The mask behind the slash, where there is one, and the end of the groups. -/
def maskParse (maxBits : Nat) (address : Text) : Option (Option Nat × Text) :=
  match strchr '/' address with
  | some stop =>
    (isUintNRange stop.tail (addressLength address - (address.length - stop.tail.length)) 0
      maxBits).map fun bits => (some bits, stop)
  | none => some (none, address.drop (addressLength address))

/-! ## IPv4 -/

/-- The loop over the groups, with the number of groups that are left. -/
def v4Loop (masked : Bool) (stop : Text) : Nat → Text → Text → Option (List Range)
  | 0, _, _ => some []
  | left + 1, address, ptr =>
    if stop.length < ptr.length then
      let ptr := (strchr '.' address).getD stop
      (groupParse (fun text n => isUintNRange text n 0 255) masked address ptr).bind fun range =>
        (v4Loop masked stop left ptr.tail ptr).map (range :: ·)
    else some []

def iprangev4Parse (address : Text) : Option IpRange :=
  (maskParse 30 address).bind fun (bits, stop) =>
    (v4Loop bits.isSome stop IpType.v4.groups address address).bind fun range =>
      if range.length ≠ IpType.v4.groups then none
      else some
        { range := applyBits .v4 range bits, type := .v4, mask := bits.isSome }

/-! ## IPv6 -/

/-- `ptr[1]`; nothing stands for the terminating zero. -/
def charAfter (behind : Char) : Text → Option Char
  | _ :: char :: _ => some char
  | [_] => none
  | [] => some behind

/-- The groups so far, and the index of the group that stands for `::`. -/
structure Groups where
  range : List Range
  fill : Option Nat
deriving DecidableEq

/-- The end of a turn: the text is refused, the loop ends, or it goes on behind the pointer. -/
inductive Turn
  | refused
  | finished (groups : Groups)
  | goesOn (groups : Groups) (ptr : Text)
deriving DecidableEq

/-- The part of a turn from `check_fill` on. -/
def checkFill (behind : Char) (stop : Text) (groups : Groups) (ptr : Text) : Turn :=
  if ptr ≠ [] ∧ charAfter behind ptr = some ':' then
    if groups.fill.isSome then .refused
    else
      let groups : Groups :=
        { range := groups.range ++ [⟨0, 0⟩], fill := some groups.range.length }
      -- does the address end with ::?
      if ptr.tail.length = stop.length + 1 then .finished groups else .goesOn groups ptr.tail
  else .goesOn groups ptr

def v6Turn (behind : Char) (masked : Bool) (stop : Text) (groups : Groups) (address : Text) :
    Turn :=
  let ptr := (strchr ':' address).getD stop
  if ptr.length = address.length then
    -- the address starts with ::
    if charAfter behind ptr = some ':' then checkFill behind stop groups ptr else .refused
  else
    match groupParse (fun text n => isHexNRange text n 0 0xffff) masked address ptr with
    | none => .refused
    | some range => checkFill behind stop { groups with range := groups.range ++ [range] } ptr

/-- The loop over the groups: each turn adds a group. -/
def v6Loop (behind : Char) (masked : Bool) (stop : Text) :
    Nat → Groups → Text → Text → Option Groups
  | 0, groups, _, _ => some groups
  | fuel + 1, groups, address, ptr =>
    if stop.length < ptr.length ∧ groups.range.length < IpType.v6.groups then
      match v6Turn behind masked stop groups address with
      | .refused => none
      | .finished groups => some groups
      | .goesOn groups ptr => v6Loop behind masked stop fuel groups ptr.tail ptr
    else some groups

/-- The groups behind `::` move to the end, and zeros fill the middle. -/
def expandFill (fill : Nat) (range : List Range) : List Range :=
  range.take (fill + 1) ++ List.replicate (IpType.v6.groups - range.length) ⟨0, 0⟩ ++
    range.drop (fill + 1)

/-- What the parser leaves: the range, and whether it stayed within the array of groups. -/
structure Parsed where
  result : Option IpRange
  inBounds : Bool
deriving DecidableEq

def Parsed.fail : Parsed :=
  { result := none, inBounds := true }

def iprangev6Parse (behind : Char) (address : Text) : Parsed :=
  match maskParse 128 address with
  | none => .fail
  | some (bits, stop) =>
    match v6Loop behind bits.isSome stop (IpType.v6.groups + 1) ⟨[], none⟩ address address with
    | none => .fail
    | some groups =>
      if IpType.v6.groups < groups.range.length then { result := none, inBounds := false }
      else
        let range :=
          if groups.range.length < IpType.v6.groups then
            groups.fill.map fun fill => expandFill fill groups.range
          else some groups.range
        { result := range.map fun range =>
            { range := applyBits .v6 range bits, type := .v6, mask := bits.isSome }
          inBounds := true }

def iprangeParse (behind : Char) (address : Text) : Parsed :=
  let address := address.dropWhile isWhitespaceCharacter
  if '.' ∈ address then { result := iprangev4Parse address, inBounds := true }
  else iprangev6Parse behind address

/-! ## Addresses of a range -/

/-- The last number raised by one. -/
def incrementLast : List Nat → List Nat
  | [] => []
  | [value] => [value + 1]
  | value :: rest => value :: incrementLast rest

def excludesEnds (iprange : IpRange) : Bool :=
  iprange.type = .v4 && iprange.mask

def iprangeFirst (iprange : IpRange) : List Nat :=
  let address := iprange.range.map Range.fromValue
  if excludesEnds iprange then incrementLast address else address

/-- The loop of `iprange_next` from the last group on. -/
def nextLoop : List Range → List Nat → Option (List Nat)
  | range :: ranges, value :: values =>
    if value < range.toValue then some ((value + 1) :: values)
    else
      (nextLoop ranges values).map fun values =>
        (if range.fromValue < range.toValue then range.fromValue else value) :: values
  | _, _ => none

def iprangeNext (iprange : IpRange) (address : List Nat) : Option (List Nat) :=
  (nextLoop iprange.range.reverse address.reverse).bind fun values =>
    if excludesEnds iprange ∧ values.reverse = iprange.range.map Range.toValue then none
    else some values.reverse

def iprangeValidate : List Range → List Nat → Bool
  | range :: ranges, value :: values =>
    if value < range.fromValue || value > range.toValue then false
    else iprangeValidate ranges values
  | [], _ => true
  | _ :: _, [] => false

/-- The loop of `iprange_volume`; no volume stands for the largest number. -/
def volumeLoop : Nat → List Range → Option Nat
  | volume, [] => some volume
  | volume, range :: ranges =>
    let n := range.toValue - range.fromValue + 1
    if maxUint64 / n < volume then none else volumeLoop (volume * n) ranges

def iprangeVolume (iprange : IpRange) : Nat :=
  match volumeLoop 1 iprange.range with
  | none => maxUint64
  | some volume => if excludesEnds iprange then volume - 2 else volume

end Zabbix.Network.IpRange
