import Zabbix.Library.BitPrefix

/-!
# Addresses of peers

The comparison of the address of a peer with an allowed address, in as many bits as a prefix has.
-/

namespace Zabbix.Network.PeerAddress

open Library.BitPrefix

abbrev Byte := BitVec 8

/-- `AF_INET` and `AF_INET6` -/
inductive Family
  | inet
  | inet6
deriving DecidableEq

def Family.bytes : Family → Nat
  | .inet => 4
  | .inet6 => 16

def ipv4MaxCidrPrefix : Nat := 32
def ipv6MaxCidrPrefix : Nat := 128

def Family.maxCidrPrefix : Family → Nat
  | .inet => ipv4MaxCidrPrefix
  | .inet6 => ipv6MaxCidrPrefix

/-- The address in a `struct sockaddr`. -/
inductive Address
  | inet (bytes : Vector Byte 4)
  | inet6 (bytes : Vector Byte 16)
deriving DecidableEq

def Address.family : Address → Family
  | .inet _ => .inet
  | .inet6 _ => .inet6

def Address.bytes : Address → List Byte
  | .inet bytes => bytes.toList
  | .inet6 bytes => bytes.toList

/-- One byte of the mask, `i` bits of the prefix being left. -/
def maskByte (i : Nat) : Byte :=
  if 8 ≤ i then 0xFF else ~~~((1 <<< (8 - i)) - 1)

/-- The loop over the bytes of the mask, which is zero where no bits are left. -/
def netmask : Nat → Nat → List Byte
  | 0, _ => []
  | bytes + 1, i => (if 0 < i then maskByte i else 0) :: netmask bytes (i - 8)

/-- The loop over the bytes of two addresses and of the mask. -/
def sameNetwork : List Byte → List Byte → List Byte → Bool
  | mask :: netmask, byte1 :: address1, byte2 :: address2 =>
    byte1 &&& mask == byte2 &&& mask && sameNetwork netmask address1 address2
  | _, _, _ => true

def subnetMatch (af : Family) (prefixSize : Nat) (address1 address2 : List Byte) : Bool :=
  if af.maxCidrPrefix < prefixSize then false
  else sameNetwork (netmask af.bytes prefixSize) address1 address2

/-- IPv4-compatible, the first 96 bits are zeros. -/
def ipv4CompatMask : Vector Byte 12 :=
  #v[0, 0, 0, 0, 0, 0, 0, 0, 0, 0, 0, 0]

/-- IPv4-mapped, the first 80 bits are zeros, 16 next - ones. -/
def ipv4MappedMask : Vector Byte 12 :=
  #v[0, 0, 0, 0, 0, 0, 0, 0, 0, 0, 255, 255]

/-- `zbx_ip_cmp` with `HAVE_IPV6` -/
def ipCmp (prefixSize : Nat) (currentAi name : Address) : Bool :=
  match currentAi, name with
  | .inet address, .inet name => subnetMatch .inet prefixSize name.toList address.toList
  | .inet6 address, .inet6 name => subnetMatch .inet6 prefixSize name.toList address.toList
  | .inet address, .inet6 name =>
    -- must see whether it is compatible or mapped
    (name.toList.take 12 == ipv4CompatMask.toList ||
        name.toList.take 12 == ipv4MappedMask.toList) &&
      subnetMatch .inet prefixSize (name.toList.drop 12) address.toList
  | .inet6 address, .inet name =>
    subnetMatch .inet6 prefixSize address.toList (ipv4CompatMask.toList ++ name.toList) ||
      subnetMatch .inet6 prefixSize address.toList (ipv4MappedMask.toList ++ name.toList)

example :
    ipCmp 8 (.inet #v[127, 0, 0, 1])
      (.inet6 #v[0, 0, 0, 0, 0, 0, 0, 0, 0, 0, 255, 255, 127, 1, 2, 3]) = true := by
  decide

/-! ## Agreement in the bits of a prefix -/

variable {prefixSize : Nat} {af : Family} {address1 address2 : List Byte}

theorem getMsbD_maskByte {i k : Nat} (isBit : k < 8) :
    (maskByte i).getMsbD k = decide (k < i) := by
  by_cases isWhole : 8 ≤ i
  · rw [maskByte, if_pos isWhole, decide_eq_true (by omega : k < i)]
    interval_cases k <;> rfl
  · interval_cases i <;> interval_cases k <;> rfl

theorem netmask_byte (i : Nat) : (if 0 < i then maskByte i else 0) = maskByte i := by
  split_ifs with hasBits
  · rfl
  · obtain rfl : i = 0 := by omega
    decide

theorem sameNetwork_iff {bytes : Nat} (length1 : address1.length = bytes)
    (length2 : address2.length = bytes) :
    sameNetwork (netmask bytes prefixSize) address1 address2 = true ↔
      AgreeTo prefixSize address1 address2 := by
  induction bytes generalizing prefixSize address1 address2 with
  | zero =>
    obtain rfl := List.length_eq_zero_iff.mp length1
    obtain rfl := List.length_eq_zero_iff.mp length2
    exact iff_of_true rfl fun _ _ => rfl
  | succ bytes ih =>
    obtain ⟨byte1, address1, rfl⟩ := List.exists_cons_of_length_eq_add_one length1
    obtain ⟨byte2, address2, rfl⟩ := List.exists_cons_of_length_eq_add_one length2
    rw [netmask, sameNetwork, netmask_byte, Bool.and_eq_true, beq_iff_eq,
      ih (Nat.succ.inj length1) (Nat.succ.inj length2), agreeTo_cons (by decide),
      and_mask_eq_iff fun i isBit => getMsbD_maskByte isBit]

theorem subnetMatch_iff (isPrefix : prefixSize ≤ af.maxCidrPrefix)
    (length1 : address1.length = af.bytes) (length2 : address2.length = af.bytes) :
    subnetMatch af prefixSize address1 address2 = true ↔ AgreeTo prefixSize address1 address2 := by
  rw [subnetMatch, if_neg (Nat.not_lt.mpr isPrefix), sameNetwork_iff length1 length2]

/-! ## Forms of an address -/

/-- An IPv4 address behind the first 96 bits. -/
def embed (mask : Vector Byte 12) (bytes : Vector Byte 4) : Address :=
  .inet6 (mask ++ bytes)

/-- An IPv4 address itself, and the compatible and the mapped address. -/
def IsForm (bytes : Vector Byte 4) (address : Address) : Prop :=
  address = .inet bytes ∨ address = embed ipv4CompatMask bytes ∨
    address = embed ipv4MappedMask bytes

/-- Standard, compatible and IPv4-mapped addresses are treated the same. -/
def Identified (address form : Address) : Prop :=
  address = form ∨ ∃ bytes, IsForm bytes address ∧ IsForm bytes form

def AreTwins (address form : Address) : Prop :=
  ∃ bytes, (address = embed ipv4CompatMask bytes ∧ form = embed ipv4MappedMask bytes) ∨
    (address = embed ipv4MappedMask bytes ∧ form = embed ipv4CompatMask bytes)

/-- An address as it is, or in the other family. -/
inductive StandsFor : Address → Address → Prop
  | same (address : Address) : StandsFor address address
  | compatible (bytes : Vector Byte 4) : StandsFor (.inet bytes) (embed ipv4CompatMask bytes)
  | mapped (bytes : Vector Byte 4) : StandsFor (.inet bytes) (embed ipv4MappedMask bytes)
  | ofCompatible (bytes : Vector Byte 4) : StandsFor (embed ipv4CompatMask bytes) (.inet bytes)
  | ofMapped (bytes : Vector Byte 4) : StandsFor (embed ipv4MappedMask bytes) (.inet bytes)

theorem identified_iff {address form : Address} :
    Identified address form ↔ StandsFor address form ∨ AreTwins address form := by
  constructor
  · rintro (rfl | ⟨bytes, rfl | rfl | rfl, rfl | rfl | rfl⟩)
    · exact Or.inl (.same _)
    · exact Or.inl (.same _)
    · exact Or.inl (.compatible bytes)
    · exact Or.inl (.mapped bytes)
    · exact Or.inl (.ofCompatible bytes)
    · exact Or.inl (.same _)
    · exact Or.inr ⟨bytes, Or.inl ⟨rfl, rfl⟩⟩
    · exact Or.inl (.ofMapped bytes)
    · exact Or.inr ⟨bytes, Or.inr ⟨rfl, rfl⟩⟩
    · exact Or.inl (.same _)
  · rintro (stands | ⟨bytes, ⟨rfl, rfl⟩ | ⟨rfl, rfl⟩⟩)
    · cases stands with
      | same => exact Or.inl rfl
      | compatible bytes => exact Or.inr ⟨bytes, Or.inl rfl, Or.inr (Or.inl rfl)⟩
      | mapped bytes => exact Or.inr ⟨bytes, Or.inl rfl, Or.inr (Or.inr rfl)⟩
      | ofCompatible bytes => exact Or.inr ⟨bytes, Or.inr (Or.inl rfl), Or.inl rfl⟩
      | ofMapped bytes => exact Or.inr ⟨bytes, Or.inr (Or.inr rfl), Or.inl rfl⟩
    · exact Or.inr ⟨bytes, Or.inr (Or.inl rfl), Or.inr (Or.inr rfl)⟩
    · exact Or.inr ⟨bytes, Or.inr (Or.inr rfl), Or.inr (Or.inl rfl)⟩

/-- The addresses agree in the first bits, the peer being taken in the family of the other one. -/
def AgreesAs (form : Address → Address → Prop) (prefixSize : Nat) (address peer : Address) :
    Prop :=
  ∃ other, form peer other ∧ other.family = address.family ∧
    AgreeTo prefixSize address.bytes other.bytes

theorem eq_embed_iff {mask : Vector Byte 12} {name : Vector Byte 16} :
    name.toList.take 12 = mask.toList ↔ ∃ bytes, Address.inet6 name = embed mask bytes := by
  constructor
  · intro isMask
    have length_drop : (name.toList.drop 12).toArray.size = 4 := by simp
    refine ⟨⟨(name.toList.drop 12).toArray, length_drop⟩, congrArg Address.inet6 ?_⟩
    refine Vector.toList_inj.mp ?_
    rw [Vector.toList_append, ← isMask]
    exact (List.take_append_drop 12 _).symm
  · rintro ⟨bytes, same⟩
    obtain rfl := Address.inet6.inj same
    rw [Vector.toList_append]
    exact List.take_left' mask.length_toList

theorem standsFor_inet {bytes : Vector Byte 4} {other : Address} :
    StandsFor (.inet bytes) other ↔
      other = .inet bytes ∨ other = embed ipv4CompatMask bytes ∨
        other = embed ipv4MappedMask bytes := by
  constructor
  · intro stands
    generalize isPeer : Address.inet bytes = peer at stands
    cases stands with
    | same => exact Or.inl rfl
    | compatible => exact Or.inr (Or.inl (Address.inet.inj isPeer ▸ rfl))
    | mapped => exact Or.inr (Or.inr (Address.inet.inj isPeer ▸ rfl))
    | ofCompatible => cases isPeer
    | ofMapped => cases isPeer
  · rintro (rfl | rfl | rfl)
    · exact .same _
    · exact .compatible _
    · exact .mapped _

theorem standsFor_inet6 {bytes : Vector Byte 16} {other : Address} :
    StandsFor (.inet6 bytes) other ↔
      other = .inet6 bytes ∨ ∃ bytes4, (Address.inet6 bytes = embed ipv4CompatMask bytes4 ∨
        Address.inet6 bytes = embed ipv4MappedMask bytes4) ∧ other = .inet bytes4 := by
  constructor
  · intro stands
    generalize isPeer : Address.inet6 bytes = peer at stands
    cases stands with
    | same => exact Or.inl rfl
    | compatible => cases isPeer
    | mapped => cases isPeer
    | ofCompatible bytes4 => exact Or.inr ⟨bytes4, Or.inl rfl, rfl⟩
    | ofMapped bytes4 => exact Or.inr ⟨bytes4, Or.inr rfl, rfl⟩
  · rintro (rfl | ⟨bytes4, isForm | isForm, rfl⟩)
    · exact .same _
    · exact isForm ▸ .ofCompatible bytes4
    · exact isForm ▸ .ofMapped bytes4

theorem ipCmp_iff {address peer : Address} (isPrefix : prefixSize ≤ address.family.maxCidrPrefix) :
    ipCmp prefixSize address peer = true ↔ AgreesAs StandsFor prefixSize address peer := by
  cases address with
  | inet address =>
    have isPrefix : prefixSize ≤ Family.inet.maxCidrPrefix := isPrefix
    have length_eq : address.toList.length = Family.inet.bytes := address.length_toList
    cases peer with
    | inet name =>
      rw [ipCmp, subnetMatch_iff isPrefix name.length_toList length_eq, agreeTo_comm]
      constructor
      · exact fun agree => ⟨.inet name, .same _, rfl, agree⟩
      · rintro ⟨other, stands, isFamily, agree⟩
        obtain rfl | rfl | rfl := standsFor_inet.mp stands
        · exact agree
        · cases isFamily
        · cases isFamily
    | inet6 name =>
      rw [ipCmp, Bool.and_eq_true, Bool.or_eq_true, beq_iff_eq, beq_iff_eq, eq_embed_iff,
        eq_embed_iff, subnetMatch_iff isPrefix (by simp [Family.bytes]) length_eq, agreeTo_comm]
      have drop_eq {mask : Vector Byte 12} {bytes : Vector Byte 4}
          (isForm : Address.inet6 name = embed mask bytes) :
          name.toList.drop 12 = bytes.toList := by
        obtain rfl := Address.inet6.inj isForm
        rw [Vector.toList_append]
        exact List.drop_left' mask.length_toList
      constructor
      · rintro ⟨⟨bytes, isForm⟩ | ⟨bytes, isForm⟩, agree⟩
        all_goals
          rw [drop_eq isForm] at agree
          refine ⟨.inet bytes, standsFor_inet6.mpr (Or.inr ⟨bytes, ?_, rfl⟩), rfl, agree⟩
        · exact Or.inl isForm
        · exact Or.inr isForm
      · rintro ⟨other, stands, isFamily, agree⟩
        obtain rfl | ⟨bytes, isForm, rfl⟩ := standsFor_inet6.mp stands
        · cases isFamily
        · refine ⟨isForm.imp (⟨bytes, ·⟩) (⟨bytes, ·⟩), ?_⟩
          rw [isForm.elim drop_eq drop_eq]
          exact agree
  | inet6 address =>
    have isPrefix : prefixSize ≤ Family.inet6.maxCidrPrefix := isPrefix
    have length_eq : address.toList.length = Family.inet6.bytes := address.length_toList
    cases peer with
    | inet name =>
      have length_embed (mask : Vector Byte 12) :
          (mask.toList ++ name.toList).length = Family.inet6.bytes := by
        simp [Family.bytes]
      have bytes_embed (mask : Vector Byte 12) :
          (embed mask name).bytes = mask.toList ++ name.toList :=
        Vector.toList_append
      rw [ipCmp, Bool.or_eq_true, subnetMatch_iff isPrefix length_eq (length_embed _),
        subnetMatch_iff isPrefix length_eq (length_embed _)]
      constructor
      · rintro (agree | agree)
        · exact ⟨_, .compatible name, rfl, (bytes_embed _).symm ▸ agree⟩
        · exact ⟨_, .mapped name, rfl, (bytes_embed _).symm ▸ agree⟩
      · rintro ⟨other, stands, isFamily, agree⟩
        obtain rfl | rfl | rfl := standsFor_inet.mp stands
        · cases isFamily
        · exact Or.inl (bytes_embed _ ▸ agree)
        · exact Or.inr (bytes_embed _ ▸ agree)
    | inet6 name =>
      rw [ipCmp, subnetMatch_iff isPrefix name.length_toList length_eq, agreeTo_comm]
      constructor
      · exact fun agree => ⟨.inet6 name, .same _, rfl, agree⟩
      · rintro ⟨other, stands, isFamily, agree⟩
        obtain rfl | ⟨bytes, -, rfl⟩ := standsFor_inet6.mp stands
        · exact agree
        · cases isFamily

end Zabbix.Network.PeerAddress
