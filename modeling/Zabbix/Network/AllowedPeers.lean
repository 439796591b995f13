import Zabbix.Network.AddressText
import Zabbix.Network.PeerAddress

/-!
# Allowed peers

The list of peers that may connect: its validation, and the check of the address of a peer.
-/

namespace Zabbix.Network.AllowedPeers

open Common.Text Common.Integers Library.BitPrefix
open AddressText PeerAddress

def maxStringLen : Nat := 2048

/-- `strscpy` to an array of `MAX_STRING_LEN` characters. -/
def strscpy (text : Text) : Text :=
  text.take (maxStringLen - 1)

def isUintRange (str : Text) (min max : Nat) : Option Nat :=
  isUintNRange str str.length min max

def validateCidr (ip cidr : Text) : Option Nat :=
  if isIp4 ip then isUintRange cidr 0 ipv4MaxCidrPrefix
  else if isIp6 ip then isUintRange cidr 0 ipv6MaxCidrPrefix
  else none

/-- The entries that the loops over `start` come to; `entry` is what has been read of the first. -/
def entriesLoop (entry : Text) : Text → List Text
  | [] => if entry = [] then [] else [entry]
  | char :: rest =>
    if char = ',' then entry :: entriesLoop [] rest else entriesLoop (entry ++ [char]) rest

/-- The address in an entry, and what is behind the first slash. -/
def cutCidr (entry : Text) : Text × Option Text :=
  match entry.dropWhile (· ≠ '/') with
  | [] => (entry, none)
  | _ :: cidr => (entry.takeWhile (· ≠ '/'), some cidr)

def validateEntry (entry : Text) : Bool :=
  match cutCidr entry with
  | (start, some cidr) => (validateCidr start cidr).isSome
  | (start, none) => isSupportedIp start || validateHostname start

def validateEntries : List Text → Except Text Unit
  | [] => .ok ()
  | entry :: entries =>
    if validateEntry entry then validateEntries entries else .error ('"' :: entry ++ ['"'])

def validatePeerList (peerList : Text) : Except Text Unit :=
  validateEntries (entriesLoop [] (strscpy peerList))

/-- The address that is looked up for an entry, and the size of its prefix. -/
def entryAddress (entry : Text) : Text × Option Nat :=
  match cutCidr entry with
  | (start, some cidr) =>
    match validateCidr start cidr with
    | some prefixSize => (start, some prefixSize)
    -- CIDR is only supported for IP
    | none => (entry, none)
  | (start, none) => (start, none)

def entryAllows (getaddrinfo : Text → List Address) (peerInfo : Address) (entry : Text) : Bool :=
  (getaddrinfo (entryAddress entry).1).any fun currentAi =>
    ipCmp ((entryAddress entry).2.getD currentAi.family.maxCidrPrefix) currentAi peerInfo

/-- `zbx_tcp_check_allowed_peers`, with the addresses that `getaddrinfo` finds. -/
def tcpCheckAllowedPeers (getaddrinfo : Text → List Address) (peerInfo : Address)
    (peerList : Text) : Bool :=
  (entriesLoop [] (strscpy peerList)).any (entryAllows getaddrinfo peerInfo)

/-! ## Lists of addresses -/

/-- The number that a text of digits stands for. -/
def decimalValue (text : Text) : Nat :=
  text.foldl (fun value char => value * 10 + digitValue char) 0

/-- An address with its literal, and the text of a prefix.  An IPv6 literal is the one with a
colon. -/
structure PeerEntry where
  literal : Text
  cidr : Option Text
  address : Address
  literal_ne_nil : literal ≠ []
  noComma : ',' ∉ literal
  noSlash : '/' ∉ literal
  cidr_noComma : ∀ text ∈ cidr, ',' ∉ text
  colon_iff : ':' ∈ literal ↔ address.family = .inet6

def PeerEntry.text (entry : PeerEntry) : Text :=
  match entry.cidr with
  | some cidr => entry.literal ++ '/' :: cidr
  | none => entry.literal

/-- All bits are compared without a prefix. -/
def PeerEntry.prefixSize (entry : PeerEntry) : Nat :=
  match entry.cidr with
  | some cidr => decimalValue cidr
  | none => entry.address.family.maxCidrPrefix

def listText (entries : List PeerEntry) : Text :=
  [','].intercalate (entries.map PeerEntry.text)

/-- The addresses agree in the bits of the prefix, where the standard, the compatible and the
mapped address are the same. -/
def PeerEntry.Admits (entry : PeerEntry) (peer : Address) : Prop :=
  AgreesAs Identified entry.prefixSize entry.address peer

variable {text entry : Text}

theorem entriesLoop_append (noComma : ',' ∉ text) (rest : Text) :
    entriesLoop entry (text ++ rest) = entriesLoop (entry ++ text) rest := by
  induction text generalizing entry with
  | nil => rw [List.nil_append, List.append_nil]
  | cons char text ih =>
    obtain ⟨isOther, noComma⟩ := List.ne_and_not_mem_of_not_mem_cons noComma
    rw [List.cons_append, entriesLoop, if_neg (Ne.symm isOther), ih noComma,
      List.append_assoc, List.singleton_append]

/-- Texts that are joined by commas are read as they are. -/
theorem entriesLoop_intercalate (texts : List Text)
    (areEntries : ∀ text ∈ texts, text ≠ [] ∧ ',' ∉ text) :
    entriesLoop [] ([','].intercalate texts) = texts := by
  induction texts with
  | nil => rfl
  | cons text texts ih =>
    obtain ⟨⟨isText, noComma⟩, areEntries⟩ := List.forall_mem_cons.mp areEntries
    cases texts with
    | nil =>
      have whole := @entriesLoop_append text [] noComma []
      rw [List.append_nil, List.nil_append, entriesLoop, if_neg isText] at whole
      rw [List.intercalate_singleton, whole]
    | cons next texts =>
      rw [List.intercalate_cons_cons, List.append_assoc, entriesLoop_append noComma,
        List.nil_append, List.singleton_append, entriesLoop, if_pos rfl, ih areEntries]

theorem cutCidr_of_noSlash (noSlash : '/' ∉ text) : cutCidr text = (text, none) := by
  have isNone : text.dropWhile (· ≠ '/') = [] := by
    rw [List.dropWhile_eq_nil_iff]
    intro char isIn
    rw [decide_eq_true_eq]
    rintro rfl
    exact noSlash isIn
  rw [cutCidr, isNone]

theorem cutCidr_append (noSlash : '/' ∉ text) (cidr : Text) :
    cutCidr (text ++ '/' :: cidr) = (text, some cidr) := by
  have isPlain : ∀ char ∈ text, decide (char ≠ '/') = true := by
    intro char isIn
    rw [decide_eq_true_eq]
    rintro rfl
    exact noSlash isIn
  rw [cutCidr, List.dropWhile_append_of_pos isPlain, List.dropWhile_cons_of_neg (by simp),
    List.takeWhile_append_of_pos isPlain, List.takeWhile_cons_of_neg (by simp), List.append_nil]

theorem decimalLoop_eq_some {max value number : Nat}
    (parsed : decimalLoop max value text = some number) :
    number = text.foldl (fun value char => value * 10 + digitValue char) value := by
  induction text generalizing value with
  | nil => exact (Option.some.inj parsed).symm
  | cons char text ih =>
    rw [decimalLoop] at parsed
    split_ifs at parsed
    exact ih parsed

theorem isUintRange_eq_some {min max number : Nat}
    (parsed : isUintRange text min max = some number) :
    number = decimalValue text ∧ number ≤ max := by
  rw [isUintRange, isUintNRange, inRange] at parsed
  split_ifs at parsed
  obtain ⟨isValue, bounds⟩ := Option.filter_eq_some_iff.mp parsed
  rw [List.take_length] at isValue
  rw [Bool.and_eq_true, decide_eq_true_eq, decide_eq_true_eq] at bounds
  exact ⟨decimalLoop_eq_some isValue, bounds.2⟩

/-! ## The check -/

theorem validateEntries_eq_ok {entries : List Text} (accepted : validateEntries entries = .ok ()) :
    ∀ entry ∈ entries, validateEntry entry = true := by
  induction entries with
  | nil => exact nofun
  | cons entry entries ih =>
    rw [validateEntries] at accepted
    split_ifs at accepted with isValid
    exact List.forall_mem_cons.mpr ⟨isValid, ih accepted⟩

theorem PeerEntry.text_isEntry (entry : PeerEntry) : entry.text ≠ [] ∧ ',' ∉ entry.text := by
  rw [PeerEntry.text]
  cases hasCidr : entry.cidr with
  | none => exact ⟨entry.literal_ne_nil, entry.noComma⟩
  | some cidr =>
    refine ⟨by simp, ?_⟩
    rw [List.mem_append, List.mem_cons]
    rintro (isIn | isSlash | isIn)
    · exact entry.noComma isIn
    · exact absurd isSlash (by decide)
    · exact entry.cidr_noComma cidr hasCidr isIn

theorem PeerEntry.validateCidr_eq_some (entry : PeerEntry) {cidr : Text} {number : Nat}
    (isValid : validateCidr entry.literal cidr = some number) :
    number = decimalValue cidr ∧ number ≤ entry.address.family.maxCidrPrefix := by
  rw [validateCidr] at isValid
  split_ifs at isValid with isFour isSix
  · have isInet : entry.address.family = .inet := by
      have noColon := entry.colon_iff.not.mp (not_colon_of_isIp4 isFour)
      cases isFamily : entry.address.family with
      | inet => rfl
      | inet6 => exact absurd isFamily noColon
    rw [isInet]
    exact isUintRange_eq_some isValid
  · rw [entry.colon_iff.mp (colon_of_isIp6 isSix)]
    exact isUintRange_eq_some isValid

/-- What is looked up for an entry, and in how many bits it is compared. -/
theorem PeerEntry.entryAddress_eq (entry : PeerEntry) (isValid : validateEntry entry.text = true) :
    (entryAddress entry.text).1 = entry.literal ∧
      (entryAddress entry.text).2.getD entry.address.family.maxCidrPrefix = entry.prefixSize ∧
      entry.prefixSize ≤ entry.address.family.maxCidrPrefix := by
  cases hasCidr : entry.cidr with
  | none =>
    have isCut : cutCidr entry.text = (entry.literal, none) := by
      rw [PeerEntry.text, hasCidr]
      exact cutCidr_of_noSlash entry.noSlash
    rw [entryAddress, isCut, PeerEntry.prefixSize, hasCidr]
    exact ⟨rfl, rfl, le_rfl⟩
  | some cidr =>
    have isCut : cutCidr entry.text = (entry.literal, some cidr) := by
      rw [PeerEntry.text, hasCidr]
      exact cutCidr_append entry.noSlash cidr
    rw [validateEntry, isCut] at isValid
    obtain ⟨number, isNumber⟩ := Option.isSome_iff_exists.mp isValid
    obtain ⟨rfl, isPrefix⟩ := entry.validateCidr_eq_some isNumber
    rw [entryAddress, isCut, PeerEntry.prefixSize, hasCidr]
    simp only [isNumber]
    exact ⟨trivial, rfl, isPrefix⟩

theorem PeerEntry.allows_iff (entry : PeerEntry) {getaddrinfo : Text → List Address}
    {peer : Address} (isFound : getaddrinfo entry.literal = [entry.address])
    (isValid : validateEntry entry.text = true) :
    entryAllows getaddrinfo peer entry.text = true ↔
      AgreesAs StandsFor entry.prefixSize entry.address peer := by
  obtain ⟨isLiteral, isSize, isPrefix⟩ := entry.entryAddress_eq isValid
  rw [entryAllows, isLiteral, isFound, List.any_cons, List.any_nil, Bool.or_false, isSize]
  exact ipCmp_iff isPrefix

/-- The comparison with an IPv6 address misses the other IPv6 form of an IPv4 address. -/
theorem agreesAs_identified_iff {prefixSize : Nat} {address peer : Address} :
    AgreesAs Identified prefixSize address peer ↔
      AgreesAs StandsFor prefixSize address peer ∨ AgreesAs AreTwins prefixSize address peer := by
  simp only [AgreesAs, identified_iff, or_and_right, exists_or]

/-- A peer is allowed just when an entry admits it, but for a peer with an IPv6 form of an IPv4
address that is admitted in the other IPv6 form only. -/
theorem tcpCheckAllowedPeers_iff (getaddrinfo : Text → List Address) (entries : List PeerEntry)
    (peer : Address) (areFound : ∀ entry ∈ entries, getaddrinfo entry.literal = [entry.address])
    (fits : (listText entries).length < maxStringLen)
    (accepted : validatePeerList (listText entries) = .ok ()) :
    (tcpCheckAllowedPeers getaddrinfo peer (listText entries) = true ↔
        ∃ entry ∈ entries, entry.Admits peer) ↔
      ((∃ entry ∈ entries, AgreesAs AreTwins entry.prefixSize entry.address peer) →
        ∃ entry ∈ entries, AgreesAs StandsFor entry.prefixSize entry.address peer) := by
  have copied : strscpy (listText entries) = listText entries :=
    List.take_of_length_le (Nat.le_sub_one_of_lt fits)
  have areEntries : ∀ text ∈ entries.map PeerEntry.text, text ≠ [] ∧ ',' ∉ text := by
    rw [List.forall_mem_map]
    exact fun entry _ => entry.text_isEntry
  have read : entriesLoop [] (listText entries) = entries.map PeerEntry.text :=
    entriesLoop_intercalate _ areEntries
  rw [validatePeerList, copied, read] at accepted
  have areValid := List.forall_mem_map.mp (validateEntries_eq_ok accepted)
  have allows : tcpCheckAllowedPeers getaddrinfo peer (listText entries) = true ↔
      ∃ entry ∈ entries, AgreesAs StandsFor entry.prefixSize entry.address peer := by
    rw [tcpCheckAllowedPeers, copied, read, List.any_map, List.any_eq_true]
    refine exists_congr fun entry => and_congr_right fun isIn => ?_
    exact entry.allows_iff (areFound entry isIn) (areValid entry isIn)
  simp only [allows, PeerEntry.Admits, agreesAs_identified_iff, and_or_left, exists_or]
  exact ⟨fun same isTwin => same.mpr (Or.inr isTwin),
    fun isTwin => ⟨Or.inl, fun admits => admits.elim id isTwin⟩⟩

def loopback : Vector Byte 4 :=
  #v[127, 0, 0, 1]

def compatibleEntry : PeerEntry where
  literal := "::127.0.0.1".toList
  cidr := none
  address := embed ipv4CompatMask loopback
  literal_ne_nil := by decide
  noComma := by decide
  noSlash := by decide
  cidr_noComma := nofun
  colon_iff := iff_of_true (by decide) rfl

def networkEntry : PeerEntry where
  literal := "10.0.0.0".toList
  cidr := some "8".toList
  address := .inet #v[10, 0, 0, 0]
  literal_ne_nil := by decide
  noComma := by decide
  noSlash := by decide
  cidr_noComma := by
    rintro text isCidr
    obtain rfl := Option.some.inj isCidr
    decide
  colon_iff := iff_of_false (by decide) nofun

/-- What is found for the literals of two entries. -/
def findLiterals (text : Text) : List Address :=
  if text = compatibleEntry.literal then [compatibleEntry.address]
  else if text = networkEntry.literal then [networkEntry.address]
  else []

theorem tcpCheckAllowedPeers_iff_network :
    (tcpCheckAllowedPeers findLiterals (.inet #v[10, 1, 2, 3])
          (listText [networkEntry, compatibleEntry]) = true ↔
        ∃ entry ∈ [networkEntry, compatibleEntry], entry.Admits (.inet #v[10, 1, 2, 3])) ↔
      ((∃ entry ∈ [networkEntry, compatibleEntry],
          AgreesAs AreTwins entry.prefixSize entry.address (.inet #v[10, 1, 2, 3])) →
        ∃ entry ∈ [networkEntry, compatibleEntry],
          AgreesAs StandsFor entry.prefixSize entry.address (.inet #v[10, 1, 2, 3])) :=
  tcpCheckAllowedPeers_iff findLiterals [networkEntry, compatibleEntry] (.inet #v[10, 1, 2, 3])
    (by decide) (by decide) (by rfl)

/-- The mapped address of an allowed compatible address is refused. -/
theorem not_tcpCheckAllowedPeers_mapped :
    ¬∀ (getaddrinfo : Text → List Address) (entries : List PeerEntry) (peer : Address),
      (∀ entry ∈ entries, getaddrinfo entry.literal = [entry.address]) →
      (listText entries).length < maxStringLen →
      validatePeerList (listText entries) = .ok () →
      (tcpCheckAllowedPeers getaddrinfo peer (listText entries) = true ↔
        ∃ entry ∈ entries, entry.Admits peer) := by
  intro allows
  have isRefused : tcpCheckAllowedPeers findLiterals (embed ipv4MappedMask loopback)
      (listText [compatibleEntry]) = false := by
    decide
  have isAdmitted : compatibleEntry.Admits (embed ipv4MappedMask loopback) := by
    refine ⟨embed ipv4CompatMask loopback, Or.inr ⟨loopback, ?_, ?_⟩, rfl, fun _ _ => rfl⟩
    · exact Or.inr (Or.inr rfl)
    · exact Or.inr (Or.inl rfl)
  have isAllowed := (allows findLiterals [compatibleEntry] (embed ipv4MappedMask loopback)
    (by decide) (by decide) (by rfl)).mpr ⟨_, List.mem_cons_self, isAdmitted⟩
  rw [isRefused] at isAllowed
  cases isAllowed

end Zabbix.Network.AllowedPeers
