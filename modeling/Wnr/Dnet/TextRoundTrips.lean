import Wnr.Dnet.AddrText
import Wnr.Dnet.EthGrammar
import Wnr.Foundation.Ipv6Text

/-! # Reading back what is printed

The three grammars of an address are tried one after the other. What is printed for an
address of one family is not read as one of another, so each is read back
(`Wnr.Dnet.Addr.text_round_trip`). A MAC address is read back in every form of its
grammar.
-/

namespace Wnr.Dnet

open Text Net

/-! ## MAC addresses -/

/-- A MAC address, its octets written as given with a separator between them. -/
def ethForm (sep : List Char) (digits : UInt8 → List Char) (addr : EthAddr) : List Char :=
  sep.intercalate (addr.data.toList.map digits)

theorem ethNtop_eq (addr : EthAddr) : ethNtop addr = ethForm [':'] lowerHex addr :=
  hexOctets_eq addr.data.toList

theorem intercalate_nil_eq_flatten (parts : List (List Char)) :
    [].intercalate parts = parts.flatten := by
  cases parts with
  | nil => rfl
  | cons part parts =>
      rw [intercalate_cons_eq, List.flatten_cons]
      exact congrArg (part ++ ·) List.flatMap_id'

/-- Every form is in the grammar. -/
theorem macText_ethForm {sep : List Char} {digits : UInt8 → List Char} (addr : EthAddr)
    (known : sep = [':'] ∨ sep = ['-'] ∨ sep = [])
    (pairs : ∀ octet, IsPair (digits octet) octet) : MacText (ethForm sep digits addr) addr := by
  have octets : List.Forall₂ IsPair (addr.data.toList.map digits) addr.data.toList :=
    List.forall₂_map_left_iff.mpr (List.forall₂_same.mpr fun octet _ => pairs octet)
  rcases known with rfl | rfl | rfl
  · exact .separated (.inl rfl) (octets.imp fun _ _ => And.right)
  · exact .separated (.inr rfl) (octets.imp fun _ _ => And.right)
  · rw [ethForm, intercalate_nil_eq_flatten]
    exact .compact octets

theorem isPair_lowerHex (octet : UInt8) : IsPair (lowerHex octet) octet :=
  ⟨rfl, isHexByte_lowerHex octet⟩

theorem isPair_upperHex (octet : UInt8) : IsPair (upperHex octet) octet :=
  ⟨rfl, isHexByte_upperHex octet⟩

theorem MacText.nonempty {text : List Char} {addr : EthAddr} (isMac : MacText text addr) :
    text ≠ [] := by
  cases isMac with
  | @separated sep groups _ known octets =>
      have signed := octets.imp fun _ _ isByte => (isSigned_iff.mpr isByte).1
      have present : sep ∈ [sep].intercalate groups :=
        (mem_groups_iff signed (separator_apart known)).mpr rfl
      exact List.ne_nil_of_mem present
  | compact octets =>
      obtain ⟨octets'⟩ := addr
      obtain ⟨a, b, c, d, e, f, rfl⟩ := exists_six octets'
      obtain ⟨_, _, _, _, _, _, _, _, _, _, _, _, rfl, -⟩ := exists_pairs octets
      exact List.cons_ne_nil _ _

theorem MacText.isWord {text : List Char} {addr : EthAddr} (isMac : MacText text addr) :
    IsWord text := by
  refine ⟨isMac.nonempty, fun c member => ?_⟩
  rcases isMac.char c member with digit | rfl | rfl
  · exact isWhitespace_of_hexDigit digit
  · rfl
  · rfl

/-- A text of the grammar is read, whatever white space is around it. -/
theorem ethPton_of_macText {text lead trail : List Char} {addr : EthAddr}
    (isMac : MacText text addr) (before : Blank lead) (after : Blank trail) :
    ethPton (lead ++ (text ++ trail)) = some addr := by
  rw [ethPton_eq_some_iff, trim_word before isMac.isWord after]
  exact isMac.readAs

theorem ethPton_of_form {text : List Char} {addr : EthAddr} (isMac : MacText text addr) :
    ethPton text = some addr := by
  have none : Blank [] := List.forall_mem_nil _
  have alone := ethPton_of_macText isMac none none
  rwa [List.nil_append, List.append_nil] at alone

theorem signed_lowerHex (addr : EthAddr) :
    List.Forall₂ IsSigned (addr.data.toList.map lowerHex) addr.data.toList := by
  rw [List.forall₂_map_left_iff, List.forall₂_same]
  intro octet _
  exact (isSigned_iff.mpr (isHexByte_lowerHex octet)).1

/-! ## The three families -/

namespace Addr

/-- What the standard library's parser and printer of IPv6 addresses promise: it reads back what
it prints, and only texts of its grammar. -/
structure StdIpv6 (displayIpv6 : Ipv6Addr → List Char)
    (parseIpv6 : List Char → Option Ipv6Addr) : Prop where
  reads : ∀ ip, parseIpv6 (displayIpv6 ip) = some ip
  grammar : ∀ text ip, parseIpv6 text = some ip → Ipv6Text text

variable {displayIpv6 : Ipv6Addr → List Char} {parseIpv6 : List Char → Option Ipv6Addr}
  {lead trail : List Char}

/-- An address that is written with a colon is no IPv4 address. -/
theorem parseIpv4_of_colon {text : List Char} (colon : ':' ∈ text) : parseIpv4 text = none := by
  apply Option.eq_none_iff_forall_ne_some.mpr
  intro address read
  rcases isDigit_or_dot_of_parseIpv4 read colon with digit | dot
  · cases digit
  · cases dot

theorem addrPton_ipv4 (ip : Ipv4Addr) (before : Blank lead) (after : Blank trail) :
    addrPton parseIpv6 (lead ++ (ip.display ++ trail)) = some (ipv4 ip) := by
  simp only [addrPton, fromStr, trim_word before (isWord_display ip) after, parseIpv4_display]
  rfl

theorem addrPton_ipv6 (std : StdIpv6 displayIpv6 parseIpv6) (ip : Ipv6Addr) (before : Blank lead)
    (after : Blank trail) :
    addrPton parseIpv6 (lead ++ (displayIpv6 ip ++ trail)) = some (ipv6 ip) := by
  have isIpv6 : Ipv6Text (displayIpv6 ip) := std.grammar _ ip (std.reads ip)
  simp only [addrPton, fromStr, trim_word before isIpv6.isWord after,
    parseIpv4_of_colon isIpv6.colon, std.reads]
  rfl

/-- The groups of a MAC address are too few for an IPv6 address. -/
theorem parseIpv6_of_macText (std : StdIpv6 displayIpv6 parseIpv6) (addr : EthAddr) :
    parseIpv6 (ethForm [':'] lowerHex addr) = none := by
  have octets : List.Forall₂ IsSigned (addr.data.toList.map lowerHex) addr.data.toList :=
    signed_lowerHex addr
  have split : (ethForm [':'] lowerHex addr).splitOn ':' = addr.data.toList.map lowerHex :=
    splitOn_groups (.inl rfl) octets
  have noDot : '.' ∉ ethForm [':'] lowerHex addr := by
    intro dot
    have same := (mem_groups_iff octets (by decide)).mp dot
    cases same
  have parts : [] ∉ (ethForm [':'] lowerHex addr).splitOn ':' := by
    rw [split]
    intro empty
    obtain ⟨octet, -, none⟩ := List.mem_map.mp empty
    cases none
  apply Option.eq_none_iff_forall_ne_some.mpr
  intro ip read
  have eight := (std.grammar _ ip read).length_splitOn noDot parts
  rw [split, List.length_map, Vector.length_toList] at eight
  cases eight

theorem addrPton_hw (std : StdIpv6 displayIpv6 parseIpv6) (addr : EthAddr) (before : Blank lead)
    (after : Blank trail) :
    addrPton parseIpv6 (lead ++ (ethForm [':'] lowerHex addr ++ trail)) = some (hw addr.data) := by
  have isMac : MacText (ethForm [':'] lowerHex addr) addr :=
    macText_ethForm addr (.inl rfl) isPair_lowerHex
  have colon : ':' ∈ ethForm [':'] lowerHex addr :=
    (mem_groups_iff (signed_lowerHex addr) (by decide)).mpr rfl
  have read : ethPton (ethForm [':'] lowerHex addr) = some addr := ethPton_of_form isMac
  simp only [addrPton, fromStr, trim_word before isMac.isWord after, parseIpv4_of_colon colon,
    parseIpv6_of_macText std addr, if_pos colon, read]
  rfl

/-- The six bytes of a hardware address are printed. -/
theorem addrNtoa_hw (bytes : Vector UInt8 hwAddrLen) :
    addrNtoa displayIpv6 (hw bytes) = ethForm [':'] lowerHex ⟨bytes⟩ := by
  have first : (hw bytes).data.toList.take hwAddrLen = bytes.toList := by
    obtain ⟨a, b, c, d, e, f, rfl⟩ := exists_six bytes
    rfl
  have family : addrNtoa displayIpv6 (hw bytes) =
      hexOctets ((hw bytes).data.toList.take hwAddrLen) := rfl
  rw [family, first, hexOctets_eq]
  rfl

/-- **Text round trip.** Every address that is built of one family is read back from what is
printed of it, whatever white space is around, and a MAC address from every form of its text. -/
theorem text_round_trip (std : StdIpv6 displayIpv6 parseIpv6) :
    (∀ a, ((∃ ip, a = ipv4 ip) ∨ (∃ ip, a = ipv6 ip) ∨ ∃ bytes, a = hw bytes) →
      ∀ lead trail, Blank lead → Blank trail →
        addrPton parseIpv6 (lead ++ (addrNtoa displayIpv6 a ++ trail)) = some a) ∧
      ∀ addr, ethPton (ethNtop addr) = some addr ∧
        ∀ sep ∈ [[':'], ['-'], []], ∀ digits ∈ [lowerHex, upperHex],
          ethPton (ethForm sep digits addr) = some addr := by
  constructor
  · intro a built lead trail before after
    rcases built with ⟨ip, rfl⟩ | ⟨ip, rfl⟩ | ⟨bytes, rfl⟩
    · exact addrPton_ipv4 ip before after
    · exact addrPton_ipv6 std ip before after
    · rw [addrNtoa_hw]
      exact addrPton_hw std ⟨bytes⟩ before after
  · intro addr
    have forms : ∀ sep ∈ [[':'], ['-'], []], ∀ digits ∈ [lowerHex, upperHex],
        ethPton (ethForm sep digits addr) = some addr := by
      intro sep known digits letters
      have pairs : ∀ octet, IsPair (digits octet) octet := by
        rcases List.mem_pair.mp letters with rfl | rfl
        · exact isPair_lowerHex
        · exact isPair_upperHex
      have isMac : MacText (ethForm sep digits addr) addr :=
        macText_ethForm addr (by simpa using known) pairs
      exact ethPton_of_form isMac
    refine ⟨?_, forms⟩
    rw [ethNtop_eq]
    exact forms [':'] List.mem_cons_self lowerHex List.mem_cons_self

/-! ### Four digits in every group -/

/-- Two octets in four digits. -/
def hexGroup (pair : UInt8 × UInt8) : List Char := lowerHex pair.1 ++ lowerHex pair.2

/-- The octets of a group of four digits. -/
def parseGroup : List Char → Option (UInt8 × UInt8)
  | [a, b, c, d] => do return (← hexOctet a b, ← hexOctet c d)
  | _ => none

/-- The octets two by two. -/
def octetPairs : List UInt8 → List (UInt8 × UInt8)
  | a :: b :: rest => (a, b) :: octetPairs rest
  | _ => []

/-- An IPv6 address with four digits in every group. -/
def displayFull (ip : Ipv6Addr) : List Char :=
  [':'].intercalate ((octetPairs ip.toList).map hexGroup)

/-- Read groups of four digits. -/
def parseFull (text : List Char) : Option Ipv6Addr := do
  let pairs ← (text.splitOn ':').mapM parseGroup
  let octets := pairs.flatMap fun pair => [pair.1, pair.2]
  if sixteen : octets.length = ip6AddrLen then some ⟨octets.toArray, sixteen⟩ else none

theorem parseGroup_hexGroup (pair : UInt8 × UInt8) : parseGroup (hexGroup pair) = some pair := by
  have first := hexOctet_eq_some_iff.mpr (isHexByte_lowerHex pair.1)
  have second := hexOctet_eq_some_iff.mpr (isHexByte_lowerHex pair.2)
  simp only [hexGroup, lowerHex, List.cons_append, List.nil_append, parseGroup, first, second,
    Option.bind_eq_bind, Option.bind_some]
  rfl

theorem isGroup_of_parseGroup {text : List Char} {pair : UInt8 × UInt8}
    (read : parseGroup text = some pair) : IsGroup text := by
  unfold parseGroup at read
  split at read
  · rename_i a b c d
    simp only [Option.bind_eq_bind, Option.bind_eq_some_iff, hexOctet_eq_some_iff] at read
    obtain ⟨_, first, _, second, -⟩ := read
    refine ⟨List.cons_ne_nil a _, le_rfl, fun other member => ?_⟩
    have either : other ∈ [a, b] ∨ other ∈ [c, d] := List.mem_append.mp member
    exact either.elim (first.digits other) (second.digits other)
  · cases read

/-- Groups are read one by one. -/
theorem mapM_parseGroup {texts : List (List Char)} {pairs : List (UInt8 × UInt8)}
    (read : texts.mapM parseGroup = some pairs) :
    texts.length = pairs.length ∧ ∀ text ∈ texts, IsGroup text := by
  induction texts generalizing pairs with
  | nil =>
      cases read
      exact ⟨rfl, List.forall_mem_nil _⟩
  | cons text texts ih =>
      rw [List.mapM_cons] at read
      simp only [Option.bind_eq_bind, Option.bind_eq_some_iff, Option.pure_def,
        Option.some.injEq] at read
      obtain ⟨pair, first, pairs', later, rfl⟩ := read
      obtain ⟨length, groups⟩ := ih later
      exact ⟨congrArg Nat.succ length,
        List.forall_mem_cons.mpr ⟨isGroup_of_parseGroup first, groups⟩⟩

theorem mapM_hexGroup (pairs : List (UInt8 × UInt8)) :
    (pairs.map hexGroup).mapM parseGroup = some pairs := by
  induction pairs with
  | nil => rfl
  | cons pair pairs ih =>
      rw [List.map_cons, List.mapM_cons, parseGroup_hexGroup, ih]
      rfl

theorem flatMap_octetPairs {octets : List UInt8} (even : octets.length % 2 = 0) :
    ((octetPairs octets).flatMap fun pair => [pair.1, pair.2]) = octets := by
  induction octets using octetPairs.induct with
  | case1 a b rest ih =>
      have fewer : rest.length % 2 = 0 := by
        rw [List.length_cons, List.length_cons] at even
        omega
      rw [octetPairs, List.flatMap_cons, ih fewer]
      rfl
  | case2 octets noPair =>
      match octets with
      | [] => rfl
      | [_] => cases even
      | a :: b :: rest => exact absurd rfl (noPair a b rest)

theorem length_flatMap_pairs (pairs : List (UInt8 × UInt8)) :
    (pairs.flatMap fun pair => [pair.1, pair.2]).length = 2 * pairs.length := by
  induction pairs with
  | nil => rfl
  | cons pair pairs ih =>
      rw [List.flatMap_cons, List.length_append, ih, List.length_cons, List.length_cons,
        List.length_cons, List.length_nil]
      omega

theorem stdIpv6_full : StdIpv6 displayFull parseFull where
  reads ip := by
    have length : ip.toList.length = 16 := Vector.length_toList
    have split : (displayFull ip).splitOn ':' = (octetPairs ip.toList).map hexGroup := by
      apply List.splitOn_intercalate
      · intro group member colon
        obtain ⟨pair, -, rfl⟩ := List.mem_map.mp member
        exact (isGroup_of_parseGroup (parseGroup_hexGroup pair)).noColon colon
      · intro none
        have octets := @flatMap_octetPairs ip.toList (by rw [length])
        rw [List.map_eq_nil_iff.mp none] at octets
        rw [← octets] at length
        cases length
    have octets : ((octetPairs ip.toList).flatMap fun pair => [pair.1, pair.2]) = ip.toList :=
      flatMap_octetPairs (by rw [length])
    simp only [parseFull, split, mapM_hexGroup, Option.bind_eq_bind, Option.bind_some, octets,
      dif_pos length]
    rfl
  grammar text ip read := by
    simp only [parseFull, Option.bind_eq_bind, Option.bind_eq_some_iff] at read
    obtain ⟨pairs, groups, made⟩ := read
    split at made
    · rename_i sixteen
      obtain ⟨length, areGroups⟩ := mapM_parseGroup groups
      have eight : (text.splitOn ':').length = 8 := by
        have twice : 2 * pairs.length = 16 := (length_flatMap_pairs pairs).symm.trans sixteen
        omega
      have whole := groups_intercalate (List.splitOn_ne_nil ':' text) areGroups
      rw [List.intercalate_splitOn, eight] at whole
      exact .full whole
    · cases made

/-- An address of each family. -/
theorem text_round_trip_full :
    (∀ a ∈ [ipv4 ⟨192, 168, 1, 1⟩, hw #v[0xaa, 0xbb, 0xcc, 0xdd, 0xee, 0x01],
        ipv6 #v[0x20, 0x01, 0x1d, 0xb8, 0x85, 0xa3, 0x13, 0x19, 0x8a, 0x2e, 0x13, 0x70, 0x73, 0x34,
          0x89, 0xab]],
      addrPton parseFull ([' '] ++ (addrNtoa displayFull a ++ ['\n'])) = some a) ∧
    ethPton (ethForm ['-'] upperHex ⟨#v[0xaa, 0xbb, 0xcc, 0xdd, 0xee, 0x01]⟩) =
      some ⟨#v[0xaa, 0xbb, 0xcc, 0xdd, 0xee, 0x01]⟩ := by
  obtain ⟨addresses, forms⟩ := text_round_trip stdIpv6_full
  refine ⟨fun a known => addresses a ?_ [' '] ['\n'] (by decide) (by decide), ?_⟩
  · simp only [List.mem_cons, List.not_mem_nil, or_false] at known
    rcases known with rfl | rfl | rfl
    · exact .inl ⟨_, rfl⟩
    · exact .inr (.inr ⟨_, rfl⟩)
    · exact .inr (.inl ⟨_, rfl⟩)
  · exact (forms ⟨#v[0xaa, 0xbb, 0xcc, 0xdd, 0xee, 0x01]⟩).2 ['-'] (by decide) upperHex (by simp)

end Addr

end Wnr.Dnet
