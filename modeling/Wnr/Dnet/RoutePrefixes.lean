import Wnr.Dnet.RouteLookup

/-! # Longer prefixes

The mask of a prefix that is longer than the byte array has no one bits, so such a
network contains every address of its family (`Wnr.Dnet.netContains_iff_agree`). Up to
128 bits a longer prefix is more specific; from there on it is not, and a lookup prefers
it (`Wnr.Dnet.longer_prefix_iff`, `Wnr.Dnet.RouteTable.captured`).
-/

namespace Wnr.Dnet

open BitPrefix BestMatch

namespace Addr

/-- The address with another prefix length. -/
def withBits (self : Addr) (addrBits : UInt16) : Addr := { self with addrBits }

/-- The width of the family. -/
def width (self : Addr) : UInt16 := .ofNat (8 * self.addrLen)

theorem toNat_width (self : Addr) : self.width.toNat = 8 * self.addrLen := by
  have bound : self.addrLen ≤ 16 := self.addrLen_le
  exact UInt16.toNat_ofNat_of_lt' (show 8 * self.addrLen < 65536 by omega)

/-- A mask that is too long has no one bits. -/
theorem bitsToMask_of_long {bits : UInt16} (long : 128 < bits.toNat) :
    bitsToMask bits = Vector.replicate ip6AddrLen 0 := by
  have tooLong : bits.toNat > ip6AddrLen * 8 := long
  rw [bitsToMask, bitsToMaskLen, if_pos tooLong, Option.getD_none]

/-- So the network has no bytes left. -/
theorem network_data_of_long (self : Addr) (long : 128 < self.addrBits.toNat) :
    self.network.data = Vector.replicate ip6AddrLen 0 := by
  refine Vector.ext fun i inside => ?_
  rw [getElem_network, bitsToMask_of_long long, Vector.getElem_replicate, UInt8.and_zero]

end Addr

/-- Fewer bits agree when more do. -/
theorem agree_of_le {size few many : Nat} {a b : Vector UInt8 size} (le : few ≤ many)
    (agree : Agree many a b) : Agree few a b :=
  fun i early => agree i (lt_of_lt_of_le early le)

/-- **What a network contains**, for every prefix length. -/
theorem netContains_iff_agree {net addr : Addr} :
    netContains net addr = true ↔
      (net.addrType = addr.addrType ∧ net.addrType ≠ addrTypeNone) ∧
        (net.addrBits.toNat ≤ 128 → Agree net.addrBits.toNat net.data addr.data) := by
  unfold netContains
  by_cases known : net.addrType = addr.addrType ∧ net.addrType ≠ addrTypeNone
  · rw [if_neg (by rwa [not_or, not_not]), decide_eq_true_iff, and_iff_right known]
    by_cases short : net.addrBits.toNat ≤ 128
    · have same : net.addrBits = { addr with addrBits := net.addrBits }.addrBits := rfl
      rw [Addr.network_data_eq_iff same short, imp_iff_right short]
    · have long := Nat.not_le.mp short
      have same : net.network.data = { addr with addrBits := net.addrBits }.network.data :=
        (net.network_data_of_long long).trans
          (Addr.network_data_of_long { addr with addrBits := net.addrBits } long).symm
      exact iff_of_true same fun few => absurd few short
  · rw [if_pos (by rwa [not_and_or, not_not] at known)]
    exact iff_of_false Bool.false_ne_true fun contains => known contains.1

/-- A longer prefix is more specific, unless its mask does not exist and the shorter
one's does. -/
theorem netContains_withBits_iff {net addr : Addr} {k k' : UInt16}
    (family : net.addrType = addr.addrType) (le : k ≤ k') :
    (netContains (net.withBits k') addr = true → netContains (net.withBits k) addr = true) ↔
      k'.toNat ≤ 128 ∨ 128 < k.toNat ∨ addr.addrType = addrTypeNone ∨
        Agree k.toNat net.data addr.data := by
  have shorter : k.toNat ≤ k'.toNat := UInt16.le_iff_toNat_le.mp le
  rw [netContains_iff_agree, netContains_iff_agree]
  change (_ ∧ (k'.toNat ≤ 128 → Agree k'.toNat net.data addr.data) →
    _ ∧ (k.toNat ≤ 128 → Agree k.toNat net.data addr.data)) ↔ _
  constructor
  · intro monotone
    by_contra fails
    obtain ⟨long', short, known, differs⟩ := by simpa only [not_or, not_le, not_lt] using fails
    have contains := monotone ⟨⟨family, fun none => known (family.symm.trans none)⟩,
      fun few => absurd few (Nat.not_le.mpr long')⟩
    exact differs (contains.2 short)
  · rintro covered ⟨known, agree⟩
    refine ⟨known, fun short => ?_⟩
    rcases covered with short' | long | none | agrees
    · exact agree_of_le shorter (agree short')
    · exact absurd short (Nat.not_le.mpr long)
    · exact absurd (family.trans none) known.2
    · exact agrees

namespace RouteTable

variable {table : RouteTable} {dst : Addr} {entry best : RouteEntry}

/-- What a lookup returns contains the destination. -/
theorem netContains_of_get (found : table.get dst = some best) :
    netContains best.dst dst = true :=
  (mem_candidates.mp (isBest_of_maxByKey found).candidate).2

/-- **Captured.** Once a table has an entry with a prefix of more than 128 bits, every lookup
of its family is answered by such an entry. -/
theorem captured (member : entry ∈ table.entries) (long : 128 < entry.dst.addrBits.toNat)
    (family : entry.dst.addrType = dst.addrType) (known : entry.dst.addrType ≠ addrTypeNone) :
    ∃ best, table.get dst = some best ∧ 128 < best.dst.addrBits.toNat := by
  have contains : netContains entry.dst dst = true :=
    netContains_iff_agree.mpr ⟨⟨family, known⟩, fun few => absurd few (Nat.not_le.mpr long)⟩
  have candidate : entry ∈ table.candidates dst := mem_candidates.mpr ⟨member, contains⟩
  have some : (table.get dst).isSome := isSome_maxByKey_iff.mpr ⟨entry, candidate⟩
  obtain ⟨best, found⟩ := Option.isSome_iff_exists.mp some
  have greatest := (isBest_of_maxByKey found).greatest entry candidate
  exact ⟨best, found, lt_of_lt_of_le long greatest⟩

end RouteTable

/-- **Longer prefixes.** A network of a longer prefix contains no more than one of a shorter
prefix exactly when the longer one has at most 128 bits, the shorter one has more too, or the
address has the bits of the shorter one. So an entry with a prefix beyond the width of its
family answers for a destination of its full-width network exactly under that condition. -/
theorem longer_prefix_iff (addr : Addr) :
    (∀ (net : Addr) (k k' : UInt16), net.addrType = addr.addrType → k ≤ k' →
      ((netContains (net.withBits k') addr = true → netContains (net.withBits k) addr = true) ↔
        k'.toNat ≤ 128 ∨ 128 < k.toNat ∨ addr.addrType = addrTypeNone ∨
          Agree k.toNat net.data addr.data)) ∧
      ∀ (table : RouteTable) (best : RouteEntry), table.get addr = some best →
        best.dst.width < best.dst.addrBits →
          (netContains (best.dst.withBits best.dst.width) addr = true ↔
            best.dst.addrBits.toNat ≤ 128 ∨
              Agree best.dst.width.toNat best.dst.data addr.data) := by
  refine ⟨fun net k k' family le => netContains_withBits_iff family le, ?_⟩
  intro table best found long
  have contains := RouteTable.netContains_of_get found
  obtain ⟨family, known⟩ := (netContains_iff_agree.mp contains).1
  have wide : best.dst.width.toNat ≤ 128 := by
    have bound : best.dst.addrLen ≤ 16 := best.dst.addrLen_le
    rw [Addr.toNat_width]
    omega
  have monotone := netContains_withBits_iff family (UInt16.le_of_lt long)
  have same : best.dst.withBits best.dst.addrBits = best.dst := rfl
  rw [same, imp_iff_right contains, or_iff_right (Nat.not_lt.mpr wide),
    or_iff_right fun none => known (family.trans none)] at monotone
  exact monotone

/-- A route to one host, with a prefix that no mask has, beside a default route. -/
def tooLong : RouteTable :=
  (RouteTable.new.add ⟨(Addr.ipv4 ⟨0, 0, 0, 0⟩).withBits 0, .ipv4 ⟨192, 168, 1, 1⟩⟩).add
    ⟨(Addr.ipv4 ⟨10, 0, 0, 1⟩).withBits 129, .ipv4 ⟨10, 0, 0, 254⟩⟩

/-- The network of 129 bits contains an address that the host's own does not, and its route
answers for that address instead of the default route. -/
theorem longer_prefix_captures :
    (netContains ((Addr.ipv4 ⟨10, 0, 0, 1⟩).withBits 129) (.ipv4 ⟨8, 8, 8, 8⟩) = true ∧
        netContains ((Addr.ipv4 ⟨10, 0, 0, 1⟩).withBits 32) (.ipv4 ⟨8, 8, 8, 8⟩) = false) ∧
      (tooLong.get (.ipv4 ⟨8, 8, 8, 8⟩)).map RouteEntry.gw = some (.ipv4 ⟨10, 0, 0, 254⟩) := by
  decide +kernel

/-- A /24 and a /16 of one address, and the route that is too long. -/
theorem longer_prefix_sixteen :
    (netContains ((Addr.ipv4 ⟨10, 1, 2, 3⟩).withBits 24) (.ipv4 ⟨10, 1, 9, 9⟩) = true →
      netContains ((Addr.ipv4 ⟨10, 1, 2, 3⟩).withBits 16) (.ipv4 ⟨10, 1, 9, 9⟩) = true) ∧
    netContains ((Addr.ipv4 ⟨10, 0, 0, 1⟩).withBits 32) (.ipv4 ⟨10, 0, 0, 1⟩) = true := by
  have prefixes := (longer_prefix_iff (.ipv4 ⟨10, 1, 9, 9⟩)).1
  have tables := (longer_prefix_iff (.ipv4 ⟨10, 0, 0, 1⟩)).2
  refine ⟨(prefixes (.ipv4 ⟨10, 1, 2, 3⟩) 16 24 rfl (by decide)).mpr (.inl (by decide)), ?_⟩
  apply (tables tooLong ⟨(Addr.ipv4 ⟨10, 0, 0, 1⟩).withBits 129, .ipv4 ⟨10, 0, 0, 254⟩⟩
    (by decide +kernel) (by decide)).mpr
  right
  decide

end Wnr.Dnet
