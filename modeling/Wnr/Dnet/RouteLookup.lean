import Wnr.Dnet.Route

/-! # Longest-prefix match

A lookup compares masked bytes. The entries it chooses from are those of the family
that agree with the destination on as many leading bits as their prefix is long
(`Wnr.Dnet.RouteTable.mem_candidates_iff`), and it returns one with the longest
prefix (`Wnr.Dnet.RouteTable.longest_prefix_match`).
-/

namespace Wnr.Dnet

open BitPrefix BestMatch

/-- The network and the address are of one family and agree on the prefix. -/
structure Matches (net addr : Addr) : Prop where
  family : net.addrType = addr.addrType
  agree : Agree net.addrBits.toNat net.data addr.data

namespace Addr

/-- An IPv4 or an IPv6 address. -/
def IsIp (self : Addr) : Prop := self.addrType = addrTypeIp ∨ self.addrType = addrTypeIp6

instance (self : Addr) : Decidable self.IsIp := inferInstanceAs (Decidable (_ ∨ _))

theorem IsIp.ne_none {self : Addr} (isIp : self.IsIp) : self.addrType ≠ addrTypeNone := by
  rcases isIp with same | same <;> rw [same] <;> decide

end Addr

/-- The masked bytes are compared, so the leading bits are. -/
theorem netContains_iff {net addr : Addr} (isIp : addr.IsIp) (fits : net.Fits) :
    netContains net addr = true ↔ Matches net addr := by
  unfold netContains
  by_cases family : net.addrType = addr.addrType
  · have known : net.addrType ≠ addrTypeNone := family ▸ isIp.ne_none
    have compared : net.network.data = { addr with addrBits := net.addrBits }.network.data ↔
        Agree net.addrBits.toNat net.data addr.data :=
      Addr.network_data_eq_iff rfl fits.le
    rw [if_neg (not_or.mpr ⟨not_not.mpr family, known⟩), decide_eq_true_iff, compared]
    exact ⟨fun agree => ⟨family, agree⟩, Matches.agree⟩
  · rw [if_pos (.inl family)]
    exact ⟨fun no => absurd no Bool.false_ne_true, fun found => absurd found.family family⟩

namespace RouteTable

variable {self : RouteTable} {dst : Addr} {entry : RouteEntry}

theorem mem_candidates_iff (isIp : dst.IsIp) (fits : ∀ entry ∈ self.entries, entry.dst.Fits) :
    entry ∈ self.candidates dst ↔ entry ∈ self.entries ∧ Matches entry.dst dst := by
  rw [mem_candidates]
  exact and_congr_right fun member => netContains_iff isIp (fits entry member)

/-- Storing keeps family and prefix length. -/
theorem fits_of_stored {op : RouteOp} (valid : ∀ entry ∈ op.entry, entry.dst.Fits)
    (stored : op.stored = some entry) : entry.dst.Fits := by
  cases op with
  | add added =>
      cases stored
      exact valid _ rfl
  | addDev added =>
      have called : added.dst.Fits := valid added rfl
      cases stored
      exact called
  | delete dst => cases stored

/-- **Longest-prefix match.** In every table that operations with valid prefix lengths
reach, a lookup finds an entry when one matches, and one with the longest prefix then. -/
theorem longest_prefix_match (ops : List RouteOp)
    (valid : ∀ op ∈ ops, ∀ entry ∈ op.entry, entry.dst.IsIp ∧ entry.dst.Fits)
    (dst : Addr) (isIp : dst.IsIp) :
    (((run ops).get dst).isSome ↔ ∃ entry ∈ (run ops).entries, Matches entry.dst dst) ∧
      ∀ best, (run ops).get dst = some best →
        IsBest {entry | entry ∈ (run ops).entries ∧ Matches entry.dst dst}
          (·.dst.addrBits.toNat) best := by
  have fits : ∀ entry ∈ (run ops).entries, entry.dst.Fits := by
    intro entry member
    obtain ⟨op, known, stored⟩ := stored_of_mem_run member
    exact fits_of_stored (fun entry called => (valid op known entry called).2) stored
  have matching (entry : RouteEntry) : entry ∈ (run ops).candidates dst ↔
      entry ∈ (run ops).entries ∧ Matches entry.dst dst :=
    mem_candidates_iff isIp fits
  constructor
  · rw [get, isSome_maxByKey_iff]
    exact exists_congr matching
  · intro best found
    have isBest := isBest_of_maxByKey found
    exact (Set.ext matching : {entry | entry ∈ (run ops).candidates dst} = _) ▸ isBest

/-- A default route, a network and a part of it. -/
def nestedRoutes : List RouteOp :=
  [.add ⟨{ Addr.ipv4 ⟨0, 0, 0, 0⟩ with addrBits := 0 }, .ipv4 ⟨192, 168, 1, 1⟩⟩,
    .add ⟨{ Addr.ipv4 ⟨10, 0, 0, 0⟩ with addrBits := 8 }, .ipv4 ⟨10, 0, 0, 1⟩⟩,
    .addDev ⟨{ Addr.ipv4 ⟨10, 1, 255, 0⟩ with addrBits := 17 }, .ipv4 ⟨10, 1, 0, 1⟩⟩]

theorem longest_prefix_match_nested :
    (((run nestedRoutes).get (.ipv4 ⟨10, 1, 128, 3⟩)).isSome ↔
        ∃ entry ∈ (run nestedRoutes).entries, Matches entry.dst (.ipv4 ⟨10, 1, 128, 3⟩)) ∧
      ∀ best, (run nestedRoutes).get (.ipv4 ⟨10, 1, 128, 3⟩) = some best →
        IsBest {entry | entry ∈ (run nestedRoutes).entries ∧
          Matches entry.dst (.ipv4 ⟨10, 1, 128, 3⟩)} (·.dst.addrBits.toNat) best :=
  longest_prefix_match nestedRoutes (by decide) _ (by decide)

end RouteTable

end Wnr.Dnet
