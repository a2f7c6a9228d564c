import Wnr.Dnet.RouteNetworks

/-! # Deleting a device route

A device route is stored with its network and deleted by its destination as it is given.
The deletion undoes the addition exactly when the destination has no host bits and the
table holds no other spelling of the network (`Wnr.Dnet.RouteTable.forgotten_iff`).
-/

namespace Wnr.Dnet

open KeyedRows BestMatch

/-- The addresses have one family, one prefix length and the same network bytes. -/
def SameNetwork (a b : Addr) : Prop :=
  a.addrType = b.addrType ∧ a.addrBits = b.addrBits ∧ a.network.data = b.network.data

instance (a b : Addr) : Decidable (SameNetwork a b) := inferInstanceAs (Decidable (_ ∧ _))

theorem sameNetwork_iff {a b : Addr} : SameNetwork a b ↔ a.network = b.network := by
  rw [Addr.mk.injEq]
  rfl

namespace RouteTable

/-- A table without the network of an address, and otherwise as it was before. -/
structure Forgotten (before after : RouteTable) (dst : Addr) : Prop where
  none : ∀ entry ∈ after.entries, ¬ SameNetwork entry.dst dst
  others : after.entries.filter (¬ SameNetwork ·.dst dst) =
    before.entries.filter (¬ SameNetwork ·.dst dst)
  routes : ∀ query best, after.get query = some best → ¬ SameNetwork best.dst dst

variable {self : RouteTable} {entry other : RouteEntry}

/-- Neither the addition nor the deletion touches another network. -/
theorem filter_delete_addDev (self : RouteTable) (entry : RouteEntry) :
    ((self.addDev entry).delete entry.dst).entries.filter (¬ SameNetwork ·.dst entry.dst) =
      self.entries.filter (¬ SameNetwork ·.dst entry.dst) := by
  have deleted (row : RouteEntry) (apart : ¬ SameNetwork row.dst entry.dst) :
      row.dst ≠ entry.dst := by
    intro same
    exact apart (sameNetwork_iff.mpr (congrArg Addr.network same))
  have added (row : RouteEntry) (apart : ¬ SameNetwork row.dst entry.dst) :
      row.dst ≠ entry.dst.network := by
    intro same
    rw [sameNetwork_iff, same, Addr.network_network] at apart
    exact apart rfl
  calc ((self.addDev entry).delete entry.dst).entries.filter (¬ SameNetwork ·.dst entry.dst)
      = (self.addDev entry).entries.filter (¬ SameNetwork ·.dst entry.dst) := filter_erase deleted
    _ = self.entries.filter (¬ SameNetwork ·.dst entry.dst) :=
        filter_upsert (withGateway_eq { entry with dst := entry.dst.network }) added

/-- What is left of the network after the deletion. -/
theorem mem_delete_addDev : other ∈ ((self.addDev entry).delete entry.dst).entries ↔
    (other = { entry with dst := entry.dst.network } ∨
      other ∈ self.entries ∧ other.dst ≠ entry.dst.network) ∧ other.dst ≠ entry.dst := by
  rw [mem_delete, addDev, mem_add]

/-- **Deleting a device route.** Adding a route for a device and deleting its destination
forgets the network exactly when the destination has no host bits and no entry of the table
gives the network with host bits. -/
theorem forgotten_iff (self : RouteTable) (entry : RouteEntry) :
    Forgotten self ((self.addDev entry).delete entry.dst) entry.dst ↔
      entry.dst.network = entry.dst ∧
        ∀ other ∈ self.entries, SameNetwork other.dst entry.dst → other.dst = entry.dst := by
  constructor
  · intro forgotten
    have normal : entry.dst.network = entry.dst := by
      by_contra hostBits
      apply forgotten.none { entry with dst := entry.dst.network }
      · exact mem_delete_addDev.mpr ⟨.inl rfl, hostBits⟩
      · exact sameNetwork_iff.mpr entry.dst.network_network
    refine ⟨normal, fun other member same => ?_⟩
    by_contra spelled
    apply forgotten.none other
    · refine mem_delete_addDev.mpr ⟨.inr ⟨member, ?_⟩, spelled⟩
      rwa [normal]
    · exact same
  · rintro ⟨normal, spelled⟩
    have none : ∀ other ∈ ((self.addDev entry).delete entry.dst).entries,
        ¬ SameNetwork other.dst entry.dst := by
      intro other member same
      obtain ⟨rfl | ⟨old, -⟩, differs⟩ := mem_delete_addDev.mp member
      · exact differs normal
      · exact differs (spelled other old same)
    refine ⟨none, filter_delete_addDev self entry, fun query best found => ?_⟩
    have candidate := (isBest_of_maxByKey found).candidate
    exact none best (mem_candidates.mp candidate).1

/-- A device route whose destination has host bits stays, and still answers. -/
theorem delete_keeps_device_route :
    ¬ Forgotten new ((new.addDev ⟨tenNet ⟨10, 0, 0, 5⟩, .ipv4 ⟨10, 0, 0, 1⟩⟩).delete
        (tenNet ⟨10, 0, 0, 5⟩)) (tenNet ⟨10, 0, 0, 5⟩) ∧
      (((new.addDev ⟨tenNet ⟨10, 0, 0, 5⟩, .ipv4 ⟨10, 0, 0, 1⟩⟩).delete
        (tenNet ⟨10, 0, 0, 5⟩)).get (.ipv4 ⟨10, 9, 9, 9⟩)).map RouteEntry.gw =
          some (.ipv4 ⟨10, 0, 0, 1⟩) := by
  refine ⟨fun forgotten => ?_, by decide +kernel⟩
  have none := forgotten.none
  revert none
  decide +kernel

end RouteTable

end Wnr.Dnet
