import Wnr.Dnet.Route

/-! # One route for a network

Two entries describe one network when their destinations differ in host bits only.
A table keeps its networks apart exactly along those histories in which a network is
always written with the same host bits (`Wnr.Dnet.RouteTable.networks_unique_iff`);
destinations without host bits are (`Wnr.Dnet.RouteTable.along_of_normalised`).
-/

namespace Wnr.Dnet

open KeyedRows History BestMatch

namespace RouteTable

/-- No two entries describe the same network. -/
def UniqueNetworks (self : RouteTable) : Prop := Distinct (·.dst.network) self.entries

/-- What is stored has the destination of the entries that describe its network. -/
def OneSpelling (self : RouteTable) (op : RouteOp) : Prop :=
  ∀ entry ∈ op.stored, ∀ other ∈ self.entries,
    other.dst.network = entry.dst.network → other.dst = entry.dst

instance (self : RouteTable) : Decidable self.UniqueNetworks :=
  inferInstanceAs (Decidable (Distinct _ _))

instance (self : RouteTable) (op : RouteOp) : Decidable (self.OneSpelling op) :=
  inferInstanceAs (Decidable (∀ entry ∈ op.stored, _))

/-- The networks are the keys of every table that a history goes through: no two entries
describe the same one, and an addition leaves for its network what it stores. -/
structure NetworkKeyed (ops : List RouteOp) : Prop where
  unique : ∀ reached, reached <+: ops → (run reached).UniqueNetworks
  replaced : ∀ earlier op entry, earlier ++ [op] <+: ops → op.stored = some entry →
    (run (earlier ++ [op])).entries.filter (·.dst.network = entry.dst.network) = [entry]

/-- Additions, of one gateway for each network. -/
structure SameGateways (adds : List RouteOp) : Prop where
  additions : ∀ op ∈ adds, op.stored.isSome
  gateway : ∀ a ∈ adds.filterMap RouteOp.stored, ∀ b ∈ adds.filterMap RouteOp.stored,
    a.dst.network = b.dst.network → a.gw = b.gw

variable {self : RouteTable} {op : RouteOp} {entry : RouteEntry} {ops : List RouteOp}

/-! ## One step -/

/-- **An operation** that spells a network as before keeps the networks apart. -/
theorem UniqueNetworks.perform (unique : self.UniqueNetworks) (spelled : self.OneSpelling op) :
    (self.perform op).UniqueNetworks := by
  cases stores : op.stored with
  | some entry =>
      rw [perform_of_stored stores]
      exact Distinct.upsert_coarser (withGateway_eq entry) unique (spelled entry stores)
  | none =>
      cases op with
      | add added => cases stores
      | addDev added => cases stores
      | delete dst => exact Distinct.erase unique dst

/-- An operation that spells a network in another way leaves it with two entries. -/
theorem oneSpelling_of_unique (unique : (self.perform op).UniqueNetworks) :
    self.OneSpelling op := by
  intro entry stores other member same
  rw [perform_of_stored stores] at unique
  by_contra differs
  have kept : other ∈ (self.add entry).entries := mem_add.mpr (.inr ⟨member, differs⟩)
  have put : entry ∈ (self.add entry).entries := mem_add.mpr (.inl rfl)
  exact differs (congrArg RouteEntry.dst (Distinct.eq unique kept put same))

/-! ## Runs -/

theorem networkKeyed_iff (ops : List RouteOp) :
    NetworkKeyed ops ↔ Along perform OneSpelling ops new := by
  constructor
  · intro keyed
    apply along_of_forall
    intro earlier op first
    have unique := keyed.unique _ first
    rw [run_concat] at unique
    exact oneSpelling_of_unique unique
  · intro along
    have unique : ∀ reached, reached <+: ops → (run reached).UniqueNetworks := by
      intro reached first
      apply History.invariant (along.of_prefix first)
      · exact Distinct.nil _
      · intro self op before spelled
        exact before.perform spelled
    refine ⟨unique, fun earlier op entry first stores => ?_⟩
    have put : entry ∈ (run (earlier ++ [op])).entries := by
      rw [run_concat, perform_of_stored stores]
      exact mem_add.mpr (.inl rfl)
    exact Distinct.filter_eq (unique _ first) put

namespace SameGateways

variable {adds adds' : List RouteOp} {a b : RouteEntry}

/-- Entries that are added for one destination are one entry. -/
theorem eq_of_dst (gateways : SameGateways adds) (here : a ∈ adds.filterMap RouteOp.stored)
    (there : b ∈ adds.filterMap RouteOp.stored) (same : a.dst = b.dst) : a = b := by
  have gateway := gateways.gateway a here b there (congrArg Addr.network same)
  cases a
  cases b
  cases same
  cases gateway
  rfl

theorem subset (gateways : SameGateways adds') (fewer : adds ⊆ adds') : SameGateways adds := by
  have stored := List.filterMap_subset RouteOp.stored fewer
  refine ⟨fun op member => gateways.additions op (fewer member), ?_⟩
  intro a here b there
  exact gateways.gateway a (stored here) b (stored there)

end SameGateways

/-- What a table holds after additions of one gateway for each network. -/
theorem mem_additions {adds : List RouteOp} (gateways : SameGateways adds) :
    entry ∈ (adds.foldl perform self).entries ↔
      entry ∈ adds.filterMap RouteOp.stored ∨
        entry ∈ self.entries ∧ ∀ put ∈ adds.filterMap RouteOp.stored, entry.dst ≠ put.dst := by
  induction adds using List.reverseRecOn with
  | nil =>
      rw [List.filterMap_nil]
      exact ⟨fun old => .inr ⟨old, List.forall_mem_nil _⟩,
        fun either => either.elim (fun none => nomatch none) And.left⟩
  | append_singleton adds op ih =>
      obtain ⟨put, stores⟩ := Option.isSome_iff_exists.mp
        (gateways.additions op (List.mem_append_right adds (List.mem_singleton_self op)))
      have all : (adds ++ [op]).filterMap RouteOp.stored =
          adds.filterMap RouteOp.stored ++ [put] := by
        rw [List.filterMap_append, List.filterMap_cons_some stores, List.filterMap_nil]
      -- An earlier addition with the destination of the last one is the last one.
      have again : entry ∈ adds.filterMap RouteOp.stored → entry.dst = put.dst → entry = put := by
        intro member
        apply gateways.eq_of_dst
        · exact all ▸ List.mem_append_left [put] member
        · exact all ▸ List.mem_append_right _ (List.mem_singleton_self put)
      rw [List.foldl_concat, perform_of_stored stores, mem_add,
        ih (gateways.subset (List.subset_append_left adds [op])), all]
      simp only [List.mem_append, List.mem_singleton]
      constructor
      · intro held
        rcases held with rfl | ⟨added | ⟨old, others⟩, differs⟩
        · exact .inl (.inr rfl)
        · exact .inl (.inl added)
        · refine .inr ⟨old, fun other member => ?_⟩
          rcases member with earlier | rfl
          · exact others other earlier
          · exact differs
      · intro held
        rcases held with (added | rfl) | ⟨old, others⟩
        · by_cases equal : entry.dst = put.dst
          · exact .inl (again added equal)
          · exact .inr ⟨.inl added, equal⟩
        · exact .inl rfl
        · exact .inr ⟨.inr ⟨old, fun other member => others other (.inl member)⟩,
            others put (.inr rfl)⟩

/-- Entries of one prefix length that contain an address describe one network. -/
theorem network_eq_of_netContains {a b : Addr} {dst : Addr} (bits : a.addrBits = b.addrBits)
    (here : netContains a dst = true) (there : netContains b dst = true) :
    a.network = b.network := by
  rw [netContains] at here there
  split at here
  · cases here
  split at there
  · cases there
  rename_i known known'
  have family := (not_not.mp (not_or.mp known).1).trans (not_not.mp (not_or.mp known').1).symm
  have data := of_decide_eq_true here
  rw [bits] at data
  have same := data.trans (of_decide_eq_true there).symm
  rw [Addr.mk.injEq]
  exact ⟨family, bits, same⟩

/-- Tables with the same entries, no two of one network, answer alike. -/
theorem get_congr {other : RouteTable} (unique : self.UniqueNetworks)
    (same : ∀ entry, entry ∈ self.entries ↔ entry ∈ other.entries) (dst : Addr) :
    self.get dst = other.get dst := by
  apply maxByKey_congr
  · intro entry
    rw [mem_candidates, mem_candidates, same]
  · intro a here b there bits
    obtain ⟨here, containsA⟩ := mem_candidates.mp here
    obtain ⟨there, containsB⟩ := mem_candidates.mp there
    exact Distinct.eq unique here there
      (network_eq_of_netContains (UInt16.toNat_inj.mp bits) containsA containsB)

/-- **The order of additions** does not matter. -/
theorem get_of_perm {adds adds' : List RouteOp} (gateways : SameGateways adds)
    (perm : adds.Perm adds') (unique : (adds.foldl perform self).UniqueNetworks) (dst : Addr) :
    (adds.foldl perform self).get dst = (adds'.foldl perform self).get dst := by
  apply get_congr unique
  intro entry
  simp only [mem_additions gateways, mem_additions (gateways.subset perm.symm.subset),
    (perm.filterMap RouteOp.stored).mem_iff]

/-- **Networks as keys.** A table keeps them exactly along the histories that spell each
network in one way, and there the order of additions of the same routes is free. -/
theorem networks_unique_iff (ops : List RouteOp) :
    (NetworkKeyed ops ↔ Along perform OneSpelling ops new) ∧
      ∀ earlier adds adds', ops = earlier ++ adds → SameGateways adds → adds.Perm adds' →
        Along perform OneSpelling ops new →
          ∀ dst, (run (earlier ++ adds)).get dst = (run (earlier ++ adds')).get dst := by
  refine ⟨networkKeyed_iff ops, ?_⟩
  intro earlier adds adds' whole gateways perm along dst
  subst whole
  have unique := ((networkKeyed_iff _).mpr along).unique _ List.prefix_rfl
  rw [run, List.foldl_append] at unique
  rw [run, run, List.foldl_append, List.foldl_append]
  exact get_of_perm gateways perm unique dst

/-- Destinations that are given to `add` without host bits are spelled in one way. -/
theorem along_of_normalised
    (normalised : ∀ entry, .add entry ∈ ops → entry.dst.network = entry.dst) :
    Along perform OneSpelling ops new := by
  have stored : ∀ op ∈ ops, ∀ entry ∈ op.stored, entry.dst.network = entry.dst := by
    intro op member entry stores
    cases op with
    | add added =>
        cases stores
        exact normalised _ member
    | addDev added =>
        cases stores
        exact added.dst.network_network
    | delete dst => cases stores
  apply along_of_forall
  intro earlier op first entry stores other member same
  obtain ⟨op', known, stores'⟩ := stored_of_mem_run member
  have before : op' ∈ ops := first.subset (List.mem_append_left [op] known)
  have here : op ∈ ops :=
    first.subset (List.mem_append_right earlier (List.mem_singleton_self op))
  rw [stored op' before other stores', stored op here entry stores] at same
  exact same

/-- A network as it is written, by an address of it. -/
def tenNet (ip : Text.Ipv4Addr) : Addr := { Addr.ipv4 ip with addrBits := 8 }

/-- Routes of two networks, one of them for a device. -/
def twoNetworks : List RouteOp :=
  [.add ⟨tenNet ⟨10, 0, 0, 0⟩, .ipv4 ⟨192, 168, 0, 1⟩⟩,
    .addDev ⟨tenNet ⟨11, 0, 0, 7⟩, .ipv4 ⟨192, 168, 0, 2⟩⟩]

theorem networks_unique_two :
    (NetworkKeyed twoNetworks ↔ Along perform OneSpelling twoNetworks new) ∧
      ∀ dst, (run twoNetworks).get dst = (run twoNetworks.reverse).get dst := by
  have along : Along perform OneSpelling twoNetworks new := by decide +kernel
  have gateways : SameGateways twoNetworks := ⟨by decide, by decide +kernel⟩
  obtain ⟨keyed, free⟩ := networks_unique_iff twoNetworks
  exact ⟨keyed, free [] twoNetworks twoNetworks.reverse rfl gateways
    (List.reverse_perm twoNetworks).symm along⟩

/-- One network, written with three gateways and two host parts. -/
def respelled : List RouteOp :=
  [.add ⟨tenNet ⟨10, 0, 0, 2⟩, .ipv4 ⟨192, 168, 0, 1⟩⟩,
    .add ⟨tenNet ⟨10, 0, 0, 1⟩, .ipv4 ⟨192, 168, 0, 2⟩⟩,
    .add ⟨tenNet ⟨10, 0, 0, 2⟩, .ipv4 ⟨192, 168, 0, 3⟩⟩]

/-- The table has two entries for the network, and the last gateway is not the answer. -/
theorem network_entered_twice :
    ¬ NetworkKeyed respelled ∧
      ((run respelled).get (.ipv4 ⟨10, 9, 9, 9⟩)).map RouteEntry.gw =
        some (.ipv4 ⟨192, 168, 0, 2⟩) := by
  refine ⟨fun keyed => ?_, by decide +kernel⟩
  have unique := keyed.unique _ List.prefix_rfl
  revert unique
  decide +kernel

end RouteTable

end Wnr.Dnet
