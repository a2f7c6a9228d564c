import Wnr.Dnet.Addr

/-! # Networks, broadcast addresses and their order

Clearing and setting host bits undo each other, and an address lies between its
network and its directed broadcast address. Addresses of one prefix length have the
same network exactly when they agree on its bits
(`Wnr.Dnet.Addr.network_broadcast_laws`).
-/

namespace Wnr.Dnet

open BitPrefix

namespace Addr

variable {a b : Addr}

/-! ## Clearing and setting host bits -/

theorem network_broadcast (self : Addr) : self.broadcast.network = self.network := by
  apply eq_of_getElem
  · rfl
  · rfl
  · intro i inside
    rw [getElem_network, getElem_broadcast, getElem_network, broadcast_addrBits, or_not_and]

theorem broadcast_network (self : Addr) : self.network.broadcast = self.broadcast := by
  apply eq_of_getElem
  · rfl
  · rfl
  · intro i inside
    rw [getElem_broadcast, getElem_network, getElem_broadcast, network_addrBits, and_or_not]

/-- A network and its broadcast address determine each other. -/
theorem broadcast_eq_iff : a.broadcast = b.broadcast ↔ a.network = b.network := by
  constructor
  · intro same
    rw [← network_broadcast a, same, network_broadcast]
  · intro same
    rw [← broadcast_network a, same, broadcast_network]

/-- **One network.** Addresses of a family and a prefix length have the same network
exactly when they agree on its bits. -/
theorem network_eq_iff (family : a.addrType = b.addrType) (bits : a.addrBits = b.addrBits)
    (fits : a.addrBits.toNat ≤ 128) :
    a.network = b.network ↔ Agree a.addrBits.toNat a.data b.data := by
  rw [← network_data_eq_iff bits fits]
  constructor
  · exact congrArg data
  · intro same
    refine eq_of_getElem family bits fun i inside => ?_
    rw [same]

/-! ## The order -/

/-- The difference of two bytes is an `i32`. -/
theorem toInt_byteDifference (a b : UInt8) :
    (Int32.ofInt ((a.toNat : Int) - b.toNat)).toInt = (a.toNat : Int) - b.toNat := by
  have aBound := a.toNat_lt
  have bBound := b.toNat_lt
  apply Int32.toInt_ofInt_of_le
  · omega
  · omega

/-- Bytes that are nowhere larger do not come later. -/
theorem cmpBytes_nonpos {pairs : List (UInt8 × UInt8)} (below : ∀ pair ∈ pairs, pair.1 ≤ pair.2) :
    cmpBytes pairs ≤ 0 := by
  induction pairs with
  | nil => exact Int32.le_refl 0
  | cons pair rest ih =>
      rw [cmpBytes]
      split
      · have first := UInt8.le_iff_toNat_le.mp (below pair List.mem_cons_self)
        rw [Int32.le_iff_toInt_le, toInt_byteDifference, Int32.toInt_zero]
        omega
      · exact ih fun other member => below other (List.mem_cons_of_mem pair member)

/-- Bytes that are nowhere smaller do not come earlier. -/
theorem cmpBytes_nonneg {pairs : List (UInt8 × UInt8)} (above : ∀ pair ∈ pairs, pair.2 ≤ pair.1) :
    0 ≤ cmpBytes pairs := by
  induction pairs with
  | nil => exact Int32.le_refl 0
  | cons pair rest ih =>
      rw [cmpBytes]
      split
      · have first := UInt8.le_iff_toNat_le.mp (above pair List.mem_cons_self)
        rw [Int32.le_iff_toInt_le, toInt_byteDifference, Int32.toInt_zero]
        omega
      · exact ih fun other member => above other (List.mem_cons_of_mem pair member)

theorem cmpBytes_eq_zero_iff {pairs : List (UInt8 × UInt8)} :
    cmpBytes pairs = 0 ↔ ∀ pair ∈ pairs, pair.1 = pair.2 := by
  induction pairs with
  | nil => exact iff_of_true rfl fun pair member => absurd member List.not_mem_nil
  | cons pair rest ih =>
      rw [cmpBytes, List.forall_mem_cons]
      split
      · rename_i differ
        refine iff_of_false ?_ fun equal => differ equal.1
        rw [← Int32.toInt_inj, toInt_byteDifference, Int32.toInt_zero]
        intro same
        exact differ (UInt8.toNat_inj.mp (by omega))
      · rename_i same
        rw [ih, and_iff_right (not_not.mp same)]

/-- Addresses of a family and a prefix length are compared by their bytes. -/
theorem addrCmp_eq_cmpBytes (family : a.addrType = b.addrType) (bits : a.addrBits = b.addrBits) :
    addrCmp a b = cmpBytes (a.data.toList.zip b.data.toList) := by
  rw [addrCmp, if_neg (not_not_intro family), if_neg (not_not_intro bits)]

/-- What holds of the bytes at every place holds of the pairs of bytes. -/
theorem forall_mem_zip (holds : UInt8 → UInt8 → Prop)
    (bytes : ∀ (i : Nat) (inside : i < ip6AddrLen), holds a.data[i] b.data[i]) :
    ∀ pair ∈ a.data.toList.zip b.data.toList, holds pair.1 pair.2 := by
  intro pair member
  obtain ⟨i, inside, at_i⟩ := List.mem_iff_getElem.mp member
  rw [List.length_zip, Vector.length_toList, Vector.length_toList, Nat.min_self] at inside
  rw [← at_i, List.getElem_zip, Vector.getElem_toList, Vector.getElem_toList]
  exact bytes i inside

/-- Addresses of a family and a prefix length compare as equal only when they are. -/
theorem eq_of_addrCmp_eq_zero (family : a.addrType = b.addrType) (bits : a.addrBits = b.addrBits)
    (equal : addrCmp a b = 0) : a = b := by
  rw [addrCmp_eq_cmpBytes family bits, cmpBytes_eq_zero_iff] at equal
  refine eq_of_getElem family bits fun i inside => ?_
  refine equal (a.data[i], b.data[i]) (List.mem_iff_getElem.mpr ⟨i, ?_, ?_⟩)
  · rw [List.length_zip, Vector.length_toList, Vector.length_toList, Nat.min_self]
    exact inside
  · rw [List.getElem_zip, Vector.getElem_toList, Vector.getElem_toList]

/-- A network is not after its addresses. -/
theorem addrCmp_network_le (self : Addr) : addrCmp self.network self ≤ 0 := by
  rw [addrCmp_eq_cmpBytes (network_addrType self) (network_addrBits self)]
  refine cmpBytes_nonpos (forall_mem_zip (· ≤ ·) fun i inside => ?_)
  rw [getElem_network]
  exact and_le _ _

/-- A broadcast address is not before the addresses of its network. -/
theorem le_addrCmp_broadcast (self : Addr) : 0 ≤ addrCmp self.broadcast self := by
  rw [addrCmp_eq_cmpBytes (broadcast_addrType self) (broadcast_addrBits self)]
  refine cmpBytes_nonneg (forall_mem_zip (fun x y => y ≤ x) fun i inside => ?_)
  rw [getElem_broadcast]
  exact le_or _ _

/-- **Networks and broadcast addresses.** Of addresses of one family and one prefix length
within the family's width: finding the network again changes nothing, the network and the
broadcast address are those of each other, the address lies between them, and networks, like
broadcast addresses, are shared exactly with the addresses that agree on the prefix. -/
theorem network_broadcast_laws (a b : Addr) (family : a.addrType = b.addrType)
    (bits : a.addrBits = b.addrBits) (fits : a.Fits) :
    a.network.network = a.network ∧
    a.broadcast.network = a.network ∧ a.network.broadcast = a.broadcast ∧
    (addrCmp a.network a ≤ 0 ∧ 0 ≤ addrCmp a.broadcast a) ∧
    (a.network = b.network ↔ Agree a.addrBits.toNat a.data b.data) ∧
    (a.network = b.network ↔ a.broadcast = b.broadcast) := by
  refine ⟨network_network a, network_broadcast a, broadcast_network a, ?_, ?_, ?_⟩
  · exact ⟨addrCmp_network_le a, le_addrCmp_broadcast a⟩
  · exact network_eq_iff family bits fits.le
  · exact broadcast_eq_iff.symm

/-- Two hosts of a prefix that ends inside a byte. -/
theorem network_broadcast_laws_twelve :
    ({ ipv4 ⟨10, 17, 0, 1⟩ with addrBits := 12 } : Addr).network =
      ({ ipv4 ⟨10, 30, 2, 3⟩ with addrBits := 12 } : Addr).network := by
  obtain ⟨-, -, -, -, agree, -⟩ :=
    network_broadcast_laws { ipv4 ⟨10, 17, 0, 1⟩ with addrBits := 12 }
      { ipv4 ⟨10, 30, 2, 3⟩ with addrBits := 12 } rfl rfl (by decide)
  rw [agree]
  decide

end Addr

end Wnr.Dnet
