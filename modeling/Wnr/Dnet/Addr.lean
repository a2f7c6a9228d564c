import Wnr.Foundation.BitPrefix
import Wnr.Foundation.SocketAddr

/-! # Network addresses

An address is a family, a number of significant bits and 16 bytes. Its network
has the bytes masked with that many leading bits
(`Wnr.Dnet.Addr.isMask_bitsToMask`).
-/

namespace Wnr.Dnet

open BitPrefix Text Net

abbrev addrTypeNone : UInt32 := 0
abbrev addrTypeIp : UInt32 := 2
abbrev addrTypeIp6 : UInt32 := 3
abbrev addrTypeHw : UInt32 := 4

abbrev ipAddrLen : Nat := 4
abbrev ip6AddrLen : Nat := 16
abbrev hwAddrLen : Nat := 6

/-- A polymorphic network address. -/
structure Addr where
  addrType : UInt32
  /-- Number of significant bits in the address. -/
  addrBits : UInt16
  /-- Raw address bytes, zero-padded to the maximum length. -/
  data : Vector UInt8 ip6AddrLen
deriving DecidableEq

instance : Inhabited Addr := ⟨⟨addrTypeNone, 0, Vector.replicate ip6AddrLen 0⟩⟩

namespace Addr

def ipv4 (ip : Ipv4Addr) : Addr where
  addrType := addrTypeIp
  addrBits := 32
  data := #v[ip.a, ip.b, ip.c, ip.d, 0, 0, 0, 0, 0, 0, 0, 0, 0, 0, 0, 0]

def ipv6 (ip : Ipv6Addr) : Addr where
  addrType := addrTypeIp6
  addrBits := 128
  data := ip

def hw (bytes : Vector UInt8 hwAddrLen) : Addr where
  addrType := addrTypeHw
  addrBits := 48
  data := (bytes ++ Vector.replicate (ip6AddrLen - hwAddrLen) (0 : UInt8)).cast rfl

def toIpv4 (self : Addr) : Option Ipv4Addr :=
  if self.addrType = addrTypeIp then
    some ⟨self.data[0], self.data[1], self.data[2], self.data[3]⟩
  else none

def toIpv6 (self : Addr) : Option Ipv6Addr :=
  if self.addrType = addrTypeIp6 then some self.data else none

def toHw (self : Addr) : Option (Vector UInt8 hwAddrLen) :=
  if self.addrType = addrTypeHw then some (self.data.take hwAddrLen) else none

@[simp] theorem ipv4_inj {left right : Ipv4Addr} : ipv4 left = ipv4 right ↔ left = right := by
  refine ⟨fun same => ?_, congrArg ipv4⟩
  have read : (ipv4 left).toIpv4 = (ipv4 right).toIpv4 := congrArg toIpv4 same
  exact Option.some.inj read

@[simp] theorem ipv6_inj {left right : Ipv6Addr} : ipv6 left = ipv6 right ↔ left = right :=
  ⟨congrArg data, congrArg ipv6⟩

/-- A hardware address keeps its six bytes. -/
@[simp] theorem hw_inj {left right : Vector UInt8 hwAddrLen} :
    hw left = hw right ↔ left = right := by
  refine ⟨fun same => ?_, congrArg hw⟩
  have kept : (hw left).data = (hw right).data := congrArg data same
  exact (Vector.append_left_inj (Vector.replicate (ip6AddrLen - hwAddrLen) (0 : UInt8))).mp kept

theorem ne_of_addrType {left right : Addr} (differ : left.addrType ≠ right.addrType) :
    left ≠ right :=
  mt (congrArg addrType) differ

@[simp] theorem ipv4_ne_ipv6 (left : Ipv4Addr) (right : Ipv6Addr) : ipv4 left ≠ ipv6 right := by
  apply ne_of_addrType
  change addrTypeIp ≠ addrTypeIp6
  decide

@[simp] theorem ipv4_ne_default (ip : Ipv4Addr) : ipv4 ip ≠ default := by
  apply ne_of_addrType
  change addrTypeIp ≠ addrTypeNone
  decide

@[simp] theorem ipv6_ne_default (ip : Ipv6Addr) : ipv6 ip ≠ default := by
  apply ne_of_addrType
  change addrTypeIp6 ≠ addrTypeNone
  decide

@[simp] theorem hw_ne_default (bytes : Vector UInt8 hwAddrLen) : hw bytes ≠ default := by
  apply ne_of_addrType
  change addrTypeHw ≠ addrTypeNone
  decide

/-- The number of bytes of an address of the family. -/
def addrLen (self : Addr) : Nat :=
  if self.addrType = addrTypeIp then ipAddrLen
  else if self.addrType = addrTypeIp6 then ip6AddrLen
  else if self.addrType = addrTypeHw then hwAddrLen
  else 0

theorem addrLen_le (self : Addr) : self.addrLen ≤ ip6AddrLen := by
  unfold addrLen
  split_ifs <;> decide

/-- The prefix is no longer than an address of the family. -/
def Fits (self : Addr) : Prop := self.addrBits.toNat ≤ 8 * self.addrLen

instance (self : Addr) : Decidable self.Fits := inferInstanceAs (Decidable (_ ≤ _))

theorem Fits.le {self : Addr} (fits : self.Fits) : self.addrBits.toNat ≤ 128 :=
  le_trans fits (Nat.mul_le_mul_left 8 self.addrLen_le)

/-- The difference of the first bytes that differ, `0` when there are none. -/
def cmpBytes : List (UInt8 × UInt8) → Int32
  | [] => 0
  | (a, b) :: rest => if a ≠ b then .ofInt ((a.toNat : Int) - b.toNat) else cmpBytes rest

/-- Compare two addresses: type, then bits, then bytes. -/
def addrCmp (self other : Addr) : Int32 :=
  if self.addrType ≠ other.addrType then
    -- an `i64` holds the difference, of which the cast keeps the low 32 bits
    .ofInt ((self.addrType.toNat : Int) - other.addrType.toNat)
  else if self.addrBits ≠ other.addrBits then
    .ofInt ((self.addrBits.toNat : Int) - other.addrBits.toNat)
  else cmpBytes (self.data.toList.zip other.data.toList)

/-- The mask of `size` bytes with `bits` leading one bits. -/
def bitsToMaskLen (bits : UInt16) (size : Nat) : Option (Vector UInt8 size) :=
  if bits.toNat > size * 8 then none
  else
    let full := bits.toNat / 8
    let rem := bits.toNat % 8
    let mask := (Vector.replicate size (0 : UInt8)).mapIdx fun i m => if i < full then 0xff else m
    if inside : rem > 0 ∧ full < size then
      some (mask.set full (0xff <<< UInt8.ofNat (8 - rem)) inside.2)
    else some mask

/-- The mask of 16 bytes; one that does not exist has no one bits. -/
def bitsToMask (bits : UInt16) : Vector UInt8 ip6AddrLen :=
  (bitsToMaskLen bits ip6AddrLen).getD (Vector.replicate ip6AddrLen 0)

/-- The network address: the host bits are cleared. -/
def network (self : Addr) : Addr :=
  { self with data := Vector.zipWith (· &&& ·) self.data (bitsToMask self.addrBits) }

/-- The directed broadcast address: the host bits are set. -/
def broadcast (self : Addr) : Addr :=
  { self with data := Vector.zipWith (· ||| ~~~·) self.data (bitsToMask self.addrBits) }

@[simp] theorem network_addrType (self : Addr) : self.network.addrType = self.addrType := rfl

@[simp] theorem network_addrBits (self : Addr) : self.network.addrBits = self.addrBits := rfl

@[simp] theorem broadcast_addrType (self : Addr) : self.broadcast.addrType = self.addrType := rfl

@[simp] theorem broadcast_addrBits (self : Addr) : self.broadcast.addrBits = self.addrBits := rfl

theorem getElem_network (self : Addr) (i : Nat) (inside : i < ip6AddrLen) :
    self.network.data[i] = self.data[i] &&& (bitsToMask self.addrBits)[i] :=
  Vector.getElem_zipWith inside

theorem getElem_broadcast (self : Addr) (i : Nat) (inside : i < ip6AddrLen) :
    self.broadcast.data[i] = self.data[i] ||| ~~~(bitsToMask self.addrBits)[i] :=
  Vector.getElem_zipWith inside

/-- Addresses of a family and a prefix length are equal when their bytes are. -/
theorem eq_of_getElem {a b : Addr} (family : a.addrType = b.addrType)
    (bits : a.addrBits = b.addrBits)
    (bytes : ∀ (i : Nat) (inside : i < ip6AddrLen), a.data[i] = b.data[i]) : a = b := by
  cases a
  cases b
  cases family
  cases bits
  congr 1
  exact Vector.ext bytes

theorem network_network (self : Addr) : self.network.network = self.network := by
  apply eq_of_getElem
  · rfl
  · rfl
  · intro i inside
    rw [getElem_network, getElem_network, network_addrBits, and_and_self]

theorem bit_ones {k : Nat} (small : k < 8) : bit 0xff k = true := by
  have all : ∀ k < 8, bit 0xff k = true := by decide
  exact all k small

theorem bit_zero (k : Nat) : bit 0 k = false := by
  rw [bit, UInt8.toBitVec_zero, BitVec.getMsbD_zero]

/-- The last byte of a mask that is not a whole byte. -/
theorem bit_partialByte {rem k : Nat} (positive : 0 < rem) (less : rem < 8) (small : k < 8) :
    bit (0xff <<< UInt8.ofNat (8 - rem)) k = decide (k < rem) := by
  have all : ∀ rem < 8, 0 < rem → ∀ k < 8,
      bit (0xff <<< UInt8.ofNat (8 - rem)) k = decide (k < rem) := by decide
  exact all rem less positive k small

theorem isMask_bitsToMaskLen {bits : UInt16} {size : Nat} (fits : bits.toNat ≤ 8 * size) :
    ∃ mask, bitsToMaskLen bits size = some mask ∧ IsMask bits.toNat mask := by
  have notMore : ¬ bits.toNat > size * 8 := by omega
  simp only [bitsToMaskLen, notMore, if_false]
  have whole (i : Nat) (inside : i / 8 < size) :
      bitAt ((Vector.replicate size (0 : UInt8)).mapIdx
        fun i m => if i < bits.toNat / 8 then 0xff else m) i = decide (i / 8 < bits.toNat / 8) := by
    rw [bitAt_eq inside, Vector.getElem_mapIdx, Vector.getElem_replicate]
    by_cases early : i / 8 < bits.toNat / 8
    · rw [if_pos early, bit_ones (Nat.mod_lt i (by decide)), decide_eq_true early]
    · rw [if_neg early, bit_zero, decide_eq_false early]
  split
  · rename_i inside
    refine ⟨_, rfl, ?_⟩
    intro i below
    have within : i / 8 < size := by omega
    by_cases here : bits.toNat / 8 = i / 8
    · rw [bitAt_eq within, Vector.getElem_set, if_pos here,
        bit_partialByte inside.1 (Nat.mod_lt _ (by decide)) (Nat.mod_lt i (by decide)),
        decide_eq_decide]
      omega
    · have unchanged := whole i within
      rw [bitAt_eq within] at unchanged
      rw [bitAt_eq within, Vector.getElem_set, if_neg here, unchanged, decide_eq_decide]
      omega
  · rename_i outside
    refine ⟨_, rfl, ?_⟩
    intro i below
    rw [whole i (by omega), decide_eq_decide]
    omega

/-- **The mask** has as many leading one bits as it is asked for. -/
theorem isMask_bitsToMask {bits : UInt16} (fits : bits.toNat ≤ 128) :
    IsMask bits.toNat (bitsToMask bits) := by
  obtain ⟨mask, made, isMask⟩ :
      ∃ mask, bitsToMaskLen bits ip6AddrLen = some mask ∧ IsMask bits.toNat mask :=
    isMask_bitsToMaskLen fits
  rw [bitsToMask, made]
  exact isMask

/-- Two addresses of a prefix length have the same network bytes when their
leading bits agree. -/
theorem network_data_eq_iff {a b : Addr} (same : a.addrBits = b.addrBits)
    (fits : a.addrBits.toNat ≤ 128) :
    a.network.data = b.network.data ↔ Agree a.addrBits.toNat a.data b.data := by
  rw [network, network, ← same]
  exact zipWith_and_eq_iff (isMask_bitsToMask fits) fits a.data b.data

end Addr

end Wnr.Dnet
