import Wnr.Dnet.AddrLaws
import Wnr.Dnet.AddrText
import Wnr.Foundation.Histories

/-! # The bytes after an address

An address of a family that does not fill the 16 bytes is built with zero bytes after it.
Finding its network keeps them zero, while finding its broadcast address sets them: they are
zero again only after the next network is found (`Wnr.Dnet.Addr.zeroPadded_iff`).
-/

namespace Wnr.Dnet

open BitPrefix History Net

/-- What is done to an address. -/
inductive AddrOp where
  | setBits (bits : UInt16)
  | network
  | broadcast
deriving DecidableEq

/-- The broadcast addresses that are found have a network found later. -/
def BroadcastsUndone : List AddrOp → Prop
  | [] => True
  | .broadcast :: rest => .network ∈ rest ∧ BroadcastsUndone rest
  | .setBits _ :: rest | .network :: rest => BroadcastsUndone rest

namespace Addr

def perform (self : Addr) : AddrOp → Addr
  | .setBits bits => { self with addrBits := bits }
  | .network => self.network
  | .broadcast => self.broadcast

/-- No more significant bits are set than the family has. -/
def Allows (self : Addr) : AddrOp → Prop
  | .setBits bits => { self with addrBits := bits }.Fits
  | .network | .broadcast => True

/-- The bytes after the address are zero. -/
def ZeroPadded (self : Addr) : Prop :=
  ∀ (i : Nat) (inside : i < ip6AddrLen), self.addrLen ≤ i → self.data[i] = 0

/-- The addresses that are built. -/
inductive Built (parseIpv6 : List Char → Option Ipv6Addr) : Addr → Prop
  | ipv4 (ip : Text.Ipv4Addr) : Built parseIpv6 (.ipv4 ip)
  | ipv6 (ip : Ipv6Addr) : Built parseIpv6 (.ipv6 ip)
  | hw (bytes : Vector UInt8 hwAddrLen) : Built parseIpv6 (.hw bytes)
  | fromStr {s : List Char} {addr : Addr} (read : fromStr parseIpv6 s = .ok addr) :
      Built parseIpv6 addr

variable {self : Addr} {op : AddrOp} {ops : List AddrOp}

@[simp] theorem perform_addrType : (self.perform op).addrType = self.addrType := by
  cases op <;> rfl

@[simp] theorem perform_addrLen : (self.perform op).addrLen = self.addrLen := by
  rw [addrLen, addrLen, perform_addrType]

/-- The prefix length stays within the family's width. -/
theorem Fits.perform (fits : self.Fits) (allowed : self.Allows op) : (self.perform op).Fits := by
  cases op with
  | setBits bits => exact allowed
  | network => exact fits
  | broadcast => exact fits

/-- A mask is zero after its prefix. -/
theorem bitsToMask_after {bits : UInt16} {i : Nat} (inside : i < ip6AddrLen)
    (after : bits.toNat ≤ 8 * i) : (bitsToMask bits)[i] = 0 := by
  refine eq_of_bit fun k small => ?_
  have sixteen : i < 16 := inside
  have place : (8 * i + k) / 8 = i := by omega
  have rest : (8 * i + k) % 8 = k := by omega
  have within : (8 * i + k) / 8 < ip6AddrLen := place.trans_lt inside
  have inMask : 8 * i + k < 8 * ip6AddrLen := by
    change 8 * i + k < 128
    omega
  have masked := isMask_bitsToMask (show bits.toNat ≤ 128 by omega) (8 * i + k) inMask
  rw [bitAt_eq within] at masked
  simp only [place, rest] at masked
  rw [masked, bit_zero]
  exact decide_eq_false (by omega)

/-- Finding the network clears the bytes after the address. -/
theorem zeroPadded_network (fits : self.Fits) : self.network.ZeroPadded := by
  intro i inside after
  change self.addrLen ≤ i at after
  unfold Fits at fits
  rw [getElem_network, bitsToMask_after inside (by omega), UInt8.and_zero]

/-- Finding the broadcast address sets them. -/
theorem not_zeroPadded_broadcast (fits : self.Fits) (short : self.addrLen < ip6AddrLen) :
    ¬ self.broadcast.ZeroPadded := by
  intro padded
  have zero := padded self.addrLen short (Nat.le_refl self.addrLen)
  rw [getElem_broadcast, bitsToMask_after short fits, UInt8.or_eq_zero_iff] at zero
  exact absurd zero.2 (by decide)

/-- **A run** leaves zero bytes after an address exactly when it ends the broadcast
addresses it finds and the bytes were zero before, or it finds a network. -/
theorem zeroPadded_run (fits : self.Fits) (short : self.addrLen < ip6AddrLen)
    (along : Along perform Allows ops self) :
    (ops.foldl perform self).ZeroPadded ↔
      BroadcastsUndone ops ∧ (self.ZeroPadded ∨ .network ∈ ops) := by
  induction ops generalizing self with
  | nil =>
      rw [List.foldl_nil, BroadcastsUndone, true_and]
      exact (or_iff_left List.not_mem_nil).symm
  | cons op rest ih =>
      have shorter : (self.perform op).addrLen < ip6AddrLen := perform_addrLen.trans_lt short
      rw [List.foldl_cons, ih (fits.perform along.1) shorter along.2]
      cases op with
      | setBits bits =>
          have same : (self.perform (.setBits bits)).ZeroPadded ↔ self.ZeroPadded := Iff.rfl
          have other : AddrOp.network ≠ .setBits bits := nofun
          rw [same, BroadcastsUndone, List.mem_cons, or_iff_right other]
      | network =>
          have padded : (self.perform .network).ZeroPadded := zeroPadded_network fits
          rw [BroadcastsUndone]
          exact and_congr_right fun _ => iff_of_true (.inl padded) (.inr List.mem_cons_self)
      | broadcast =>
          have unpadded : ¬ (self.perform .broadcast).ZeroPadded :=
            not_zeroPadded_broadcast fits short
          rw [BroadcastsUndone, List.mem_cons, or_iff_right unpadded]
          constructor
          · intro undone
            exact ⟨⟨undone.2, undone.1⟩, .inr (.inr undone.2)⟩
          · intro undone
            exact ⟨undone.1.2, undone.1.1⟩

/-- Only an IPv6 address fills the bytes. -/
theorem addrLen_eq_iff (self : Addr) : self.addrLen = ip6AddrLen ↔ self.addrType = addrTypeIp6 := by
  unfold addrLen
  split_ifs with isIp isIp6 isHw
  · rw [isIp]
    decide
  · exact iff_of_true rfl isIp6
  · rw [isHw]
    decide
  · exact iff_of_false nofun isIp6

/-- An address that fills the bytes leaves none after it. -/
theorem zeroPadded_of_full (full : self.addrLen = ip6AddrLen) : self.ZeroPadded := by
  intro i inside after
  rw [full] at after
  exact absurd inside (Nat.not_lt.mpr after)

theorem run_addrLen : (ops.foldl perform self).addrLen = self.addrLen := by
  induction ops generalizing self with
  | nil => rfl
  | cons op rest ih => rw [List.foldl_cons, ih, perform_addrLen]

/-! ## Addresses as they are built -/

theorem getElem_append_zeros {before after i : Nat} (bytes : Vector UInt8 before)
    (inside : i < before + after) (late : before ≤ i) :
    (bytes ++ Vector.replicate after (0 : UInt8))[i] = 0 := by
  rw [Vector.getElem_append_right inside late, Vector.getElem_replicate]

theorem zeroPadded_ipv4 (ip : Text.Ipv4Addr) : (Addr.ipv4 ip).ZeroPadded := by
  intro i inside after
  have octets : (Addr.ipv4 ip).data =
      #v[ip.a, ip.b, ip.c, ip.d] ++ Vector.replicate (ip6AddrLen - ipAddrLen) (0 : UInt8) := rfl
  exact (congrArg (·[i]) octets).trans (getElem_append_zeros _ inside after)

theorem zeroPadded_hw (bytes : Vector UInt8 hwAddrLen) : (Addr.hw bytes).ZeroPadded := by
  intro i inside after
  have octets : (Addr.hw bytes).data =
      bytes ++ Vector.replicate (ip6AddrLen - hwAddrLen) (0 : UInt8) := rfl
  exact (congrArg (·[i]) octets).trans (getElem_append_zeros _ inside after)

/-- An address is built with zero bytes after it. -/
theorem Built.zeroPadded {parseIpv6 : List Char → Option Ipv6Addr} (built : Built parseIpv6 self) :
    self.ZeroPadded := by
  have full (ip : Ipv6Addr) : (Addr.ipv6 ip).ZeroPadded := zeroPadded_of_full rfl
  cases built with
  | ipv4 ip => exact zeroPadded_ipv4 ip
  | ipv6 ip => exact full ip
  | hw bytes => exact zeroPadded_hw bytes
  | fromStr read =>
      rcases fromStr_cases read with ⟨ip, isIpv4⟩ | ⟨ip, isIpv6⟩ | ⟨bytes, isHw⟩
      · exact isIpv4 ▸ zeroPadded_ipv4 ip
      · exact isIpv6 ▸ full ip
      · exact isHw ▸ zeroPadded_hw bytes

/-- An address is built with as many significant bits as its family has. -/
theorem Built.fits {parseIpv6 : List Char → Option Ipv6Addr} (built : Built parseIpv6 self) :
    self.Fits := by
  have v4 (ip : Text.Ipv4Addr) : (Addr.ipv4 ip).Fits := Nat.le_refl 32
  have v6 (ip : Ipv6Addr) : (Addr.ipv6 ip).Fits := Nat.le_refl 128
  have hardware (bytes : Vector UInt8 hwAddrLen) : (Addr.hw bytes).Fits := Nat.le_refl 48
  cases built with
  | ipv4 ip => exact v4 ip
  | ipv6 ip => exact v6 ip
  | hw bytes => exact hardware bytes
  | fromStr read =>
      rcases fromStr_cases read with ⟨ip, isIpv4⟩ | ⟨ip, isIpv6⟩ | ⟨bytes, isHw⟩
      · exact isIpv4 ▸ v4 ip
      · exact isIpv6 ▸ v6 ip
      · exact isHw ▸ hardware bytes

/-- A broadcast address of IPv4 is none that is built and given the prefix length. -/
theorem broadcast_ne_ipv4 (ip directed : Text.Ipv4Addr) {bits : UInt16} (fits : bits.toNat ≤ 32) :
    ({ Addr.ipv4 ip with addrBits := bits } : Addr).broadcast ≠
      { Addr.ipv4 directed with addrBits := bits } := by
  intro same
  have within : ({ Addr.ipv4 ip with addrBits := bits } : Addr).Fits := fits
  have padded : ({ Addr.ipv4 directed with addrBits := bits } : Addr).ZeroPadded :=
    zeroPadded_ipv4 directed
  rw [← same] at padded
  exact not_zeroPadded_broadcast within (show 4 < 16 by decide) padded

/-- **Zero padding.** What is made of a built address has zero bytes after it exactly when
the address fills the bytes or a network is found after each broadcast address; and the
broadcast address of an IPv4 prefix is never equal to an address that is built, neither by
`==` nor by `addrCmp`. -/
theorem zeroPadded_iff (parseIpv6 : List Char → Option Ipv6Addr) :
    (∀ built : Addr, Built parseIpv6 built → ∀ ops, Along perform Allows ops built →
      ((ops.foldl perform built).ZeroPadded ↔
        built.addrType = addrTypeIp6 ∨ BroadcastsUndone ops)) ∧
    ∀ (ip directed : Text.Ipv4Addr) (bits : UInt16), bits.toNat ≤ 32 →
      ({ Addr.ipv4 ip with addrBits := bits } : Addr).broadcast ≠
          { Addr.ipv4 directed with addrBits := bits } ∧
        addrCmp ({ Addr.ipv4 ip with addrBits := bits } : Addr).broadcast
          { Addr.ipv4 directed with addrBits := bits } ≠ 0 := by
  constructor
  · intro addr built ops along
    by_cases full : addr.addrLen = ip6AddrLen
    · have isIpv6 := (addrLen_eq_iff addr).mp full
      exact iff_of_true (zeroPadded_of_full (run_addrLen.trans full)) (.inl isIpv6)
    · have short : addr.addrLen < ip6AddrLen := Nat.lt_of_le_of_ne (addrLen_le addr) full
      have notIpv6 : addr.addrType ≠ addrTypeIp6 := mt (addrLen_eq_iff addr).mpr full
      rw [zeroPadded_run built.fits short along, or_iff_right notIpv6]
      exact and_iff_left (.inl built.zeroPadded)
  · intro ip directed bits fits
    refine ⟨broadcast_ne_ipv4 ip directed fits, fun equal => ?_⟩
    exact broadcast_ne_ipv4 ip directed fits (eq_of_addrCmp_eq_zero rfl rfl equal)

/-- The broadcast address of 192.168.1.5/24 keeps one bits after its four bytes. -/
theorem broadcast_unpadded :
    ¬ ∀ parseIpv6 : List Char → Option Ipv6Addr, ∀ built : Addr, Built parseIpv6 built →
      ∀ ops, Along perform Allows ops built → (ops.foldl perform built).ZeroPadded := by
  intro always
  have padded := always (fun _ => none) (.ipv4 ⟨192, 168, 1, 5⟩) (.ipv4 ⟨192, 168, 1, 5⟩)
    [.setBits 24, .broadcast] ⟨show 24 ≤ 32 by decide, trivial, trivial⟩
  let host : Addr := { Addr.ipv4 ⟨192, 168, 1, 5⟩ with addrBits := 24 }
  have unpadded : ¬ host.broadcast.ZeroPadded :=
    not_zeroPadded_broadcast (show 24 ≤ 32 by decide) (show 4 < 16 by decide)
  exact unpadded padded

end Addr

end Wnr.Dnet
