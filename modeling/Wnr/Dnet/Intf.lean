import Wnr.Dnet.Addr
import Wnr.Foundation.Bytes

/-! # Interface enumeration

The records of `getifaddrs` and the entries that are made of them, one for each
record. A record carries the kernel's flags and at most one address, an entry
libdnet's flags and a list of addresses. The flag word is kept as it is, so that an
entry's flags are read from other bits than the kernel's
(`Wnr.Dnet.unixEntry_isLoopback`). The octets of an IPv4 address are stored in
network order and are read as a number of the host (`Wnr.Dnet.unixInet_little`,
`Wnr.Dnet.unixInet_big`).
-/

namespace Wnr.Dnet

open Text Bytes Net

abbrev intfFlagUp : UInt16 := 0x01
abbrev intfFlagLoopback : UInt16 := 0x02
abbrev intfFlagPointopoint : UInt16 := 0x04
abbrev intfFlagNoarp : UInt16 := 0x08
abbrev intfFlagBroadcast : UInt16 := 0x10
abbrev intfFlagMulticast : UInt16 := 0x20

abbrev intfTypeEth : UInt16 := 6
abbrev intfTypePpp : UInt16 := 23
abbrev intfTypeLoopback : UInt16 := 24

/-- A single interface entry. -/
structure IntfEntry where
  name : List Char := []
  /-- Interface type (MIB-II). -/
  intfType : UInt16 := 0
  flags : UInt16 := 0
  mtu : UInt32 := 0
  /-- Primary interface address. -/
  addr : Addr := default
  /-- Point-to-point destination address. -/
  dstAddr : Addr := default
  /-- Link-layer (hardware) address. -/
  linkAddr : Addr := default
  /-- Additional addresses. -/
  aliasAddrs : List Addr := []
deriving DecidableEq

namespace IntfEntry

/-- The interface is administratively up. -/
def isUp (self : IntfEntry) : Bool := self.flags &&& intfFlagUp != 0

def isLoopback (self : IntfEntry) : Bool := self.flags &&& intfFlagLoopback != 0

def isPointToPoint (self : IntfEntry) : Bool := self.flags &&& intfFlagPointopoint != 0

def linkAddrSlice (self : IntfEntry) : Option (Vector UInt8 hwAddrLen) := self.linkAddr.toHw

end IntfEntry

/-! ## What `getifaddrs` returns -/

/-- The systems on which interfaces are enumerated with `getifaddrs`; `bsd` is
FreeBSD, NetBSD, OpenBSD and DragonFly. -/
inductive TargetOs where
  | linux
  | macos
  | bsd
deriving DecidableEq, Repr

/-- The machine that enumerates its interfaces. -/
structure Host where
  os : TargetOs
  order : ByteOrder
deriving DecidableEq

/-- The fields of `sockaddr_ll` that are read. -/
structure SockaddrLl where
  sllHalen : UInt8
  sllAddr : Vector UInt8 8
deriving DecidableEq

/-- A `sockaddr_dl`: eight bytes, of which two are the lengths of the name and of
the address that follow. -/
structure SockaddrDl where
  bytes : List UInt8
  header : 8 ≤ bytes.length
  inside : 8 + (bytes[5].toNat + bytes[6].toNat) ≤ bytes.length
deriving DecidableEq

namespace SockaddrDl

def sdlNlen (self : SockaddrDl) : UInt8 :=
  have := self.header
  self.bytes[5]

def sdlAlen (self : SockaddrDl) : UInt8 :=
  have := self.header
  self.bytes[6]

/-- The six bytes from an offset on. -/
def sixAt (self : SockaddrDl) (offset : Nat) : Vector UInt8 hwAddrLen :=
  Vector.ofFn fun i => self.bytes.getD (offset + i) 0

end SockaddrDl

/-- A socket address by its family. The octets of IP addresses are as they are
stored, in network order. -/
inductive Sockaddr where
  | inet (sinAddr : Ipv4Addr)
  | inet6 (sin6Addr : Ipv6Addr)
  /-- `AF_PACKET`, on Linux. -/
  | packet (sll : SockaddrLl)
  /-- `AF_LINK`, elsewhere. -/
  | link (sdl : SockaddrDl)
  | other
deriving DecidableEq

/-- A record of `getifaddrs`; no name and no address are null pointers. -/
structure Ifaddrs where
  ifaName : Option (List Char)
  ifaFlags : UInt32
  ifaAddr : Option Sockaddr
deriving DecidableEq

/-! ## Reading the records -/

/-- The number that a host reads where octets are stored. -/
def sAddr (order : ByteOrder) (octets : Ipv4Addr) : UInt32 :=
  order.readU32 [octets.a, octets.b, octets.c, octets.d]

/-- `Ipv4Addr::from(u32)`: the most significant byte is the first octet. -/
def ipv4OfU32 (ip : UInt32) : Ipv4Addr where
  a := (ip >>> 24).toUInt8
  b := (ip >>> 16).toUInt8
  c := (ip >>> 8).toUInt8
  d := ip.toUInt8

/-- The IPv4 address that is made of stored octets. -/
def unixInet (order : ByteOrder) (octets : Ipv4Addr) : Ipv4Addr :=
  let ip := order.readU32 (order.u32 (sAddr order octets))
  ipv4OfU32 ip

/-- The address that is made of a socket address. -/
def unixAddr (order : ByteOrder) : Sockaddr → Addr
  | .inet sinAddr => .ipv4 (unixInet order sinAddr)
  | .inet6 sin6Addr => .ipv6 sin6Addr
  | .packet _ | .link _ | .other => default

/-- The hardware address that is made of a socket address, if one is. -/
def unixMac : TargetOs → Sockaddr → Option Addr
  | .linux, .packet sll =>
      if sll.sllHalen = 6 then some (.hw (sll.sllAddr.take 6)) else none
  | .macos, .link sdl =>
      -- the offset is that of the name, less the eight bytes before it
      if sdl.sdlAlen = 6 then some (.hw (sdl.sixAt sdl.sdlNlen.toNat)) else none
  | _, _ => none

namespace Ifaddrs

/-- The name of the interface, empty where the record has none. -/
def name (self : Ifaddrs) : List Char := self.ifaName.getD []

end Ifaddrs

/-- The entry of a record. -/
def unixEntry (host : Host) (ifa : Ifaddrs) : IntfEntry :=
  let entry : IntfEntry := { name := ifa.name, flags := ifa.ifaFlags.toUInt16 }
  match ifa.ifaAddr with
  | none => entry
  | some sockaddr =>
      let addr := unixAddr host.order sockaddr
      let entry := if addr.addrType ≠ addrTypeNone then { entry with addr := addr } else entry
      match unixMac host.os sockaddr with
      | some mac => { entry with linkAddr := mac }
      | none => entry

/-- The entries of what `getifaddrs` returns; `none` is an error. -/
def unixInterfaces (host : Host) : Option (List Ifaddrs) → List IntfEntry
  | none => []
  | some records => records.map (unixEntry host)

def interfaceList (host : Host) (getifaddrs : Option (List Ifaddrs)) : List IntfEntry :=
  unixInterfaces host getifaddrs

/-- The first entry with a name. -/
def interfaceByName (host : Host) (getifaddrs : Option (List Ifaddrs)) (name : List Char) :
    Option IntfEntry :=
  (interfaceList host getifaddrs).find? (·.name = name)

/-! ## Fields of an entry -/

variable (host : Host) (ifa : Ifaddrs)

/-- An address without a type is the one that an entry starts with. -/
theorem unixAddr_eq_default {order : ByteOrder} {sockaddr : Sockaddr}
    (none : (unixAddr order sockaddr).addrType = addrTypeNone) :
    unixAddr order sockaddr = default := by
  cases sockaddr with
  | inet octets => exact absurd none (by change addrTypeIp ≠ addrTypeNone; decide)
  | inet6 octets => exact absurd none (by change addrTypeIp6 ≠ addrTypeNone; decide)
  | packet sll => rfl
  | link sdl => rfl
  | other => rfl

/-- The name, the flags and the addresses of a record are all that its entry has. -/
theorem unixEntry_eq : unixEntry host ifa =
    { name := ifa.name
      flags := ifa.ifaFlags.toUInt16
      addr := (ifa.ifaAddr.map (unixAddr host.order)).getD default
      linkAddr := (ifa.ifaAddr.bind (unixMac host.os)).getD default } := by
  obtain ⟨ifaName, ifaFlags, ifaAddr⟩ := ifa
  cases ifaAddr with
  | none => rfl
  | some sockaddr =>
      simp only [unixEntry, Option.map_some, Option.getD_some, Option.bind_some]
      split_ifs with typed
      · cases mac : unixMac host.os sockaddr <;> rfl
      · rw [unixAddr_eq_default (not_not.mp typed)]
        cases mac : unixMac host.os sockaddr <;> rfl

@[simp] theorem unixEntry_name : (unixEntry host ifa).name = ifa.name := by
  rw [unixEntry_eq]

@[simp] theorem unixEntry_flags : (unixEntry host ifa).flags = ifa.ifaFlags.toUInt16 := by
  rw [unixEntry_eq]

@[simp] theorem unixEntry_addr :
    (unixEntry host ifa).addr = (ifa.ifaAddr.map (unixAddr host.order)).getD default := by
  rw [unixEntry_eq]

@[simp] theorem unixEntry_linkAddr :
    (unixEntry host ifa).linkAddr = (ifa.ifaAddr.bind (unixMac host.os)).getD default := by
  rw [unixEntry_eq]

@[simp] theorem unixEntry_aliasAddrs : (unixEntry host ifa).aliasAddrs = [] := by
  rw [unixEntry_eq]

/-! ## The kernel's flags -/

/-- The kernel's flags, the same on all systems that have `getifaddrs`. -/
abbrev iffBroadcast : UInt32 := 0x2
abbrev iffDebug : UInt32 := 0x4
abbrev iffLoopback : UInt32 := 0x8
abbrev iffPointopoint : UInt32 := 0x10

namespace Ifaddrs

def Has (self : Ifaddrs) (flag : UInt32) : Prop := self.ifaFlags &&& flag ≠ 0

instance (self : Ifaddrs) (flag : UInt32) : Decidable (self.Has flag) :=
  inferInstanceAs (Decidable (_ ≠ _))

/-- libdnet's bits of the flag word say what the kernel's say. -/
structure SameBits (ifa : Ifaddrs) : Prop where
  loopback : ifa.Has iffBroadcast ↔ ifa.Has iffLoopback
  pointopoint : ifa.Has iffDebug ↔ ifa.Has iffPointopoint

end Ifaddrs

/-- The low half of a flag word has the flags that fit into it. -/
theorem toUInt16_and_eq_zero_iff (flags : UInt32) (flag : UInt16) :
    flags.toUInt16 &&& flag = 0 ↔ flags &&& flag.toUInt32 = 0 := by
  have fits : flag.toNat % 2 ^ 16 = flag.toNat := Nat.mod_eq_of_lt flag.toNat_lt
  have small : flags.toNat &&& flag.toNat < 2 ^ 16 :=
    Nat.lt_of_le_of_lt Nat.and_le_right flag.toNat_lt
  have low : flags.toNat % 2 ^ 16 &&& flag.toNat = flags.toNat &&& flag.toNat := by
    rw [← Nat.mod_eq_of_lt small, Nat.and_mod_two_pow, fits]
  rw [← UInt16.toNat_inj, ← UInt32.toNat_inj, UInt16.toNat_and, UInt32.toNat_and,
    UInt32.toNat_toUInt16, UInt16.toNat_toUInt32, low]
  rfl

/-- The loopback flag of an entry is the kernel's broadcast flag. -/
theorem unixEntry_isLoopback : (unixEntry host ifa).isLoopback ↔ ifa.Has iffBroadcast := by
  rw [IntfEntry.isLoopback, bne_iff_ne, unixEntry_flags]
  exact not_congr (toUInt16_and_eq_zero_iff ifa.ifaFlags intfFlagLoopback)

/-- The point-to-point flag of an entry is the kernel's debug flag. -/
theorem unixEntry_isPointToPoint : (unixEntry host ifa).isPointToPoint ↔ ifa.Has iffDebug := by
  rw [IntfEntry.isPointToPoint, bne_iff_ne, unixEntry_flags]
  exact not_congr (toUInt16_and_eq_zero_iff ifa.ifaFlags intfFlagPointopoint)

/-! ## The order of the octets -/

/-- The octets from the last to the first. -/
def reversed (octets : Ipv4Addr) : Ipv4Addr := ⟨octets.d, octets.c, octets.b, octets.a⟩

@[simp] theorem reversed_reversed (octets : Ipv4Addr) : reversed (reversed octets) = octets := rfl

/-- The first octet of a number is its last byte in memory, least significant first. -/
theorem ipv4OfU32_u32FromLe (a b c d : UInt8) : ipv4OfU32 (u32FromLe [a, b, c, d]) = ⟨d, c, b, a⟩ := by
  have := a.toNat_lt
  have := b.toNat_lt
  have := c.toNat_lt
  have := d.toNat_lt
  have value : (u32FromLe [a, b, c, d]).toNat =
      a.toNat + 256 * (b.toNat + 256 * (c.toNat + 256 * d.toNat)) := by
    rw [u32FromLe, UInt32.toNat_ofNat_of_lt']
    · rfl
    · simp only [fromLe, UInt32.size]
      omega
  have octet (shift : UInt32) : ((u32FromLe [a, b, c, d]) >>> shift).toUInt8.toNat =
      (u32FromLe [a, b, c, d]).toNat / 2 ^ (shift.toNat % 32) % 256 := by
    rw [UInt32.toNat_toUInt8, UInt32.toNat_shiftRight, Nat.shiftRight_eq_div_pow]
  rw [ipv4OfU32, Ipv4Addr.mk.injEq]
  refine ⟨?_, ?_, ?_, ?_⟩ <;> apply UInt8.toNat_inj.mp
  · rw [octet, value]
    change _ / 2 ^ 24 % 256 = _
    omega
  · rw [octet, value]
    change _ / 2 ^ 16 % 256 = _
    omega
  · rw [octet, value]
    change _ / 2 ^ 8 % 256 = _
    omega
  · rw [UInt32.toNat_toUInt8, value]
    omega

/-- **A little-endian host** reads the octets backwards. -/
theorem unixInet_little (octets : Ipv4Addr) : unixInet .little octets = reversed octets := by
  rw [unixInet, ByteOrder.readU32_u32]
  exact ipv4OfU32_u32FromLe octets.a octets.b octets.c octets.d

/-- A big-endian host reads them in order. -/
theorem unixInet_big (octets : Ipv4Addr) : unixInet .big octets = octets := by
  rw [unixInet, ByteOrder.readU32_u32]
  exact ipv4OfU32_u32FromLe octets.d octets.c octets.b octets.a

/-! ## What the records say -/

namespace Sockaddr

/-- The IP address that a socket address stores. -/
def ip : Sockaddr → Option Addr
  | .inet sinAddr => some (.ipv4 sinAddr)
  | .inet6 sin6Addr => some (.ipv6 sin6Addr)
  | .packet _ | .link _ | .other => none

theorem addrType_ip {sockaddr : Sockaddr} {addr : Addr} (stored : sockaddr.ip = some addr) :
    addr.addrType ≠ addrTypeNone := by
  cases sockaddr with
  | inet octets => cases stored; change addrTypeIp ≠ addrTypeNone; decide
  | inet6 octets => cases stored; change addrTypeIp6 ≠ addrTypeNone; decide
  | packet sll => cases stored
  | link sdl => cases stored
  | other => cases stored

/-- A host reads the IP address as it is stored: an IPv4 address on a big-endian
host, or one whose octets are the same backwards. -/
def InOrder (order : ByteOrder) : Sockaddr → Prop
  | .inet sinAddr => order = .big ∨ reversed sinAddr = sinAddr
  | .inet6 _ | .packet _ | .link _ | .other => True

instance (order : ByteOrder) : (sockaddr : Sockaddr) → Decidable (sockaddr.InOrder order)
  | .inet sinAddr => inferInstanceAs (Decidable (order = .big ∨ reversed sinAddr = sinAddr))
  | .inet6 _ | .packet _ | .link _ | .other => .isTrue trivial

theorem unixAddr_eq_ip_iff {order : ByteOrder} {sockaddr : Sockaddr} :
    unixAddr order sockaddr = sockaddr.ip.getD default ↔ sockaddr.InOrder order := by
  cases sockaddr with
  | inet octets =>
      rw [unixAddr, ip, Option.getD_some, Addr.ipv4_inj, InOrder]
      cases order with
      | little => simp only [unixInet_little, reduceCtorEq, false_or]
      | big => simp only [unixInet_big, true_or]
  | inet6 octets => exact iff_of_true rfl trivial
  | packet sll => exact iff_of_true rfl trivial
  | link sdl => exact iff_of_true rfl trivial
  | other => exact iff_of_true rfl trivial

end Sockaddr

namespace Ifaddrs

/-- The IP address of a record. -/
def ip (self : Ifaddrs) : Option Addr := self.ifaAddr.bind Sockaddr.ip

theorem ip_eq_ipv4_iff {record : Ifaddrs} {octets : Ipv4Addr} :
    record.ip = some (.ipv4 octets) ↔ record.ifaAddr = some (.inet octets) := by
  refine ⟨fun stored => ?_, fun stored => by rw [ip, stored]; rfl⟩
  obtain ⟨sockaddr, isAddr, own⟩ := Option.bind_eq_some_iff.mp stored
  cases sockaddr with
  | inet sinAddr =>
      rw [isAddr, Addr.ipv4_inj.mp (Option.some.inj own)]
  | inet6 sin6Addr => exact absurd (Option.some.inj own).symm (Addr.ipv4_ne_ipv6 _ _)
  | packet sll => cases own
  | link sdl => cases own
  | other => cases own

/-- A host reads the address of the record as it is stored. -/
def InOrder (self : Ifaddrs) (order : ByteOrder) : Prop :=
  ∀ sockaddr ∈ self.ifaAddr, sockaddr.InOrder order

theorem addr_unixEntry_iff {host : Host} {record : Ifaddrs} :
    (unixEntry host record).addr = record.ip.getD default ↔ record.InOrder host.order := by
  obtain ⟨ifaName, ifaFlags, ifaAddr⟩ := record
  rw [unixEntry_addr, InOrder, ip]
  cases ifaAddr with
  | none => exact iff_of_true rfl fun sockaddr absent => nomatch absent
  | some sockaddr =>
      simp only [Option.map_some, Option.getD_some, Option.bind_some, Option.mem_def,
        Option.some.injEq, forall_eq']
      exact Sockaddr.unixAddr_eq_ip_iff

end Ifaddrs

end Wnr.Dnet
