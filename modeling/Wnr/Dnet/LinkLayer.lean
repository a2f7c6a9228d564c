import Wnr.Dnet.Eth
import Wnr.Foundation.Buffers

/-! # Link-layer headers

An Ethernet header has 14 bytes, an ARP message for Ethernet and IPv4 a header of 8 and a
body of 20. What is encoded at the front of a buffer is read back from it, and what is
read is encoded again to the same bytes (`Wnr.Dnet.link_layer_round_trips`).
-/

namespace Wnr.Dnet

open Bytes Buffers Text

abbrev ethHdrLen : Nat := 14
abbrev arpHdrLen : Nat := 8
abbrev arpEthipLen : Nat := 20

abbrev arpHrdEth : UInt16 := 0x0001
abbrev arpProIp : UInt16 := 0x0800
abbrev arpOpRequest : UInt16 := 1

/-! ## Ethernet -/

/-- A parsed Ethernet header. -/
structure EthHdr where
  dst : EthAddr
  src : EthAddr
  proto : UInt16
deriving DecidableEq

namespace EthHdr

/-- The header in the first bytes of a frame. -/
def ofBytes (buf : List UInt8) (long : ¬ buf.length < 14) : EthHdr where
  dst := ⟨arrayAt buf 0 6 (by omega)⟩
  src := ⟨arrayAt buf 6 6 (by omega)⟩
  proto := u16FromBe [buf[12], buf[13]]

/-- Parse an Ethernet header from the first bytes of a frame. -/
def parse (buf : List UInt8) : Option EthHdr :=
  if short : buf.length < ethHdrLen then none else some (ofBytes buf short)

/-- Serialize the header to the front of a buffer. -/
def encode (self : EthHdr) (buf : List UInt8) : Option (List UInt8) := do
  let buf ← write 0 self.dst.data.toList buf
  let buf ← write 6 self.src.data.toList buf
  write 12 (toBe 2 self.proto.toNat) buf

end EthHdr

/-! ## ARP -/

/-- Base ARP header. -/
structure ArpHdr where
  /-- Hardware format. -/
  hrd : UInt16
  /-- Protocol format. -/
  pro : UInt16
  /-- Hardware address length. -/
  hln : UInt8
  /-- Protocol address length. -/
  pln : UInt8
  /-- Operation. -/
  op : UInt16
deriving DecidableEq

namespace ArpHdr

/-- The header in the first bytes of a message. -/
def ofBytes (buf : List UInt8) (long : ¬ buf.length < 8) : ArpHdr where
  hrd := u16FromBe [buf[0], buf[1]]
  pro := u16FromBe [buf[2], buf[3]]
  hln := buf[4]
  pln := buf[5]
  op := u16FromBe [buf[6], buf[7]]

/-- Parse from the first bytes, in network byte order. -/
def parse (buf : List UInt8) : Option ArpHdr :=
  if short : buf.length < arpHdrLen then none else some (ofBytes buf short)

def encode (self : ArpHdr) (buf : List UInt8) : Option (List UInt8) := do
  let buf ← write 0 (toBe 2 self.hrd.toNat) buf
  let buf ← write 2 (toBe 2 self.pro.toNat) buf
  let buf ← write 4 [self.hln] buf
  let buf ← write 5 [self.pln] buf
  write 6 (toBe 2 self.op.toNat) buf

end ArpHdr

/-- Ethernet/IP ARP message body. -/
structure ArpEthIp where
  sha : EthAddr
  spa : Addr
  tha : EthAddr
  tpa : Addr
deriving DecidableEq

namespace ArpEthIp

/-- The body in the bytes that follow the header. -/
def ofBytes (buf : List UInt8) (long : ¬ buf.length < 20) : ArpEthIp where
  sha := ⟨arrayAt buf 0 6 (by omega)⟩
  spa := .ipv4 ⟨buf[6], buf[7], buf[8], buf[9]⟩
  tha := ⟨arrayAt buf 10 6 (by omega)⟩
  tpa := .ipv4 ⟨buf[16], buf[17], buf[18], buf[19]⟩

/-- Parse the body that follows the ARP header for Ethernet/IP. -/
def parse (buf : List UInt8) : Option ArpEthIp :=
  if short : buf.length < arpEthipLen then none else some (ofBytes buf short)

/-- The octets that are sent for an address: those of 0.0.0.0 when it is no IPv4 address. -/
def ipOctets (addr : Addr) : List UInt8 :=
  let ip := addr.toIpv4.getD ⟨0, 0, 0, 0⟩
  [ip.a, ip.b, ip.c, ip.d]

def encode (self : ArpEthIp) (buf : List UInt8) : Option (List UInt8) := do
  let buf ← write 0 self.sha.data.toList buf
  let buf ← write 6 (ipOctets self.spa) buf
  let buf ← write 10 self.tha.data.toList buf
  write 16 (ipOctets self.tpa) buf

end ArpEthIp

/-- Full Ethernet/IP ARP message: header and body. -/
structure ArpMsg where
  hdr : ArpHdr
  body : ArpEthIp
deriving DecidableEq

namespace ArpMsg

/-- Build an Address Resolution request. -/
def request (spa tpa : Addr) (sha : EthAddr) : ArpMsg where
  hdr := ⟨arpHrdEth, arpProIp, .ofNat hwAddrLen, .ofNat ipAddrLen, arpOpRequest⟩
  body := ⟨sha, spa, ⟨Vector.replicate ethAddrLen 0⟩, tpa⟩

/-- Serialize into a buffer: the header and the body into its two parts. -/
def encode (self : ArpMsg) (buf : List UInt8) : Option (List UInt8) :=
  if buf.length < arpHdrLen then none
  else do
    let hdr ← self.hdr.encode (buf.take arpHdrLen)
    let body ← self.body.encode (buf.drop arpHdrLen)
    return hdr ++ body

/-- The message whose header is parsed at 0 and whose body is parsed at 8. -/
def parse (buf : List UInt8) : Option ArpMsg := do
  let hdr ← ArpHdr.parse buf
  let body ← ArpEthIp.parse (buf.drop arpHdrLen)
  return ⟨hdr, body⟩

end ArpMsg

/-! ## The layouts -/

namespace EthHdr

def layout (self : EthHdr) : List UInt8 :=
  self.dst.data.toList ++ (self.src.data.toList ++ toBe 2 self.proto.toNat)

theorem isLayout : IsLayout ethHdrLen (fun _ => True) layout parse encode where
  length self := by
    rw [layout, List.length_append, List.length_append, Vector.length_toList, Vector.length_toList,
      length_toBe]
    rfl
  writes self buf := by
    have dst : 0 + self.dst.data.toList.length = 6 := by
      rw [Vector.length_toList]
      rfl
    have src : 0 + (self.dst.data.toList ++ self.src.data.toList).length = 12 := by
      rw [List.length_append, Vector.length_toList, Vector.length_toList]
      rfl
    simp only [encode, Option.bind_eq_bind]
    rw [write_bind dst, write_write src, layout, List.append_assoc]
  reads self _ rest := by
    obtain ⟨⟨dst⟩, ⟨src⟩, proto⟩ := self
    obtain ⟨a, b, c, d, e, f, rfl⟩ := exists_six dst
    obtain ⟨a', b', c', d', e', f', rfl⟩ := exists_six src
    have long : ¬ (layout ⟨⟨#v[a, b, c, d, e, f]⟩, ⟨#v[a', b', c', d', e', f']⟩, proto⟩ ++
        rest).length < ethHdrLen := Nat.not_lt.mpr (Nat.le_add_left 14 rest.length)
    rw [parse, dif_neg long]
    exact congrArg some (congrArg (EthHdr.mk _ _) (u16FromBe_toBe proto))
  read buf long := by
    have inside : 14 ≤ buf.length := long
    have proto : toBe 2 (u16FromBe [buf[12], buf[13]]).toNat = slice buf 12 14 := by
      rw [slice_two (by omega)]
      exact toBe_u16FromBe rfl
    refine ⟨ofBytes buf (Nat.not_lt.mpr long), dif_neg (Nat.not_lt.mpr long), ?_⟩
    rw [layout, ofBytes, toList_arrayAt, toList_arrayAt, proto]
    change slice buf 0 6 ++ (slice buf 6 12 ++ slice buf 12 14) = buf.take 14
    rw [slice_append _ (by decide) (by decide), slice_append _ (by decide) (by decide), slice_front]
  short buf short := dif_pos short

end EthHdr

namespace ArpHdr

def layout (self : ArpHdr) : List UInt8 :=
  toBe 2 self.hrd.toNat ++ (toBe 2 self.pro.toNat ++ ([self.hln] ++ ([self.pln] ++
    toBe 2 self.op.toNat)))

theorem isLayout : IsLayout arpHdrLen (fun _ => True) layout parse encode where
  length self := rfl
  writes self buf := by
    have hrd : 0 + (toBe 2 self.hrd.toNat).length = 2 := rfl
    have pro : 0 + (toBe 2 self.hrd.toNat ++ toBe 2 self.pro.toNat).length = 4 := rfl
    have hln : 0 + (toBe 2 self.hrd.toNat ++ toBe 2 self.pro.toNat ++ [self.hln]).length = 5 := rfl
    have pln : 0 + (toBe 2 self.hrd.toNat ++ toBe 2 self.pro.toNat ++ [self.hln] ++
      [self.pln]).length = 6 := rfl
    simp only [encode, Option.bind_eq_bind]
    rw [write_bind hrd, write_bind pro, write_bind hln, write_write pln]
    rfl
  reads self _ rest := by
    have long : ¬ (layout self ++ rest).length < arpHdrLen :=
      Nat.not_lt.mpr (Nat.le_add_left 8 rest.length)
    have fields : ofBytes (layout self ++ rest) long =
        ⟨u16FromBe (toBe 2 self.hrd.toNat), u16FromBe (toBe 2 self.pro.toNat), self.hln, self.pln,
          u16FromBe (toBe 2 self.op.toNat)⟩ := rfl
    rw [parse, dif_neg long, fields, u16FromBe_toBe, u16FromBe_toBe, u16FromBe_toBe]
  read buf long := by
    have inside : 8 ≤ buf.length := long
    have pair (first : Nat) (within : first + 1 < buf.length) :
        toBe 2 (u16FromBe [buf[first], buf[first + 1]]).toNat = slice buf first (first + 2) := by
      rw [slice_two within]
      exact toBe_u16FromBe rfl
    refine ⟨ofBytes buf (Nat.not_lt.mpr long), dif_neg (Nat.not_lt.mpr long), ?_⟩
    rw [layout, ofBytes, pair 0 (by omega), pair 2 (by omega), pair 6 (by omega),
      ← slice_one (show 4 < buf.length by omega), ← slice_one (show 5 < buf.length by omega),
      slice_append _ (by decide) (by decide), slice_append _ (by decide) (by decide),
      slice_append _ (by decide) (by decide), slice_append _ (by decide) (by decide), slice_front]
  short buf short := dif_pos short

end ArpHdr

namespace ArpEthIp

/-- Both protocol addresses are IPv4 addresses. -/
def IsIpv4 (self : ArpEthIp) : Prop :=
  (∃ ip, self.spa = .ipv4 ip) ∧ ∃ ip, self.tpa = .ipv4 ip

def layout (self : ArpEthIp) : List UInt8 :=
  self.sha.data.toList ++ (ipOctets self.spa ++ (self.tha.data.toList ++ ipOctets self.tpa))

theorem isLayout : IsLayout arpEthipLen IsIpv4 layout parse encode where
  length self := by
    rw [layout, List.length_append, List.length_append, List.length_append, Vector.length_toList,
      Vector.length_toList]
    rfl
  writes self buf := by
    have sha : 0 + self.sha.data.toList.length = 6 := by
      rw [Vector.length_toList]
      rfl
    have spa : 0 + (self.sha.data.toList ++ ipOctets self.spa).length = 10 := by
      rw [List.length_append, Vector.length_toList]
      rfl
    have tha : 0 + (self.sha.data.toList ++ ipOctets self.spa ++ self.tha.data.toList).length =
        16 := by
      rw [List.length_append, List.length_append, Vector.length_toList, Vector.length_toList]
      rfl
    simp only [encode, Option.bind_eq_bind]
    rw [write_bind sha, write_bind spa, write_write tha, layout, List.append_assoc,
      List.append_assoc]
  reads self isIpv4 rest := by
    obtain ⟨⟨sha⟩, spa, ⟨tha⟩, tpa⟩ := self
    obtain ⟨⟨source, rfl⟩, ⟨target, rfl⟩⟩ := isIpv4
    obtain ⟨a, b, c, d, e, f, rfl⟩ := exists_six sha
    obtain ⟨a', b', c', d', e', f', rfl⟩ := exists_six tha
    have long : ¬ (layout ⟨⟨#v[a, b, c, d, e, f]⟩, .ipv4 source, ⟨#v[a', b', c', d', e', f']⟩,
        .ipv4 target⟩ ++ rest).length < arpEthipLen :=
      Nat.not_lt.mpr (Nat.le_add_left 20 rest.length)
    rw [parse, dif_neg long]
    rfl
  read buf long := by
    have inside : 20 ≤ buf.length := long
    have sent (first : Nat) (within : first + 3 < buf.length) :
        ipOctets (.ipv4 ⟨buf[first], buf[first + 1], buf[first + 2], buf[first + 3]⟩) =
          slice buf first (first + 4) := by
      rw [slice_cons (by omega) (by omega), slice_cons (by omega) (by omega),
        slice_two (by omega)]
      rfl
    refine ⟨ofBytes buf (Nat.not_lt.mpr long), dif_neg (Nat.not_lt.mpr long), ?_⟩
    rw [layout, ofBytes, toList_arrayAt, toList_arrayAt, sent 6 (by omega), sent 16 (by omega)]
    change slice buf 0 6 ++ (slice buf 6 10 ++ (slice buf 10 16 ++ slice buf 16 20)) = buf.take 20
    rw [slice_append _ (by decide) (by decide), slice_append _ (by decide) (by decide),
      slice_append _ (by decide) (by decide), slice_front]
  short buf short := dif_pos short

end ArpEthIp

namespace ArpMsg

/-- A whole message: header and body. -/
abbrev msgLen : Nat := arpHdrLen + arpEthipLen

def layout (self : ArpMsg) : List UInt8 := self.hdr.layout ++ self.body.layout

theorem length_layout (self : ArpMsg) : self.layout.length = msgLen := by
  rw [layout, List.length_append, ArpHdr.isLayout.length, ArpEthIp.isLayout.length]

/-- The two parts of a buffer are written as one. -/
theorem encode_eq (self : ArpMsg) (buf : List UInt8) :
    self.encode buf = write 0 self.layout buf := by
  have hdr : self.hdr.layout.length = arpHdrLen := ArpHdr.isLayout.length self.hdr
  have body : self.body.layout.length = arpEthipLen := ArpEthIp.isLayout.length self.body
  unfold encode
  rw [ArpHdr.isLayout.writes, ArpEthIp.isLayout.writes]
  by_cases short : buf.length < arpHdrLen
  · rw [if_pos short, eq_comm, write_eq_none_iff, length_layout, Nat.zero_add]
    exact Nat.lt_of_lt_of_le short (Nat.le_add_right _ _)
  · have long : arpHdrLen ≤ buf.length := Nat.not_lt.mp short
    have front : write 0 self.hdr.layout (buf.take arpHdrLen) = some self.hdr.layout := by
      have taken : (buf.take arpHdrLen).length = arpHdrLen := List.length_take_of_le long
      rw [write_front, hdr, if_pos taken.ge, List.drop_eq_nil_of_le taken.le, List.append_nil]
    rw [if_neg short, front, write_front, write_front, body, length_layout, List.length_drop,
      Option.bind_eq_bind, Option.bind_some]
    by_cases all : msgLen ≤ buf.length
    · have rest : arpEthipLen ≤ buf.length - arpHdrLen := Nat.le_sub_of_add_le' all
      rw [if_pos all, if_pos rest, List.drop_drop, layout, List.append_assoc]
      rfl
    · have rest : ¬ arpEthipLen ≤ buf.length - arpHdrLen := fun enough =>
        all (Nat.add_le_of_le_sub' long enough)
      rw [if_neg all, if_neg rest]
      rfl

theorem isLayout : IsLayout msgLen (fun self => self.body.IsIpv4) layout parse encode where
  length := length_layout
  writes := encode_eq
  reads self isIpv4 rest := by
    have hdr := ArpHdr.isLayout.reads self.hdr trivial (self.body.layout ++ rest)
    have body := ArpEthIp.isLayout.reads self.body isIpv4 rest
    have split : (layout self ++ rest).drop arpHdrLen = self.body.layout ++ rest := by
      rw [layout, List.append_assoc]
      exact List.drop_left' (ArpHdr.isLayout.length self.hdr)
    rw [parse, split, body, layout, List.append_assoc, hdr]
    rfl
  read buf long := by
    have rest : arpEthipLen ≤ (buf.drop arpHdrLen).length := by
      rw [List.length_drop]
      exact Nat.le_sub_of_add_le' long
    obtain ⟨hdr, parsed, same⟩ := ArpHdr.isLayout.read buf (le_trans (Nat.le_add_right _ _) long)
    obtain ⟨body, parsed', same'⟩ := ArpEthIp.isLayout.read _ rest
    refine ⟨⟨hdr, body⟩, ?_, ?_⟩
    · rw [parse, parsed, parsed']
      rfl
    · rw [layout, same, same', ← List.take_add]
  short buf short := by
    by_cases noHeader : buf.length < arpHdrLen
    · rw [parse, ArpHdr.isLayout.short buf noHeader]
      rfl
    · have noBody : (buf.drop arpHdrLen).length < arpEthipLen := by
        rw [List.length_drop]
        exact Nat.sub_lt_left_of_lt_add (Nat.not_lt.mp noHeader) short
      rw [parse, ArpEthIp.isLayout.short _ noBody]
      cases ArpHdr.parse buf <;> rfl

end ArpMsg

/-- **Wire formats.** Ethernet headers, and ARP messages between IPv4 addresses with the header
and the body that they consist of, round-trip through every buffer: what is encoded is parsed
again and leaves the rest of the buffer unchanged, what is parsed is encoded to the same bytes,
and shorter buffers are not parsed. -/
theorem link_layer_round_trips :
    RoundTrips 14 (fun _ => True) EthHdr.parse EthHdr.encode ∧
      RoundTrips 28 (fun msg => msg.body.IsIpv4) ArpMsg.parse ArpMsg.encode ∧
      RoundTrips 8 (fun _ => True) ArpHdr.parse ArpHdr.encode ∧
      RoundTrips 20 ArpEthIp.IsIpv4 ArpEthIp.parse ArpEthIp.encode :=
  ⟨EthHdr.isLayout.roundTrips, ArpMsg.isLayout.roundTrips, ArpHdr.isLayout.roundTrips,
    ArpEthIp.isLayout.roundTrips⟩

/-- A request for an address, encoded into a buffer that is longer than it. -/
example : ((ArpMsg.request (.ipv4 ⟨192, 0, 2, 1⟩) (.ipv4 ⟨192, 0, 2, 2⟩)
    ⟨#v[0xaa, 0xbb, 0xcc, 0xdd, 0xee, 0x01]⟩).encode (List.replicate 30 0xff)).bind ArpMsg.parse =
      some (ArpMsg.request (.ipv4 ⟨192, 0, 2, 1⟩) (.ipv4 ⟨192, 0, 2, 2⟩)
        ⟨#v[0xaa, 0xbb, 0xcc, 0xdd, 0xee, 0x01]⟩) := by decide

end Wnr.Dnet
