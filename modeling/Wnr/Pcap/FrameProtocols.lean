import Wnr.Pcap.Verdicts

/-! # Filters and the protocols of a frame

The link type of a capture says where a frame names its network-layer protocol,
and that protocol says where the transport-layer protocol and the addresses are.
The compiled programs look at fixed places instead. For each filter, the frames
for which its verdict is right all the same are characterised: for a host
(`Wnr.Pcap.host_filter_iff`), for a network-layer protocol
(`Wnr.Pcap.network_filter_iff`), and for the filters that look behind the
network-layer protocol (`Wnr.Pcap.ethernet_filter_iff`).
-/

namespace Wnr.Pcap

open Bytes Text

section

variable {expr : String} {linktype : Int32} {program : BpfProgram}

/-! ## Hosts -/

/-- An IPv4 header of at least 20 bytes follows the link-layer header. -/
def CarriesIpv4 (linktype : Int32) (frame : List UInt8) : Prop :=
  ∃ first, fieldAt frame (linkHeaderLen linktype) 1 = some first ∧ first / 16 = 4 ∧
    5 ≤ first % 16 ∧ linkHeaderLen linktype + 4 * (first % 16) ≤ frame.length

theorem CarriesIpv4.long {frame : List UInt8} (carries : CarriesIpv4 linktype frame) :
    linkHeaderLen linktype + 20 ≤ frame.length := by
  obtain ⟨first, -, -, words, inside⟩ := carries
  omega

def octets (ip : Ipv4Addr) : List UInt8 := [ip.a, ip.b, ip.c, ip.d]

def sourceAddress (linktype : Int32) (frame : List UInt8) : List UInt8 :=
  slice frame (linkHeaderLen linktype + 12) (linkHeaderLen linktype + 16)

def destinationAddress (linktype : Int32) (frame : List UInt8) : List UInt8 :=
  slice frame (linkHeaderLen linktype + 16) (linkHeaderLen linktype + 20)

/-- Only the destination is compared with the host. -/
theorem filter_host_iff {ip : Ipv4Addr} (reads : Reads expr (.hostIpv4 ip))
    (compiled : FilterBuilder.compile expr linktype = .ok program) {frame : List UInt8}
    (carries : CarriesIpv4 linktype frame) :
    (ForwardProgram.ofCompiled compiled).filter frame = true ↔
      destinationAddress linktype frame = octets ip := by
  rw [filter_ofCompiled_iff reads compiled]
  have long := carries.long
  exact fieldAt_eq_fromBe_iff (octets ip) long

/-- **Hosts.** The program of `host A` accepts a frame with an IPv4 header if and
only if the source or the destination is A, exactly when the frame does not have
A for its source alone. -/
theorem host_filter_iff {ip : Ipv4Addr} (reads : Reads expr (.hostIpv4 ip))
    (compiled : FilterBuilder.compile expr linktype = .ok program) (frame : List UInt8)
    (carries : CarriesIpv4 linktype frame) :
    ((ForwardProgram.ofCompiled compiled).filter frame = true ↔
        sourceAddress linktype frame = octets ip ∨ destinationAddress linktype frame = octets ip) ↔
      (sourceAddress linktype frame = octets ip →
        destinationAddress linktype frame = octets ip) := by
  rw [filter_host_iff reads compiled carries]
  constructor
  · intro same source
    exact same.mpr (.inl source)
  · intro both
    exact ⟨.inr, fun either => either.elim both id⟩

/-- An Ethernet frame from 1.2.3.4 to 9.9.9.9. -/
def frameFromHost : List UInt8 :=
  List.replicate 12 0 ++ [0x08, 0x00] ++ [0x45, 0, 0, 20, 0, 0, 0, 0, 64, 6, 0, 0] ++
    [1, 2, 3, 4] ++ [9, 9, 9, 9]

theorem reads_host : Reads "host 1.2.3.4" (.hostIpv4 ⟨1, 2, 3, 4⟩) :=
  ⟨["host".toList, "1.2.3.4".toList], [], by decide, .host (by decide) (by decide)⟩

theorem carriesIpv4_frameFromHost : CarriesIpv4 dltEn10mb frameFromHost :=
  ⟨0x45, by decide, by decide, by decide, by decide⟩

theorem host_filter_iff_source :
    ∃ (program : BpfProgram)
      (compiled : FilterBuilder.compile "host 1.2.3.4" dltEn10mb = .ok program),
      ((ForwardProgram.ofCompiled compiled).filter frameFromHost = true ↔
        sourceAddress dltEn10mb frameFromHost = octets ⟨1, 2, 3, 4⟩ ∨
          destinationAddress dltEn10mb frameFromHost = octets ⟨1, 2, 3, 4⟩) ↔
      (sourceAddress dltEn10mb frameFromHost = octets ⟨1, 2, 3, 4⟩ →
        destinationAddress dltEn10mb frameFromHost = octets ⟨1, 2, 3, 4⟩) :=
  ⟨_, rfl, host_filter_iff reads_host rfl frameFromHost carriesIpv4_frameFromHost⟩

/-- A frame from the host is rejected. -/
theorem host_filter_misses_source :
    ¬ ∀ (expr : String) (linktype : Int32) (program : BpfProgram) (ip : Ipv4Addr)
      (compiled : FilterBuilder.compile expr linktype = .ok program) (frame : List UInt8),
      Reads expr (.hostIpv4 ip) → CarriesIpv4 linktype frame →
        ((ForwardProgram.ofCompiled compiled).filter frame = true ↔
          sourceAddress linktype frame = octets ip ∨
            destinationAddress linktype frame = octets ip) := by
  intro accepts
  have accepted := (accepts _ _ _ _ rfl frameFromHost reads_host carriesIpv4_frameFromHost).mpr
    (.inl (by decide))
  have destination := (filter_host_iff reads_host rfl carriesIpv4_frameFromHost).mp accepted
  exact absurd destination (by decide)

/-! ## Network-layer protocols -/

inductive NetworkProtocol where
  | ip
  | ip6
  | arp
deriving DecidableEq

namespace NetworkProtocol

variable (protocol : NetworkProtocol)

def etherType : NetworkProtocol → UInt32
  | .ip => 0x0800
  | .ip6 => 0x86dd
  | .arp => 0x0806

/-- The version number of the packets themselves, for the versions of IP. -/
def version : NetworkProtocol → Option Nat
  | .ip => some 4
  | .ip6 => some 6
  | .arp => none

/-- The frame is one of the protocol, as its link type encodes it. -/
def Carried (linktype : Int32) (frame : List UInt8) : Prop :=
  if linktype = dltEn10mb then fieldAt frame 12 2 = some protocol.etherType.toNat
  else if linktype = dltLinuxSll then fieldAt frame 14 2 = some protocol.etherType.toNat
  -- raw IP
  else ∃ version first, protocol.version = some version ∧ fieldAt frame 0 1 = some first ∧
    first / 16 = version

/-- Where an Ethernet frame has its EtherType, the frame has the number of the
protocol if and only if it is one of the protocol. -/
def ToldByEtherType (linktype : Int32) (frame : List UInt8) : Prop :=
  linktype = dltEn10mb ∨
    (linktype = dltLinuxSll ∧ (fieldAt frame 12 2 = some protocol.etherType.toNat ↔
      fieldAt frame 14 2 = some protocol.etherType.toNat)) ∨
    (linktype = dltRaw ∧ (fieldAt frame 12 2 = some protocol.etherType.toNat ↔
      ∃ version first, protocol.version = some version ∧ fieldAt frame 0 1 = some first ∧
        first / 16 = version))

/-- A frame of no protocol with the number of the protocol at the EtherType's place. -/
def decoy : List UInt8 :=
  List.replicate 12 0 ++ toBe 2 protocol.etherType.toNat ++ [0, 0]

theorem fieldAt_decoy : fieldAt protocol.decoy 12 2 = some protocol.etherType.toNat := by
  cases protocol <;> decide

theorem not_carried_decoy (other : linktype ≠ dltEn10mb) :
    ¬ protocol.Carried linktype protocol.decoy := by
  rw [Carried, if_neg other]
  split
  · cases protocol <;> decide
  · have first : fieldAt protocol.decoy 0 1 = some 0 := by cases protocol <;> decide
    rw [first]
    rintro ⟨version, nibble, named, found, same⟩
    cases found
    rw [← same] at named
    cases protocol <;> cases named

end NetworkProtocol

/-- The program of a network-layer protocol looks for an EtherType. -/
theorem filter_network_iff {protocol : NetworkProtocol}
    (reads : Reads expr (.proto protocol.etherType))
    (compiled : FilterBuilder.compile expr linktype = .ok program) (frame : List UInt8) :
    (ForwardProgram.ofCompiled compiled).filter frame = true ↔
      fieldAt frame 12 2 = some protocol.etherType.toNat := by
  rw [filter_ofCompiled_iff reads compiled, Primitive.Accepts, if_pos]
  cases protocol <;> decide

/-- **Network-layer protocols.** In an Ethernet, cooked or raw capture, `ip`, `ip6`
or `arp` accepts a frame if and only if it is one of that protocol, exactly when
the EtherType's place tells so. It does so for all frames exactly in an Ethernet
capture. -/
theorem network_filter_iff {protocol : NetworkProtocol}
    (reads : Reads expr (.proto protocol.etherType))
    (compiled : FilterBuilder.compile expr linktype = .ok program)
    (known : linktype ∈ [dltEn10mb, dltLinuxSll, dltRaw]) :
    (∀ frame, ((ForwardProgram.ofCompiled compiled).filter frame = true ↔
        protocol.Carried linktype frame) ↔ protocol.ToldByEtherType linktype frame) ∧
      ((∀ frame, (ForwardProgram.ofCompiled compiled).filter frame = true ↔
        protocol.Carried linktype frame) ↔ linktype = dltEn10mb) := by
  have notSll : ¬ dltRaw = dltLinuxSll := by decide
  have notEthernet : ¬ dltRaw = dltEn10mb := by decide
  have sllNotEthernet : ¬ dltLinuxSll = dltEn10mb := by decide
  have sllNotRaw : ¬ dltLinuxSll = dltRaw := by decide
  constructor
  · intro frame
    rw [filter_network_iff reads compiled, NetworkProtocol.ToldByEtherType,
      NetworkProtocol.Carried]
    simp only [List.mem_cons, List.not_mem_nil, or_false] at known
    rcases known with rfl | rfl | rfl
    · simp only [if_true, true_or]
    · simp only [if_true, if_false, sllNotEthernet, sllNotRaw, false_and, or_false, false_or,
        true_and]
    · simp only [if_false, notSll, notEthernet, false_and, false_or, true_and]
  · constructor
    · intro right
      by_contra other
      have accepted := (filter_network_iff reads compiled protocol.decoy).mpr
        protocol.fieldAt_decoy
      exact protocol.not_carried_decoy other ((right _).mp accepted)
    · rintro rfl frame
      rw [filter_network_iff reads compiled, NetworkProtocol.Carried, if_pos rfl]

theorem reads_ip : Reads "ip" (.proto NetworkProtocol.ip.etherType) :=
  ⟨["ip".toList], [], by decide, .keyword (by decide)⟩

theorem network_filter_iff_raw :
    ∃ (program : BpfProgram) (compiled : FilterBuilder.compile "ip" dltRaw = .ok program),
      (∀ frame, ((ForwardProgram.ofCompiled compiled).filter frame = true ↔
          NetworkProtocol.ip.Carried dltRaw frame) ↔
        NetworkProtocol.ip.ToldByEtherType dltRaw frame) ∧
      ((∀ frame, (ForwardProgram.ofCompiled compiled).filter frame = true ↔
        NetworkProtocol.ip.Carried dltRaw frame) ↔ dltRaw = dltEn10mb) :=
  ⟨_, rfl, network_filter_iff reads_ip rfl (by decide)⟩

/-- A raw IPv4 packet is rejected by `ip`. -/
theorem network_filter_misses_raw :
    ¬ ∀ (expr : String) (linktype : Int32) (program : BpfProgram) (protocol : NetworkProtocol)
      (compiled : FilterBuilder.compile expr linktype = .ok program) (frame : List UInt8),
      Reads expr (.proto protocol.etherType) → linktype ∈ [dltEn10mb, dltLinuxSll, dltRaw] →
        ((ForwardProgram.ofCompiled compiled).filter frame = true ↔
          protocol.Carried linktype frame) := by
  intro accepts
  let frame : List UInt8 := [0x45, 0, 0, 20, 0, 0, 0, 0, 64, 6, 0, 0, 10, 0, 0, 1, 10, 0, 0, 2]
  have carried : NetworkProtocol.ip.Carried dltRaw frame :=
    ⟨4, 0x45, rfl, by decide, by decide⟩
  have accepted := (accepts _ _ _ .ip rfl frame reads_ip (by decide)).mpr carried
  have seen := (filter_network_iff reads_ip rfl frame).mp accepted
  exact absurd seen (by decide)

/-! ## Behind the network-layer protocol -/

inductive TransportProtocol where
  | tcp
  | udp
  | icmp
  | icmp6
deriving DecidableEq

namespace TransportProtocol

def number : TransportProtocol → UInt32
  | .tcp => 6
  | .udp => 17
  | .icmp => 1
  | .icmp6 => 58

/-- The Ethernet frame is of the protocol, over either version of IP. -/
def Carried (protocol : TransportProtocol) (frame : List UInt8) : Prop :=
  (fieldAt frame 12 2 = some 0x0800 ∧ fieldAt frame 23 1 = some protocol.number.toNat) ∨
    (fieldAt frame 12 2 = some 0x86dd ∧ fieldAt frame 20 1 = some protocol.number.toNat)

end TransportProtocol

/-- The filters that look behind the network-layer protocol. -/
inductive EthernetFilter where
  | transport (protocol : TransportProtocol)
  | broadcast
  | multicast
deriving DecidableEq

namespace EthernetFilter

def primitive : EthernetFilter → Primitive
  | .transport protocol => .proto protocol.number
  | .broadcast => .broadcast
  | .multicast => .multicast

/-- What a verdict of the filter on an Ethernet frame promises. -/
def Promise (frame : List UInt8) (accepted : Prop) : EthernetFilter → Prop
  | .transport protocol =>
      (accepted → protocol.Carried frame) ∧
        (protocol = .icmp6 → fieldAt frame 12 2 = some 0x86dd → fieldAt frame 20 1 = some 58 →
          accepted)
  | .broadcast => accepted → fieldAt frame 12 2 = some 0x0800 ∧ fieldAt frame 30 4 = some 0xffffffff
  | .multicast => accepted → fieldAt frame 12 2 = some 0x0800 ∧
      ∃ first, fieldAt frame 30 1 = some first ∧ 224 ≤ first ∧ first ≤ 239

/-- The frame is an IPv4 frame, or the byte that the filter looks at does not
mislead: behind the header of another protocol it is a part of something else. -/
def NotMisled (frame : List UInt8) (filter : EthernetFilter) : Prop :=
  fieldAt frame 12 2 = some 0x0800 ∨
    match filter with
    | .transport protocol =>
        (loadedField frame 23 1 = some protocol.number.toNat →
          fieldAt frame 12 2 = some 0x86dd ∧ fieldAt frame 20 1 = some protocol.number.toNat) ∧
        (protocol = .icmp6 → fieldAt frame 12 2 = some 0x86dd → fieldAt frame 20 1 = some 58 →
          loadedField frame 23 1 = some 58)
    | .broadcast => fieldAt frame 30 4 ≠ some 0xffffffff
    | .multicast => ∀ first, loadedField frame 30 1 = some first → first < 224 ∨ 239 < first

end EthernetFilter

theorem filter_transport_iff {protocol : TransportProtocol}
    (reads : Reads expr (.proto protocol.number))
    (compiled : FilterBuilder.compile expr dltEn10mb = .ok program) (frame : List UInt8) :
    (ForwardProgram.ofCompiled compiled).filter frame = true ↔
      loadedField frame 23 1 = some protocol.number.toNat := by
  have transport : ¬ (protocol.number = 0x0806 ∨ protocol.number = 0x0800 ∨
      protocol.number = 0x86dd) := by cases protocol <;> decide
  rw [filter_ofCompiled_iff reads compiled, Primitive.Accepts, if_neg transport]
  rfl

/-- **Behind the network-layer protocol.** The verdict of `tcp`, `udp`, `icmp`,
`icmp6`, `broadcast` or `multicast` on an Ethernet frame keeps its promise exactly
when the byte that the filter looks at does not mislead. -/
theorem ethernet_filter_iff {filter : EthernetFilter} (reads : Reads expr filter.primitive)
    (compiled : FilterBuilder.compile expr dltEn10mb = .ok program) (frame : List UInt8) :
    filter.Promise frame ((ForwardProgram.ofCompiled compiled).filter frame = true) ↔
      filter.NotMisled frame := by
  cases filter with
  | transport protocol =>
      simp only [EthernetFilter.Promise, EthernetFilter.NotMisled, TransportProtocol.Carried,
        filter_transport_iff reads compiled]
      constructor
      · intro ⟨carried, found⟩
        by_cases ip : fieldAt frame 12 2 = some 0x0800
        · exact .inl ip
        · refine .inr ⟨fun seen => ?_, fun icmp6 ip6 next => ?_⟩
          · exact (carried seen).resolve_left fun ipv4 => ip ipv4.1
          · subst icmp6
            exact found rfl ip6 next
      · rintro (ip | ⟨carried, found⟩)
        · refine ⟨fun seen => .inl ⟨ip, fieldAt_of_loadedField seen⟩, fun _ ip6 => ?_⟩
          rw [ip] at ip6
          cases ip6
        · refine ⟨fun seen => .inr (carried seen), fun icmp6 ip6 next => ?_⟩
          subst icmp6
          exact found rfl ip6 next
  | broadcast =>
      have accepts : (ForwardProgram.ofCompiled compiled).filter frame = true ↔
          fieldAt frame 30 4 = some 0xffffffff := filter_ofCompiled_iff reads compiled frame
      simp only [EthernetFilter.Promise, EthernetFilter.NotMisled, accepts]
      constructor
      · intro promised
        by_cases everyone : fieldAt frame 30 4 = some 0xffffffff
        · exact .inl (promised everyone).1
        · exact .inr everyone
      · rintro (ip | other) everyone
        · exact ⟨ip, everyone⟩
        · exact absurd everyone other
  | multicast =>
      have accepts : (ForwardProgram.ofCompiled compiled).filter frame = true ↔
          ∃ first, loadedField frame 30 1 = some first ∧ 224 ≤ first ∧ first ≤ 239 :=
        filter_ofCompiled_iff reads compiled frame
      simp only [EthernetFilter.Promise, EthernetFilter.NotMisled, accepts]
      constructor
      · intro promised
        by_cases group : ∃ first, loadedField frame 30 1 = some first ∧ 224 ≤ first ∧ first ≤ 239
        · exact .inl (promised group).1
        · refine .inr fun first seen => ?_
          by_contra within
          exact group ⟨first, seen, by omega, by omega⟩
      · rintro (ip | other) ⟨first, seen, low, high⟩
        · exact ⟨ip, first, fieldAt_of_loadedField seen, low, high⟩
        · have outside := other first seen
          omega

/-- An ARP request from the hardware address 02:06:00:00:00:01. -/
def arpRequest : List UInt8 :=
  List.replicate 6 0xff ++ [0x02, 0x06, 0, 0, 0, 1] ++ [0x08, 0x06] ++
    [0, 1, 8, 0, 6, 4, 0, 1, 0x02, 0x06, 0, 0, 0, 1, 10, 0, 0, 1, 0, 0, 0, 0, 0, 0, 10, 0, 0, 2]

theorem reads_tcp : Reads "tcp" (EthernetFilter.transport .tcp).primitive :=
  ⟨["tcp".toList], [], by decide, .keyword (by decide)⟩

theorem ethernet_filter_iff_arp :
    ∃ (program : BpfProgram) (compiled : FilterBuilder.compile "tcp" dltEn10mb = .ok program),
      (EthernetFilter.transport .tcp).Promise arpRequest
          ((ForwardProgram.ofCompiled compiled).filter arpRequest = true) ↔
        (EthernetFilter.transport .tcp).NotMisled arpRequest :=
  ⟨_, rfl, ethernet_filter_iff reads_tcp rfl arpRequest⟩

/-- An ARP request is accepted by `tcp`. -/
theorem ethernet_filter_accepts_arp :
    ¬ ∀ (expr : String) (program : BpfProgram) (filter : EthernetFilter)
      (compiled : FilterBuilder.compile expr dltEn10mb = .ok program) (frame : List UInt8),
      Reads expr filter.primitive →
        filter.Promise frame ((ForwardProgram.ofCompiled compiled).filter frame = true) := by
  intro promises
  have promised := promises _ _ (.transport .tcp) rfl arpRequest reads_tcp
  have seen : loadedField arpRequest 23 1 = some TransportProtocol.tcp.number.toNat := by decide
  have carried := promised.1 ((filter_transport_iff reads_tcp rfl arpRequest).mpr seen)
  rcases carried with ⟨ip, -⟩ | ⟨ip6, -⟩
  · exact absurd ip (by decide)
  · exact absurd ip6 (by decide)

end

end Wnr.Pcap
