import Mathlib.Data.List.Find
import Wnr.Dnet.Adapters
import Wnr.Foundation.KeyedRows

/-! # The live route lookup

The source address of a route is the local address of a datagram socket that is
connected to the destination, and the interface is the first entry with that
address. On a little-endian host this is, for an IPv4 address, the interface that
has the octets backwards (`Wnr.Dnet.routeTo_little`), so that routes lead to the
owners of their source addresses only by chance (`Wnr.Dnet.leadsToOwner_iff`).
-/

namespace Wnr.Dnet

open Text Bytes Net

/-- What the calls on a datagram socket return; `none` is an error. -/
structure UdpProbe where
  bind : List Char → Option Unit
  connect : SocketAddr → Option Unit
  localAddr : Option SocketAddr

/-- An address with the discard port. -/
def sockaddr (a : Addr) : Option SocketAddr :=
  if a.addrType = addrTypeIp then a.toIpv4.map fun ip => .v4 ip 9
  else if a.addrType = addrTypeIp6 then a.toIpv6.map fun ip => .v6 ip 9 0 0
  else none

/-- The address without the port. -/
def sockaddrToAddr : SocketAddr → Addr
  | .v4 ip _ => .ipv4 ip
  | .v6 ip _ _ _ => .ipv6 ip

/-- The address that the socket is bound to, by the family of the destination. -/
def bindAddr (dst : Addr) : Option (List Char) :=
  if dst.addrType = addrTypeIp then some ['0', '.', '0', '.', '0', '.', '0', ':', '0']
  else if dst.addrType = addrTypeIp6 then some ['[', ':', ':', ']', ':', '0']
  else none

/-- The interface and the source address for a destination. -/
def routeTo (host : Host) (getifaddrs : Option (List Ifaddrs)) (socket : UdpProbe) (dst : Addr) :
    Option (List Char × Addr) := do
  let bind ← bindAddr dst
  let sa ← sockaddr dst
  socket.bind bind
  socket.connect sa
  let localAddr ← socket.localAddr
  let src := sockaddrToAddr localAddr
  let ifname :=
    (((interfaceList host getifaddrs).find? fun i => i.addr = src ∨ src ∈ i.aliasAddrs).map
      (·.name)).getD ['?']
  return (ifname, src)

/-- The kernel reports a local address for a socket connected to the destination. -/
structure UdpProbe.Reports (socket : UdpProbe) (dst : Addr) (localAddr : SocketAddr) : Prop where
  bound : ∃ bind, bindAddr dst = some bind ∧ socket.bind bind = some ()
  connected : ∃ sa, sockaddr dst = some sa ∧ socket.connect sa = some ()
  reported : socket.localAddr = some localAddr

/-- Routes whose source address is that of a record lead to an owner of the address. -/
def LeadsToOwner (host : Host) (records : List Ifaddrs) : Prop :=
  ∀ socket dst localAddr, socket.Reports dst localAddr →
    (∃ record ∈ records, record.ip = some (sockaddrToAddr localAddr)) →
    ∃ owner ∈ records, owner.ip = some (sockaddrToAddr localAddr) ∧
      routeTo host (some records) socket dst = some (owner.name, sockaddrToAddr localAddr)

/-- Routes lead to an owner of the source address, and IPv4 addresses are read in
the order in which they are stored, as on Windows and as the standard library does. -/
structure RoutesToOwner (host : Host) (records : List Ifaddrs) : Prop where
  owner : LeadsToOwner host records
  order : ∀ record ∈ records, ∀ octets, record.ifaAddr = some (.inet octets) →
    unixInet host.order octets = windowsInet (sAddr host.order octets) ∧
      unixInet host.order octets = octets

variable {host : Host} {records : List Ifaddrs} {socket : UdpProbe} {dst : Addr}
  {localAddr : SocketAddr}

/-- The name is that of the first record that is read as the source address. -/
theorem routeTo_eq (reports : socket.Reports dst localAddr) :
    routeTo host (some records) socket dst =
      some (((records.find? fun record =>
          (unixEntry host record).addr = sockaddrToAddr localAddr).map Ifaddrs.name).getD ['?'],
        sockaddrToAddr localAddr) := by
  obtain ⟨⟨bind, isBind, bound⟩, ⟨sa, isSa, connected⟩, reported⟩ := reports
  have same : ∀ record ∈ records,
      decide ((unixEntry host record).addr = sockaddrToAddr localAddr ∨
        sockaddrToAddr localAddr ∈ (unixEntry host record).aliasAddrs) =
      decide ((unixEntry host record).addr = sockaddrToAddr localAddr) := by
    intro record _
    rw [unixEntry_aliasAddrs]
    exact decide_eq_decide.mpr (or_iff_left List.not_mem_nil)
  have named : IntfEntry.name ∘ unixEntry host = Ifaddrs.name := funext (unixEntry_name host)
  rw [← List.find?_congr same, ← named]
  simp only [routeTo, isBind, isSa, bound, connected, reported, interfaceList, unixInterfaces,
    List.find?_map, Option.map_map, Option.bind_eq_bind, Option.bind_some, Option.pure_def]
  rfl

/-- On a little-endian host the source address is read from its octets backwards. -/
theorem addr_unixEntry_little_iff {os : TargetOs} {record : Ifaddrs} {ip : Ipv4Addr} :
    (unixEntry ⟨os, .little⟩ record).addr = .ipv4 ip ↔
      record.ip = some (.ipv4 (reversed ip)) := by
  obtain ⟨ifaName, ifaFlags, ifaAddr⟩ := record
  rw [unixEntry_addr, Ifaddrs.ip]
  rcases ifaAddr with _ | octets | octets | _ | _ | _
  case some.inet =>
    simp only [Option.map_some, Option.getD_some, Option.bind_some, unixAddr, unixInet_little,
      Sockaddr.ip, Option.some.injEq, Addr.ipv4_inj]
    exact ⟨fun read => read ▸ (reversed_reversed octets).symm,
      fun stored => stored ▸ reversed_reversed ip⟩
  case some.inet6 =>
    exact iff_of_false (Addr.ipv4_ne_ipv6 ip octets).symm
      fun stored => Addr.ipv4_ne_ipv6 _ octets (Option.some.inj stored).symm
  -- the records that store no IP address
  all_goals exact iff_of_false (Addr.ipv4_ne_default ip).symm (Option.some_ne_none _).symm

/-- **The interface of an IPv4 route** on a little-endian host is the first one that
has the source address backwards. -/
theorem routeTo_little {os : TargetOs} {ip : Ipv4Addr} {port : UInt16}
    (reports : socket.Reports dst (.v4 ip port)) :
    routeTo ⟨os, .little⟩ (some records) socket dst =
      some (((records.find? fun record => record.ip = some (.ipv4 (reversed ip))).map
        Ifaddrs.name).getD ['?'], .ipv4 ip) := by
  rw [routeTo_eq reports]
  simp only [sockaddrToAddr, addr_unixEntry_little_iff]

/-- An IPv6 address is read as it is stored. -/
theorem addr_unixEntry_ipv6_iff {record : Ifaddrs} {ip : Ipv6Addr} :
    (unixEntry host record).addr = .ipv6 ip ↔ record.ip = some (.ipv6 ip) := by
  obtain ⟨ifaName, ifaFlags, ifaAddr⟩ := record
  rw [unixEntry_addr, Ifaddrs.ip]
  rcases ifaAddr with _ | octets | octets | _ | _ | _
  case some.inet =>
    exact iff_of_false (Addr.ipv4_ne_ipv6 _ ip)
      fun stored => Addr.ipv4_ne_ipv6 _ ip (Option.some.inj stored)
  case some.inet6 => exact (Option.some.injEq _ _).to_iff.symm
  all_goals exact iff_of_false (Addr.ipv6_ne_default ip).symm (Option.some_ne_none _).symm

/-- A route with an IPv6 source address leads to the first owner of the address. -/
theorem routeTo_ipv6 {ip : Ipv6Addr} {port : UInt16} {flowinfo scopeId : UInt32}
    (reports : socket.Reports dst (.v6 ip port flowinfo scopeId))
    (owned : ∃ record ∈ records, record.ip = some (.ipv6 ip)) :
    ∃ owner ∈ records, owner.ip = some (.ipv6 ip) ∧
      routeTo host (some records) socket dst = some (owner.name, .ipv6 ip) := by
  obtain ⟨first, member, owns, isFirst⟩ := KeyedRows.exists_find? owned
  refine ⟨first, member, owns, ?_⟩
  rw [routeTo_eq reports]
  simp only [sockaddrToAddr, addr_unixEntry_ipv6_iff, isFirst, Option.map_some, Option.getD_some]

/-- A socket that the kernel gives an IPv4 address. -/
def probeOf (ip : Ipv4Addr) : UdpProbe := ⟨fun _ => some (), fun _ => some (), some (.v4 ip 0)⟩

theorem reports_probeOf (ip dst : Ipv4Addr) : (probeOf ip).Reports (.ipv4 dst) (.v4 ip 0) :=
  ⟨⟨_, rfl, rfl⟩, ⟨_, rfl, rfl⟩, rfl⟩

/-- **Routes lead to owners** on a little-endian host exactly when, for every IPv4
address, the first interface that has it backwards has the name of one that has it. -/
theorem leadsToOwner_iff {os : TargetOs} :
    LeadsToOwner ⟨os, .little⟩ records ↔
      ∀ ip, (∃ record ∈ records, record.ip = some (.ipv4 ip)) →
        ∃ owner ∈ records, owner.ip = some (.ipv4 ip) ∧
          ((records.find? fun record => record.ip = some (.ipv4 (reversed ip))).map
            Ifaddrs.name).getD ['?'] = owner.name := by
  constructor
  · intro leads ip owned
    have reports := reports_probeOf ip ⟨0, 0, 0, 0⟩
    obtain ⟨owner, member, owns, answer⟩ := leads _ _ _ reports owned
    rw [routeTo_little reports, Option.some.injEq] at answer
    exact ⟨owner, member, owns, congrArg Prod.fst answer⟩
  · intro backwards socket dst localAddr reports owned
    cases localAddr with
    | v4 ip port =>
        obtain ⟨owner, member, owns, named⟩ := backwards ip owned
        refine ⟨owner, member, owns, ?_⟩
        rw [routeTo_little reports, named]
        rfl
    | v6 ip port flowinfo scopeId => exact routeTo_ipv6 reports owned

/-- **Routes lead to the owners of their source addresses** with all addresses read
in order, on a little-endian host, exactly when the octets of every IPv4 address are
the same backwards. -/
theorem routesToOwner_iff (os : TargetOs) (records : List Ifaddrs) :
    RoutesToOwner ⟨os, .little⟩ records ↔
      ∀ record ∈ records, ∀ octets, record.ifaAddr = some (.inet octets) →
        reversed octets = octets := by
  constructor
  · intro routes record member octets stored
    rw [← unixInet_little]
    exact (routes.order record member octets stored).2
  · intro palindromes
    refine ⟨leadsToOwner_iff.mpr fun ip owned => ?_, fun record member octets stored => ?_⟩
    · -- the address is found as itself
      obtain ⟨first, member, owns, isFirst⟩ := KeyedRows.exists_find? owned
      have same : reversed ip = ip := palindromes first member ip (Ifaddrs.ip_eq_ipv4_iff.mp owns)
      refine ⟨first, member, owns, ?_⟩
      rw [same, isFirst]
      rfl
    · have kept : unixInet .little octets = octets :=
        (unixInet_little octets).trans (palindromes record member octets stored)
      exact ⟨kept.trans (windowsInet_sAddr octets).symm, kept⟩

/-- An interface with an address of a private network. -/
def oneInterface : List Ifaddrs :=
  [⟨some ['e', 't', 'h', '0'], 0x1043, some (.inet ⟨192, 168, 1, 5⟩)⟩]

/-- The interface of the source address is not found. -/
theorem owner_not_found : ¬ ∀ (os : TargetOs) (records : List Ifaddrs),
    RoutesToOwner ⟨os, .little⟩ records := by
  intro all
  have reports := reports_probeOf ⟨192, 168, 1, 5⟩ ⟨8, 8, 8, 8⟩
  obtain ⟨owner, member, -, answer⟩ := (all .linux oneInterface).owner _ _ _ reports
    ⟨_, List.mem_singleton_self _, rfl⟩
  rw [List.mem_singleton.mp member] at answer
  exact absurd answer (by decide)

end Wnr.Dnet
