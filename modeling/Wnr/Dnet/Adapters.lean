import Wnr.Dnet.Intf

/-! # Windows adapters

On Windows an adapter has all its addresses, and its entry keeps the first one and
the others as aliases (`Wnr.Dnet.carriesIps_adapterEntry`). The octets of an IPv4
address are taken as they are stored (`Wnr.Dnet.windowsInet_sAddr`).
-/

namespace Wnr.Dnet

open Text Bytes

/-- The entry has the first address as its own and every further one as an alias. -/
structure IntfEntry.CarriesIps (entry : IntfEntry) (ips : List Addr) : Prop where
  addr : entry.addr = ips.head?.getD default
  aliasAddrs : entry.aliasAddrs.Perm ips.tail

/-- The fields of `IP_ADAPTER_ADDRESSES` that are read. An address that is a null
pointer is `none`. -/
structure Adapter where
  friendlyName : List Char
  adapterName : List Char
  mtu : UInt32
  ifType : UInt32
  operStatus : Int32
  physicalAddressLength : UInt32
  physicalAddress : Vector UInt8 8
  unicast : List (Option Sockaddr)

/-- The IPv4 address of a number whose least significant byte is the first octet. -/
def windowsInet (sAddr : UInt32) : Ipv4Addr :=
  let ip := u32ToLe sAddr
  have := length_u32ToLe sAddr
  ⟨ip[0], ip[1], ip[2], ip[3]⟩

/-- The IP address that is made of a socket address. -/
def windowsAddr : Sockaddr → Option Addr
  | .inet sinAddr => some (.ipv4 (windowsInet (sAddr .little sinAddr)))
  | .inet6 sin6Addr => some (.ipv6 sin6Addr)
  | .packet _ | .link _ | .other => none

/-- An address goes to the aliases unless it is the first. -/
def IntfEntry.push (ent : IntfEntry) (addr : Addr) : IntfEntry :=
  if ent.addr.addrType = addrTypeNone then { ent with addr := addr }
  else { ent with aliasAddrs := ent.aliasAddrs ++ [addr] }

/-- The entry of an adapter before its addresses are read. -/
def adapterHeader (e : Adapter) : IntfEntry where
  name :=
    let name := if e.friendlyName ≠ [] then e.friendlyName else e.adapterName
    if name = [] then ['i', 'f', 'a', 'c', 'e'] else name
  mtu := e.mtu
  intfType := if e.ifType = 24 then intfTypeLoopback else intfTypeEth
  flags :=
    (if e.ifType = 24 then intfFlagLoopback else 0) ||| (if e.operStatus = 1 then intfFlagUp else 0)
  linkAddr := if 6 ≤ e.physicalAddressLength then .hw (e.physicalAddress.take 6) else default

/-- The entry of an adapter. -/
def adapterEntry (e : Adapter) : IntfEntry :=
  e.unicast.foldl (fun ent sa =>
    match sa.bind windowsAddr with
    | some addr => ent.push addr
    | none => ent) (adapterHeader e)

/-- The entries of the adapters that `GetAdaptersAddresses` returns. -/
def windowsInterfaces (adapters : List Adapter) : List IntfEntry := adapters.map adapterEntry

/-- **The octets** are taken in the order in which they are stored. -/
theorem windowsInet_sAddr (octets : Ipv4Addr) : windowsInet (sAddr .little octets) = octets := by
  have stored : u32ToLe (sAddr .little octets) = [octets.a, octets.b, octets.c, octets.d] :=
    ByteOrder.u32_readU32 .little rfl
  simp only [windowsInet, stored, List.getElem_cons_zero, List.getElem_cons_succ]

/-- A socket address is read as it is stored. -/
theorem windowsAddr_eq_ip (sockaddr : Sockaddr) : windowsAddr sockaddr = sockaddr.ip := by
  cases sockaddr with
  | inet octets => rw [windowsAddr, windowsInet_sAddr, Sockaddr.ip]
  | inet6 octets => rfl
  | packet sll => rfl
  | link sdl => rfl
  | other => rfl

/-- Once there is a first address, all others become aliases. -/
theorem foldl_push {ent : IntfEntry} (typed : ent.addr.addrType ≠ addrTypeNone)
    (addrs : List Addr) :
    addrs.foldl IntfEntry.push ent = { ent with aliasAddrs := ent.aliasAddrs ++ addrs } := by
  induction addrs generalizing ent with
  | nil => rw [List.append_nil]; rfl
  | cons addr rest ih =>
      have pushed : ent.push addr = { ent with aliasAddrs := ent.aliasAddrs ++ [addr] } :=
        if_neg typed
      have later : ({ ent with aliasAddrs := ent.aliasAddrs ++ [addr] } : IntfEntry).addr.addrType ≠
          addrTypeNone := typed
      rw [List.foldl_cons, pushed, ih later, List.append_assoc]
      rfl

/-- **An adapter's entry** carries all its addresses. -/
theorem carriesIps_adapterEntry (e : Adapter) :
    (adapterEntry e).CarriesIps (e.unicast.filterMap (·.bind Sockaddr.ip)) := by
  have pushes : adapterEntry e =
      (e.unicast.filterMap (·.bind Sockaddr.ip)).foldl IntfEntry.push (adapterHeader e) := by
    rw [List.foldl_filterMap, adapterEntry, funext windowsAddr_eq_ip]
    congr 1
    funext ent sa
    cases sa.bind Sockaddr.ip <;> rfl
  rw [pushes]
  cases read : e.unicast.filterMap (·.bind Sockaddr.ip) with
  | nil => exact ⟨rfl, .refl _⟩
  | cons first rest =>
      have typed : first.addrType ≠ addrTypeNone := by
        have member : first ∈ e.unicast.filterMap (·.bind Sockaddr.ip) := by
          rw [read]
          exact List.mem_cons_self
        obtain ⟨sa, -, isFirst⟩ := List.mem_filterMap.mp member
        obtain ⟨sockaddr, -, isFirst⟩ := Option.bind_eq_some_iff.mp isFirst
        exact Sockaddr.addrType_ip isFirst
      have pushed : (adapterHeader e).push first = { adapterHeader e with addr := first } :=
        if_pos rfl
      rw [List.foldl_cons, pushed, foldl_push typed]
      exact ⟨rfl, .refl _⟩

end Wnr.Dnet
