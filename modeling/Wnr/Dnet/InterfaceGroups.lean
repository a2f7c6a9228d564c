import Wnr.Dnet.Adapters
import Wnr.Foundation.KeyedRows

/-! # Interfaces and their records

`getifaddrs` reports an interface once for each of its addresses. An interface
list groups the records when each name has one entry with all the addresses of
the name. The list that is made of the records does so only when there is nothing
to group (`Wnr.Dnet.grouped_iff`).
-/

namespace Wnr.Dnet

open KeyedRows

namespace Sockaddr

/-- The six-byte hardware address that a socket address stores. -/
def mac : TargetOs → Sockaddr → Option Addr
  | .linux, .packet sll =>
      if sll.sllHalen = 6 then some (.hw (sll.sllAddr.take 6)) else none
  | .macos, .link sdl | .bsd, .link sdl =>
      if sdl.sdlAlen = 6 then some (.hw (sdl.sixAt (8 + sdl.sdlNlen.toNat))) else none
  | _, _ => none

/-- The hardware address is read as it is stored: always on Linux, on macOS when
its bytes are also those from the offset that is read, on the others when there is
none. -/
def MacInPlace : TargetOs → Sockaddr → Prop
  | .macos, .link sdl =>
      sdl.sdlAlen = 6 → sdl.sixAt sdl.sdlNlen.toNat = sdl.sixAt (8 + sdl.sdlNlen.toNat)
  | .bsd, .link sdl => sdl.sdlAlen ≠ 6
  | _, _ => True

theorem unixMac_eq_mac_iff {os : TargetOs} {sockaddr : Sockaddr} :
    (unixMac os sockaddr).getD default = (sockaddr.mac os).getD default ↔
      sockaddr.MacInPlace os := by
  cases os with
  | linux => cases sockaddr <;> exact iff_of_true rfl trivial
  | macos =>
      cases sockaddr with
      | link sdl =>
          rw [unixMac, mac, MacInPlace]
          by_cases six : sdl.sdlAlen = 6
          · simp only [six, if_true, Option.getD_some, Addr.hw_inj, forall_true_left]
          · simp only [six, if_false, false_imp_iff]
      | _ => exact iff_of_true rfl trivial
  | bsd =>
      cases sockaddr with
      | link sdl =>
          change default = (mac .bsd (.link sdl)).getD default ↔ sdl.sdlAlen ≠ 6
          rw [mac]
          by_cases six : sdl.sdlAlen = 6
          · rw [if_pos six, Option.getD_some]
            exact iff_of_false (Addr.hw_ne_default _).symm (not_not.mpr six)
          · rw [if_neg six, Option.getD_none]
            exact iff_of_true rfl six
      | _ => exact iff_of_true rfl trivial

end Sockaddr

namespace Ifaddrs

/-- The hardware address of a record. -/
def mac (os : TargetOs) (self : Ifaddrs) : Option Addr := self.ifaAddr.bind (Sockaddr.mac os)

/-- The hardware address of the record is read as it is stored. -/
def MacInPlace (self : Ifaddrs) (os : TargetOs) : Prop :=
  ∀ sockaddr ∈ self.ifaAddr, sockaddr.MacInPlace os

theorem linkAddr_unixEntry_iff {host : Host} {record : Ifaddrs} :
    (unixEntry host record).linkAddr = (record.mac host.os).getD default ↔
      record.MacInPlace host.os := by
  obtain ⟨ifaName, ifaFlags, ifaAddr⟩ := record
  rw [unixEntry_linkAddr, MacInPlace, mac]
  cases ifaAddr with
  | none => exact iff_of_true rfl fun sockaddr absent => nomatch absent
  | some sockaddr =>
      simp only [Option.bind_some, Option.mem_def, Option.some.injEq, forall_eq']
      exact Sockaddr.unixMac_eq_mac_iff

end Ifaddrs

/-- The entry carries the addresses of the records: the first IP address as its own,
every further one as an alias, and the hardware address. -/
structure Carries (os : TargetOs) (entry : IntfEntry) (records : List Ifaddrs) : Prop
    extends entry.CarriesIps (records.filterMap Ifaddrs.ip) where
  linkAddr : entry.linkAddr ∈ records.filterMap (Ifaddrs.mac os) ∨
    records.filterMap (Ifaddrs.mac os) = [] ∧ entry.linkAddr = default

/-- The interfaces group the records by name, and an interface is found by its name
with all its addresses. -/
structure Grouped (host : Host) (records : List Ifaddrs) : Prop where
  merges : Merges Ifaddrs.name IntfEntry.name (Carries host.os) records
    (interfaceList host (some records))
  found : ∀ name ∈ records.map Ifaddrs.name, ∃ entry,
    interfaceByName host (some records) name = some entry ∧
      Carries host.os entry (records.filter (·.name = name))

theorem filterMap_singleton {α β : Type} (f : α → Option β) (a : α) :
    [a].filterMap f = (f a).toList := by
  cases read : f a with
  | none => rw [List.filterMap_cons_none read]; rfl
  | some b => rw [List.filterMap_cons_some read]; rfl

/-- An entry without aliases carries at most one address. -/
theorem IntfEntry.carriesIps_toList_iff {entry : IntfEntry} (single : entry.aliasAddrs = [])
    (ip : Option Addr) : entry.CarriesIps ip.toList ↔ entry.addr = ip.getD default := by
  cases ip with
  | none => exact ⟨fun carries => carries.addr, fun own => ⟨own, single ▸ .refl _⟩⟩
  | some addr => exact ⟨fun carries => carries.addr, fun own => ⟨own, single ▸ .refl _⟩⟩

/-- The entry of a record carries it when its addresses are read as they are stored. -/
theorem carries_unixEntry_iff {host : Host} {record : Ifaddrs} :
    Carries host.os (unixEntry host record) [record] ↔
      record.InOrder host.order ∧ record.MacInPlace host.os := by
  have ips : (unixEntry host record).CarriesIps ([record].filterMap Ifaddrs.ip) ↔
      record.InOrder host.order := by
    rw [filterMap_singleton, IntfEntry.carriesIps_toList_iff (unixEntry_aliasAddrs host record)]
    exact Ifaddrs.addr_unixEntry_iff
  have macs : ((unixEntry host record).linkAddr ∈ [record].filterMap (Ifaddrs.mac host.os) ∨
      [record].filterMap (Ifaddrs.mac host.os) = [] ∧ (unixEntry host record).linkAddr = default) ↔
      record.MacInPlace host.os := by
    rw [← Ifaddrs.linkAddr_unixEntry_iff, filterMap_singleton]
    cases record.mac host.os with
    | none => simp only [Option.toList_none, List.not_mem_nil, true_and, false_or, Option.getD_none]
    | some mac => simp only [Option.toList_some, List.mem_singleton, List.cons_ne_nil, false_and,
        or_false, Option.getD_some]
  rw [← ips, ← macs]
  exact ⟨fun carries => ⟨carries.toCarriesIps, carries.linkAddr⟩, fun both => ⟨both.1, both.2⟩⟩

/-- **The interfaces group the records** exactly when no two records have one name
and the addresses of each are read as they are stored. -/
theorem grouped_iff (host : Host) (records : List Ifaddrs) :
    Grouped host records ↔ Distinct Ifaddrs.name records ∧
      ∀ record ∈ records, record.InOrder host.order ∧ record.MacInPlace host.os := by
  have merged : Merges Ifaddrs.name IntfEntry.name (Carries host.os) records
      (interfaceList host (some records)) ↔ Distinct Ifaddrs.name records ∧
        ∀ record ∈ records, record.InOrder host.order ∧ record.MacInPlace host.os := by
    rw [interfaceList, unixInterfaces, merges_map_iff (unixEntry_name host)]
    simp only [carries_unixEntry_iff]
  rw [← merged]
  exact ⟨fun grouped => grouped.merges,
    fun merges => ⟨merges, fun name present => merges.find present⟩⟩

/-- The records of an interface with a hardware address and an IPv4 address. -/
def twoRecords : List Ifaddrs :=
  [⟨some ['e', 't', 'h', '0'], 0x1043, some (.packet ⟨6, #v[2, 0, 0, 0, 0, 1, 0, 0]⟩)⟩,
    ⟨some ['e', 't', 'h', '0'], 0x1043, some (.inet ⟨10, 0, 0, 10⟩)⟩]

/-- An interface with two records has two entries, each with half of its addresses. -/
theorem two_entries_of_one_interface : ¬ ∀ (host : Host) (records : List Ifaddrs),
    Grouped host records := by
  intro all
  have distinct := (all ⟨.linux, .little⟩ twoRecords).merges.distinct
  exact absurd distinct (by decide)

end Wnr.Dnet
