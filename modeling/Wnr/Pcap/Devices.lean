import Mathlib.Data.List.Find
import Mathlib.Data.List.Forall2
import Wnr.Dnet.Intf
import Wnr.Foundation.KeyedRows

/-! # Capture devices

The devices are the interface entries. The default device is the first one
without the loopback flag, or else the first one. Since the flag word is the
kernel's and the flag libdnet's, the default device is the first one that the
kernel does not list as a broadcast interface (`Wnr.Pcap.lookupdev_eq`).
-/

namespace Wnr.Pcap

open Dnet

/-- A network device. -/
structure Device where
  name : List Char
  description : String
  addresses : List Addr
  flags : UInt16
deriving DecidableEq

/-- The devices of one enumeration of the interfaces. -/
def findalldevs (host : Host) (getifaddrs : Option (List Ifaddrs)) : List Device :=
  (interfaceList host getifaddrs).map fun intf =>
    { name := intf.name
      description :=
        if intf.intfType = intfTypeLoopback then "Loopback interface"
        else if intf.intfType = intfTypeEth then "Ethernet"
        else if intf.intfType = intfTypePpp then "Point-to-point"
        else "Network interface"
      addresses := intf.addr :: intf.aliasAddrs
      flags := intf.flags }

/-- The default device. Where all devices of the first enumeration are flagged as
loopbacks, the devices are enumerated again. -/
def lookupdev (host : Host) (getifaddrs again : Option (List Ifaddrs)) : Option (List Char) :=
  match (findalldevs host getifaddrs).find? (·.flags &&& intfFlagLoopback = 0) with
  | some d => some d.name
  | none => (findalldevs host again).head?.map (·.name)

/-- An interface agrees with its record on the flags of the kernel. -/
structure AgreesWith (entry : IntfEntry) (record : Ifaddrs) : Prop where
  loopback : entry.isLoopback ↔ record.Has iffLoopback
  pointopoint : entry.isPointToPoint ↔ record.Has iffPointopoint

/-- The default device and the flags of the interfaces follow the kernel's flags. -/
structure FollowsKernel (host : Host) (records : List Ifaddrs)
    (again : Option (List Ifaddrs)) : Prop where
  /-- The first interface that is not a loopback is the default device. -/
  first : ∀ record, records.find? (fun record => ¬ record.Has iffLoopback) = some record →
    lookupdev host (some records) again = some record.name
  /-- A device of loopbacks is the default only when all are loopbacks. -/
  last : ∀ name, lookupdev host (some records) again = some name →
    (∀ record ∈ records, record.name = name → record.Has iffLoopback) →
    ∀ record ∈ records, record.Has iffLoopback
  entries : List.Forall₂ AgreesWith (interfaceList host (some records)) records

variable {host : Host} {records : List Ifaddrs} {again : Option (List Ifaddrs)}

/-- A device has the loopback flag where its record has the broadcast flag. -/
theorem find?_findalldevs (host : Host) (records : List Ifaddrs) :
    ((findalldevs host (some records)).find? (·.flags &&& intfFlagLoopback = 0)).map (·.name) =
      (records.find? fun record => ¬ record.Has iffBroadcast).map (·.name) := by
  have unflagged (record : Ifaddrs) :
      (unixEntry host record).flags &&& intfFlagLoopback = 0 ↔ ¬ record.Has iffBroadcast := by
    rw [unixEntry_flags, Ifaddrs.Has, not_not]
    exact toUInt16_and_eq_zero_iff record.ifaFlags intfFlagLoopback
  have same : ∀ record ∈ records,
      decide ((unixEntry host record).flags &&& intfFlagLoopback = 0) =
        decide (¬ record.Has iffBroadcast) := by
    intro record _
    exact decide_eq_decide.mpr (unflagged record)
  rw [← List.find?_congr same, findalldevs, interfaceList, unixInterfaces, List.find?_map,
    List.find?_map, Option.map_map, Option.map_map]
  refine Option.map_congr fun record _ => ?_
  exact unixEntry_name host record

/-- **The default device** is the first one that the kernel does not list as a
broadcast interface, if there is one. -/
theorem lookupdev_eq {record : Ifaddrs}
    (first : records.find? (fun record => ¬ record.Has iffBroadcast) = some record) :
    lookupdev host (some records) again = some record.name := by
  have found := find?_findalldevs host records
  rw [first, Option.map_some] at found
  obtain ⟨device, isFirst, named⟩ := Option.map_eq_some_iff.mp found
  unfold lookupdev
  rw [isFirst]
  exact congrArg some named

/-- The flags of the interfaces are the kernel's where the bits are. -/
theorem agreesWith_unixEntry_iff {record : Ifaddrs} :
    AgreesWith (unixEntry host record) record ↔ record.SameBits := by
  constructor
  · intro agrees
    exact ⟨(unixEntry_isLoopback host record).symm.trans agrees.loopback,
      (unixEntry_isPointToPoint host record).symm.trans agrees.pointopoint⟩
  · intro same
    exact ⟨(unixEntry_isLoopback host record).trans same.loopback,
      (unixEntry_isPointToPoint host record).trans same.pointopoint⟩

theorem forall₂_agreesWith_iff :
    List.Forall₂ AgreesWith (interfaceList host (some records)) records ↔
      ∀ record ∈ records, record.SameBits := by
  rw [interfaceList, unixInterfaces, List.forall₂_map_left_iff, List.forall₂_same]
  exact forall₂_congr fun record _ => agreesWith_unixEntry_iff

/-- **Devices and interfaces follow the kernel's flags** exactly when every record
has the broadcast flag where it has the loopback flag, and the debug flag where it
has the point-to-point flag. -/
theorem followsKernel_iff (host : Host) (records : List Ifaddrs) (again : Option (List Ifaddrs)) :
    FollowsKernel host records again ↔ ∀ record ∈ records, record.SameBits := by
  constructor
  · intro follows
    exact forall₂_agreesWith_iff.mp follows.entries
  · intro same
    have first (record : Ifaddrs)
        (isFirst : records.find? (fun record => ¬ record.Has iffLoopback) = some record) :
        lookupdev host (some records) again = some record.name := by
      apply lookupdev_eq
      rw [← isFirst]
      apply List.find?_congr
      intro record member
      exact decide_eq_decide.mpr (not_congr (same record member).loopback)
    refine ⟨first, ?_, forall₂_agreesWith_iff.mpr same⟩
    intro name picked loopbacks
    by_contra notAll
    -- a record that is not a loopback is found, and its name is the one picked
    simp only [not_forall] at notAll
    obtain ⟨other, member, real⟩ := notAll
    have present : ∃ record ∈ records, ¬ record.Has iffLoopback := ⟨other, member, real⟩
    obtain ⟨record, isMember, notLoopback, isFirst⟩ := KeyedRows.exists_find? present
    have named : record.name = name := Option.some.inj ((first record isFirst).symm.trans picked)
    exact notLoopback (loopbacks record isMember named)

/-- A loopback and an Ethernet interface, up and running. -/
def loopbackFirst : List Ifaddrs :=
  [⟨some ['l', 'o'], 0x49, some .other⟩, ⟨some ['e', 't', 'h', '0'], 0x1043, some .other⟩]

/-- The loopback is the default device, although there is another. -/
theorem loopback_looked_up : ¬ ∀ (host : Host) (records : List Ifaddrs)
    (again : Option (List Ifaddrs)), FollowsKernel host records again := by
  intro all
  have follows := all ⟨.linux, .little⟩ loopbackFirst none
  have ethernet : lookupdev ⟨.linux, .little⟩ (some loopbackFirst) none =
      some ['e', 't', 'h', '0'] := follows.first _ rfl
  exact absurd ethernet (by decide)

end Wnr.Pcap
