import Mathlib.Data.UInt

/-! # Datalink types

The link types whose header length the filter compiler distinguishes.
-/

namespace Wnr.Pcap

abbrev dltNull : Int32 := 0
abbrev dltEn10mb : Int32 := 1
abbrev dltRaw : Int32 := 12
abbrev dltLoop : Int32 := 108
abbrev dltLinuxSll : Int32 := 113
abbrev dltIeee80211Radio : Int32 := 127
abbrev dltIpv4 : Int32 := 228
abbrev dltIpv6 : Int32 := 229

/-- The offset from the start of a captured frame to the start of the IP header
for a given datalink type. -/
def linkHeaderLen (dlt : Int32) : Nat :=
  if dlt = dltEn10mb then 14
  else if dlt = dltLinuxSll then 16
  else if dlt = dltIeee80211Radio then 32
  else if dlt = dltRaw ∨ dlt = dltIpv4 ∨ dlt = dltIpv6 ∨ dlt = dltLoop ∨ dlt = dltNull then 0
  else 14

end Wnr.Pcap
