import Wnr.Dnet.Eth

/-! # Addresses as text

What reads and prints IPv6 addresses is the standard library's, a parameter here.
-/

namespace Wnr.Dnet

open Text Net

namespace Addr

variable (parseIpv6 : List Char → Option Ipv6Addr)

/-- Parse an address from text. Accepts IPv4, IPv6, and Ethernet MAC. -/
def fromStr (s : List Char) : Except (List Char) Addr :=
  let s := trim s
  match parseIpv4 s with
  | some ip => .ok (ipv4 ip)
  | none =>
    match parseIpv6 s with
    | some ip => .ok (ipv6 ip)
    | none =>
      match if ':' ∈ s then ethPton s else none with
      | some eth => .ok (hw eth.data)
      | none => .error ("could not parse address '".toList ++ s ++ "'".toList)

/-- Parse an address from text. -/
def addrPton (s : List Char) : Option Addr := (fromStr parseIpv6 s).toOption

variable (displayIpv6 : Ipv6Addr → List Char)

/-- An address as it is printed. -/
def display (self : Addr) : List Char :=
  if self.addrType = addrTypeIp then (self.toIpv4.getD ⟨0, 0, 0, 0⟩).display
  else if self.addrType = addrTypeIp6 then
    displayIpv6 (self.toIpv6.getD (Vector.replicate ip6AddrLen 0))
  else if self.addrType = addrTypeHw then hexOctets (self.data.toList.take hwAddrLen)
  else "(unknown)".toList

/-- Convert an address to text. -/
def addrNtoa (a : Addr) : List Char := display displayIpv6 a

/-- What is read is an address of one of the three families. -/
theorem fromStr_cases {parseIpv6 : List Char → Option Ipv6Addr} {s : List Char} {addr : Addr}
    (read : fromStr parseIpv6 s = .ok addr) :
    (∃ ip, addr = ipv4 ip) ∨ (∃ ip, addr = ipv6 ip) ∨ ∃ bytes, addr = hw bytes := by
  unfold fromStr at read
  simp only at read
  split at read
  · exact .inl ⟨_, (Except.ok.inj read).symm⟩
  · split at read
    · exact .inr (.inl ⟨_, (Except.ok.inj read).symm⟩)
    · split at read
      · exact .inr (.inr ⟨_, (Except.ok.inj read).symm⟩)
      · cases read

end Addr

end Wnr.Dnet
