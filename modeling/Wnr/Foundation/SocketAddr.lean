import Wnr.Foundation.Text

/-! # Socket addresses

The addresses of the standard library: an IP address of either family, and one with a port.
-/

namespace Net

open Text

/-- The octets of an IPv6 address. -/
abbrev Ipv6Addr := Vector UInt8 16

/-- An IP address of either family. -/
inductive IpAddr where
  | v4 (ip : Ipv4Addr)
  | v6 (ip : Ipv6Addr)
deriving DecidableEq

/-- An IP address and a port. -/
inductive SocketAddr where
  | v4 (ip : Ipv4Addr) (port : UInt16)
  | v6 (ip : Ipv6Addr) (port : UInt16) (flowinfo scopeId : UInt32)
deriving DecidableEq

namespace SocketAddr

/-- `SocketAddr::new`. -/
def new (ip : IpAddr) (port : UInt16) : SocketAddr :=
  match ip with
  | .v4 ip => .v4 ip port
  | .v6 ip => .v6 ip port 0 0

/-- `SocketAddr::ip`. -/
def ip : SocketAddr → IpAddr
  | .v4 ip _ => .v4 ip
  | .v6 ip _ _ _ => .v6 ip

end SocketAddr

end Net
