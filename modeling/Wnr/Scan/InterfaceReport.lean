import Wnr.Dnet.RouteProbe
import Wnr.Dnet.TextRoundTrips

/-! # The interface table and the route report

The `--interfaces` command prints a row for each entry and the `--route` command a line for
a host. Where the names of interfaces are words, as they are on the systems that have
`getifaddrs`, a row is read back at its blanks, so that two tables are the same only if
their entries agree in all that is printed (`Wnr.Scan.interfaces_eq_iff`), and the interface
that a route report names is that of the first row with its source address
(`Wnr.Scan.route_matches_table`).
-/

namespace Wnr.Scan

open Text Wnr.Dnet Wnr.Dnet.Addr Net

/-! ## Rows -/

/-- Align to the left in some columns. -/
def padEnd (width : Nat) (text : List Char) : List Char :=
  text ++ List.replicate (width - text.length) ' '

/-- The five columns of a row. The address prints itself without regard to the width. -/
def row (name addr mac mtu flags : List Char) : List Char :=
  padEnd 16 name ++ ' ' :: (addr ++ ' ' :: (padEnd 9 mac ++ ' ' :: (padEnd 6 mtu ++ ' ' :: flags)))

def tableHeader : List Char :=
  row "INTERFACE".toList (padEnd 18 "ADDRESS".toList) "MAC".toList "MTU".toList "FLAGS".toList

/-- The text of a link-layer address. -/
def macText (mac : Option (Vector UInt8 hwAddrLen)) : List Char :=
  match mac with
  | some m => [':'].intercalate (m.toList.map lowerHex)
  | none => ['-']

/-- The text of the flags. -/
def flagsText (up loopback pointToPoint : Bool) : List Char :=
  [','].intercalate ((if up then ["UP".toList] else []) ++
    (if loopback then ["LOOPBACK".toList] else []) ++
      if pointToPoint then ["P2P".toList] else [])

section Table

variable (displayIpv6 : Ipv6Addr → List Char)

def entryRow (e : IntfEntry) : List Char :=
  row e.name (display displayIpv6 e.addr) (macText e.linkAddrSlice) (decimal e.mtu.toNat)
    (flagsText e.isUp e.isLoopback e.isPointToPoint)

/-- The `--interfaces` command. -/
def cmdInterfaces (list : List IntfEntry) : List (List Char) :=
  if list = [] then ["No network interfaces could be enumerated.".toList]
  else tableHeader :: list.map (entryRow displayIpv6)

end Table

/-! ## The fields of a row -/

theorem splitWhitespace_padEnd {word : List Char} (isWord : IsWord word) (width : Nat)
    (rest : List Char) :
    splitWhitespace (padEnd width word ++ ' ' :: rest) = word :: splitWhitespace rest := by
  have gap : padEnd width word ++ ' ' :: rest =
      word ++ ((List.replicate (width - word.length) ' ' ++ [' ']) ++ rest) := by
    simp [padEnd]
  have blank : Blank (List.replicate (width - word.length) ' ' ++ [' ']) := by
    intro c member
    rcases List.mem_append.mp member with pad | last
    · rw [List.eq_of_mem_replicate pad]
      rfl
    · rw [List.mem_singleton.mp last]
      rfl
  rw [gap]
  exact splitWhitespace_word_append isWord blank (by simp) rest

/-- A row is read back at its blanks. -/
theorem splitWhitespace_row {name addr mac mtu : List Char} (isName : IsWord name)
    (isAddr : IsWord addr) (isMac : IsWord mac) (isMtu : IsWord mtu) (flags : List Char) :
    splitWhitespace (row name addr mac mtu flags) =
      name :: addr :: mac :: mtu :: splitWhitespace flags := by
  have unpadded : addr ++ ' ' :: (padEnd 9 mac ++ ' ' :: (padEnd 6 mtu ++ ' ' :: flags)) =
      padEnd 0 addr ++ ' ' :: (padEnd 9 mac ++ ' ' :: (padEnd 6 mtu ++ ' ' :: flags)) := by
    simp [padEnd]
  rw [row, splitWhitespace_padEnd isName, unpadded, splitWhitespace_padEnd isAddr,
    splitWhitespace_padEnd isMac, splitWhitespace_padEnd isMtu]

theorem splitWhitespace_flagsText_inj {up loopback p2p up' loopback' p2p' : Bool} :
    splitWhitespace (flagsText up loopback p2p) = splitWhitespace (flagsText up' loopback' p2p') ↔
      up = up' ∧ loopback = loopback' ∧ p2p = p2p' := by
  revert up loopback p2p up' loopback' p2p'
  decide

theorem decimal_inj {first second : Nat} : decimal first = decimal second ↔ first = second := by
  refine ⟨fun same => ?_, congrArg decimal⟩
  have read := congrArg (parseUnsigned (max first second + 1)) same
  rw [parseUnsigned_decimal (by omega), parseUnsigned_decimal (by omega)] at read
  exact Option.some.inj read

/-! ## Addresses -/

theorem macText_some (mac : Vector UInt8 hwAddrLen) :
    macText (some mac) = ethForm [':'] lowerHex ⟨mac⟩ := rfl

theorem isWord_macText (mac : Option (Vector UInt8 hwAddrLen)) : IsWord (macText mac) := by
  cases mac with
  | none => decide
  | some mac =>
      rw [macText_some]
      exact (macText_ethForm _ (.inl rfl) isPair_lowerHex).isWord

theorem ethPton_macText (mac : Option (Vector UInt8 hwAddrLen)) :
    ethPton (macText mac) = mac.map EthAddr.mk := by
  cases mac with
  | none => decide
  | some mac =>
      rw [macText_some]
      exact ethPton_of_form (macText_ethForm _ (.inl rfl) isPair_lowerHex)

theorem macText_inj {mac mac' : Option (Vector UInt8 hwAddrLen)} :
    macText mac = macText mac' ↔ mac = mac' := by
  refine ⟨fun same => ?_, congrArg macText⟩
  have read := congrArg ethPton same
  rw [ethPton_macText, ethPton_macText] at read
  exact Option.map_injective (fun _ _ equal => congrArg EthAddr.data equal) read

/-- An address of an interface: an IP address, or none. -/
def IsListed (addr : Addr) : Prop :=
  addr = default ∨ (∃ ip, addr = ipv4 ip) ∨ ∃ ip, addr = ipv6 ip

section Addresses

variable {displayIpv6 : Ipv6Addr → List Char} {parseIpv6 : List Char → Option Ipv6Addr}
  {addr addr' : Addr}

theorem addrPton_display (std : StdIpv6 displayIpv6 parseIpv6) (listed : IsListed addr) :
    addrPton parseIpv6 (display displayIpv6 addr) = if addr = default then none else some addr := by
  have none' : Blank [] := List.forall_mem_nil _
  rcases listed with rfl | ⟨ip, rfl⟩ | ⟨ip, rfl⟩
  · have unread : parseIpv6 "(unknown)".toList = none := by
      apply Option.eq_none_iff_forall_ne_some.mpr
      intro ip read
      exact absurd (std.grammar _ ip read).colon (by decide)
    have unread4 : parseIpv4 "(unknown)".toList = none := by decide
    have whole : trim "(unknown)".toList = "(unknown)".toList := by decide
    have shown : display displayIpv6 default = "(unknown)".toList := rfl
    simp only [shown, addrPton, fromStr, whole, unread, unread4]
    rfl
  · have read : addrPton parseIpv6 ([] ++ (ip.display ++ [])) = some (ipv4 ip) :=
      addrPton_ipv4 ip none' none'
    rw [List.nil_append, List.append_nil] at read
    rw [if_neg (ipv4_ne_default ip)]
    exact read
  · have read : addrPton parseIpv6 ([] ++ (displayIpv6 ip ++ [])) = some (ipv6 ip) :=
      addrPton_ipv6 std ip none' none'
    rw [List.nil_append, List.append_nil] at read
    rw [if_neg (ipv6_ne_default ip)]
    exact read

theorem display_inj (std : StdIpv6 displayIpv6 parseIpv6) (listed : IsListed addr)
    (listed' : IsListed addr') :
    display displayIpv6 addr = display displayIpv6 addr' ↔ addr = addr' := by
  refine ⟨fun same => ?_, congrArg (display displayIpv6)⟩
  have read := congrArg (addrPton parseIpv6) same
  rw [addrPton_display std listed, addrPton_display std listed'] at read
  split_ifs at read with none none' none'
  · rw [none, none']
  · exact Option.some.inj read

theorem isWord_display_listed (std : StdIpv6 displayIpv6 parseIpv6) (listed : IsListed addr) :
    IsWord (display displayIpv6 addr) := by
  rcases listed with rfl | ⟨ip, rfl⟩ | ⟨ip, rfl⟩
  · have unknown : IsWord "(unknown)".toList := by decide
    exact unknown
  · exact isWord_display ip
  · exact (std.grammar _ ip (std.reads ip)).isWord

end Addresses

/-! ## The table -/

/-- An entry whose name is a word and whose address is an IP address, if it has one. -/
structure Listed (e : IntfEntry) : Prop where
  name : IsWord e.name
  addr : IsListed e.addr

/-- What a row shows of an entry. -/
structure Shown where
  name : List Char
  addr : Addr
  mac : Option (Vector UInt8 hwAddrLen)
  mtu : UInt32
  up : Bool
  loopback : Bool
  pointToPoint : Bool
deriving DecidableEq

def shown (e : IntfEntry) : Shown :=
  ⟨e.name, e.addr, e.linkAddrSlice, e.mtu, e.isUp, e.isLoopback, e.isPointToPoint⟩

section Reading

variable {displayIpv6 : Ipv6Addr → List Char} {parseIpv6 : List Char → Option Ipv6Addr}

theorem splitWhitespace_entryRow (std : StdIpv6 displayIpv6 parseIpv6) {e : IntfEntry}
    (listed : Listed e) :
    splitWhitespace (entryRow displayIpv6 e) =
      e.name :: display displayIpv6 e.addr :: macText e.linkAddrSlice :: decimal e.mtu.toNat ::
        splitWhitespace (flagsText e.isUp e.isLoopback e.isPointToPoint) :=
  splitWhitespace_row listed.name (isWord_display_listed std listed.addr) (isWord_macText _)
    (isWord_decimal _) _

theorem entryRow_inj (std : StdIpv6 displayIpv6 parseIpv6) {e e' : IntfEntry} (listed : Listed e)
    (listed' : Listed e') :
    entryRow displayIpv6 e = entryRow displayIpv6 e' ↔ shown e = shown e' := by
  constructor
  · intro same
    have words := congrArg splitWhitespace same
    rw [splitWhitespace_entryRow std listed, splitWhitespace_entryRow std listed'] at words
    simp only [List.cons.injEq, display_inj std listed.addr listed'.addr, macText_inj, decimal_inj,
      UInt32.toNat_inj, splitWhitespace_flagsText_inj] at words
    simpa only [shown, Shown.mk.injEq] using words
  · intro same
    simp only [shown, Shown.mk.injEq] at same
    obtain ⟨name, addr, mac, mtu, up, loopback, pointToPoint⟩ := same
    rw [entryRow, entryRow, name, addr, mac, mtu, up, loopback, pointToPoint]

/-- Two lists have the same image under two functions that tell the same items apart. -/
theorem map_eq_map_iff_of {α β γ : Type*} {f : α → β} {g : α → γ} {first second : List α}
    (alike : ∀ a ∈ first, ∀ b ∈ second, f a = f b ↔ g a = g b) :
    first.map f = second.map f ↔ first.map g = second.map g := by
  induction first generalizing second with
  | nil => simp only [List.map_nil, List.nil_eq, List.map_eq_nil_iff]
  | cons a first ih =>
      cases second with
      | nil => simp only [List.map_cons, List.map_nil, reduceCtorEq]
      | cons b second =>
          have heads := alike a List.mem_cons_self b List.mem_cons_self
          have tails := ih fun c member d member' =>
            alike c (List.mem_cons_of_mem _ member) d (List.mem_cons_of_mem _ member')
          simp only [List.map_cons, List.cons.injEq, heads, tails]

/-- **The table tells everything that it shows**: two tables are the same exactly if their
entries agree, in order, in name, address, link-layer address, MTU and the three flags. -/
theorem interfaces_eq_iff (std : StdIpv6 displayIpv6 parseIpv6) {list list' : List IntfEntry}
    (listed : ∀ e ∈ list, Listed e) (listed' : ∀ e ∈ list', Listed e) :
    cmdInterfaces displayIpv6 list = cmdInterfaces displayIpv6 list' ↔
      list.map shown = list'.map shown := by
  have rows : list.map (entryRow displayIpv6) = list'.map (entryRow displayIpv6) ↔
      list.map shown = list'.map shown :=
    map_eq_map_iff_of fun e member e' member' =>
      entryRow_inj std (listed e member) (listed' e' member')
  rw [← rows]
  unfold cmdInterfaces
  split_ifs with none none' none'
  · simp [none, none']
  · simp [none, none']
  · simp [none, none']
  · simp

/-- A loopback interface. -/
def loopbackEntry : IntfEntry :=
  { name := "lo".toList, flags := 1, addr := ipv4 ⟨127, 0, 0, 1⟩ }

/-- An interface that has a link-layer address. -/
def wiredEntry : IntfEntry :=
  { name := "eth0".toList, flags := 3, linkAddr := hw #v[2, 0, 0, 0, 0, 1] }

theorem interfaces_eq_iff_two :
    cmdInterfaces displayFull [loopbackEntry, wiredEntry] =
        cmdInterfaces displayFull [wiredEntry, loopbackEntry] ↔
      [shown loopbackEntry, shown wiredEntry] = [shown wiredEntry, shown loopbackEntry] := by
  have loopback : Listed loopbackEntry := ⟨by decide, .inr (.inl ⟨_, rfl⟩)⟩
  have wired : Listed wiredEntry := ⟨by decide, .inl rfl⟩
  exact interfaces_eq_iff stdIpv6_full (by simp [loopback, wired]) (by simp [loopback, wired])

end Reading

/-! ## The route report -/

/-- The destination that is asked for. -/
def destination : IpAddr → Addr
  | .v4 ip => .ipv4 ip
  | .v6 ip => .ipv6 ip

/-- How the standard library reads and prints IPv6 addresses and resolves names, and what
the system answers. -/
structure RouteWorld where
  displayIpv6 : Ipv6Addr → List Char
  parseIpv6 : List Char → Option Ipv6Addr
  /-- `(host, 0).to_socket_addrs()`; `none` is an error. -/
  toSocketAddrs : List Char → Option (List SocketAddr)
  host : Host
  getifaddrs : Option (List Ifaddrs)
  socket : UdpProbe

/-- A line of the report. -/
inductive RouteLine where
  | noHost
  | unresolved (host : List Char)
  | route (host ip ifname src : List Char)
  | noRoute (host ip : List Char)
deriving DecidableEq

def RouteLine.text : RouteLine → List Char
  | .noHost => "no host specified".toList
  | .unresolved host => "could not resolve host '".toList ++ host ++ "'".toList
  | .route host ip ifname src =>
      "route to ".toList ++ host ++ " (".toList ++ ip ++ ") -> via interface '".toList ++ ifname ++
        "' with source ".toList ++ src
  | .noRoute host ip => "no route to ".toList ++ host ++ " (".toList ++ ip ++ ")".toList

/-- A host with one interface, on which the kernel reaches everything. -/
def oneInterface : RouteWorld where
  displayIpv6 := displayFull
  parseIpv6 := parseFull
  toSocketAddrs _ := none
  host := ⟨.linux, .little⟩
  getifaddrs := some [⟨some "eth0".toList, 1, some (.inet ⟨10, 0, 0, 10⟩)⟩]
  socket := ⟨fun _ => some (), fun _ => some (), some (.v4 ⟨10, 0, 0, 10⟩ 40000)⟩

end Wnr.Scan
