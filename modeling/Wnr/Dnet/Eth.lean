import Wnr.Dnet.Addr

/-! # Ethernet addresses -/

namespace Wnr.Dnet

open Text

abbrev ethAddrLen : Nat := 6

/-- An Ethernet hardware address. -/
structure EthAddr where
  data : Vector UInt8 ethAddrLen
deriving DecidableEq

/-- An Ethernet address has six octets. -/
theorem exists_six {α : Type} (octets : Vector α ethAddrLen) :
    ∃ a b c d e f, octets = #v[a, b, c, d, e, f] :=
  ⟨octets[0], octets[1], octets[2], octets[3], octets[4], octets[5], by
    refine Vector.ext fun i inside => ?_
    match i, inside with
    | 0, _ | 1, _ | 2, _ | 3, _ | 4, _ | 5, _ => rfl⟩

/-- Octets in hexadecimal with colons between them. -/
def hexOctets (bytes : List UInt8) : List Char :=
  bytes.zipIdx.flatMap fun (b, i) => (if i > 0 then [':'] else []) ++ lowerHex b

/-- The loop puts a colon before every octet but the first. -/
theorem hexOctets_eq (bytes : List UInt8) :
    hexOctets bytes = [':'].intercalate (bytes.map lowerHex) := by
  have later (rest : List UInt8) (start : Nat) :
      ((rest.zipIdx (start + 1)).flatMap fun (b, i) =>
        (if i > 0 then [':'] else []) ++ lowerHex b) =
          (rest.map lowerHex).flatMap ([':'] ++ ·) := by
    induction rest generalizing start with
    | nil => rfl
    | cons b rest ih =>
        rw [List.zipIdx_cons, List.flatMap_cons, List.map_cons, List.flatMap_cons, ih]
        rfl
  cases bytes with
  | nil => rfl
  | cons first rest =>
      rw [hexOctets, List.zipIdx_cons, List.flatMap_cons, later, List.map_cons,
        intercalate_cons_eq]
      rfl

/-- Format a MAC address as text. -/
def ethNtop (addr : EthAddr) : List Char := hexOctets addr.data.toList

/-- Six octets between separators. -/
def ethOctets (sep : Char) (s : List Char) : Option EthAddr :=
  match s.splitOn sep with
  | [a, b, c, d, e, f] => do
      return ⟨#v[← parseHexU8 a, ← parseHexU8 b, ← parseHexU8 c, ← parseHexU8 d, ← parseHexU8 e,
        ← parseHexU8 f]⟩
  | _ => none

/-- An octet of two digits. -/
def hexOctet (hi lo : Char) : Option UInt8 := do
  return (← parseHexU8 [hi]) <<< 4 ||| (← parseHexU8 [lo])

/-- Parse a MAC address from text, accepting `:` or `-` separators, or twelve digits. -/
def ethPton (s : List Char) : Option EthAddr :=
  let s := trim s
  if ':' ∈ s then ethOctets ':' s
  else if '-' ∈ s then ethOctets '-' s
  else
    -- whatever is not a digit is skipped
    match s.filter fun c => (hexDigit c).isSome with
    | [a, a', b, b', c, c', d, d', e, e', f, f'] => do
        return ⟨#v[← hexOctet a a', ← hexOctet b b', ← hexOctet c c', ← hexOctet d d',
          ← hexOctet e e', ← hexOctet f f']⟩
    | _ => none

end Wnr.Dnet
