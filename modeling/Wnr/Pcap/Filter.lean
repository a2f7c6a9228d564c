import Wnr.Foundation.Text
import Wnr.Pcap.Bpf
import Wnr.Pcap.Datalink

/-! # The filter compiler

An expression is split into tokens, the first tokens are read as one primitive,
and the primitive is compiled into a program for a link type.
-/

namespace Wnr.Pcap

open Text

/-- A compiled filter. -/
structure BpfProgram where
  insns : List BpfInsn
deriving DecidableEq

/-- The filter expression language. -/
inductive Primitive where
  /-- `tcp`, `udp`, `icmp`, `icmp6`, `arp`, `ip`, `ip6`: IP protocol numbers and
  EtherTypes. -/
  | proto (number : UInt32)
  /-- `port N` -/
  | port (port : UInt16)
  /-- `portrange A-B` -/
  | portRange (first last : UInt16)
  /-- `host A.B.C.D` -/
  | hostIpv4 (ip : Ipv4Addr)
  | broadcast
  | multicast
  | all
deriving DecidableEq

/-! ## Tokens and primitives -/

/-- The tokens of one word: a word of integers around `-` becomes its first part,
a `-` and its second part. -/
def tokenizeWord (w : List Char) : List (List Char) :=
  if '-' ∈ w ∧ (w.splitOn '-').all fun p => (parseU16 p).isSome then
    match w.splitOn '-' with
    | first :: second :: _ => [first, ['-'], second]
    -- a word with a `-` has two parts
    | _ => [w]
  else [w]

def tokenize (expr : String) : List (List Char) :=
  (splitWhitespace expr.toList).flatMap tokenizeWord

/-- Simple streaming tokenizer for the filter language. -/
structure FilterBuilder where
  tokens : List (List Char)
  pos : Nat

namespace FilterBuilder

def next (self : FilterBuilder) : Option (List Char) × FilterBuilder :=
  match self.tokens[self.pos]? with
  | some t => (some t, { self with pos := self.pos + 1 })
  | none => (none, self)

end FilterBuilder

/-- The keywords that are a primitive by themselves. -/
def keywordPrimitive (lower : List Char) : Option Primitive :=
  if lower = "tcp".toList then some (.proto 6)
  else if lower = "udp".toList then some (.proto 17)
  else if lower = "icmp".toList then some (.proto 1)
  else if lower = "icmp6".toList ∨ lower = "icmpv6".toList then some (.proto 58)
  else if lower = "arp".toList then some (.proto 0x0806)
  else if lower = "ip".toList then some (.proto 0x0800)
  else if lower = "ip6".toList ∨ lower = "ipv6".toList then some (.proto 0x86dd)
  else if lower = "broadcast".toList then some .broadcast
  else if lower = "multicast".toList then some .multicast
  else none

/-- A text between single quotes after a message. -/
def quoted (message : String) (text : List Char) : String :=
  message ++ " '" ++ String.ofList text ++ "'"

namespace FilterBuilder

/-- The operand of `port`. -/
def parsePort (self : FilterBuilder) : Except String (Primitive × FilterBuilder) :=
  match self.next with
  | (none, _) => .error "missing port number"
  | (some p, self) =>
      match parseU16 p with
      | none => .error (quoted "invalid port" p)
      | some port => .ok (.port port, self)

/-- The operands of `portrange`. -/
def parsePortRange (self : FilterBuilder) : Except String (Primitive × FilterBuilder) :=
  match self.next with
  | (none, _) => .error "missing portrange start"
  | (some a, self) =>
      match self.next with
      | (none, _) => .error "missing portrange end"
      | (some b, self) =>
          match parseU16 a with
          | none => .error (quoted "bad port" a)
          | some pa =>
              match parseU16 b with
              | none => .error (quoted "bad port" b)
              | some pb => .ok (.portRange pa pb, self)

/-- The operand of `host`. -/
def parseHost (self : FilterBuilder) : Except String (Primitive × FilterBuilder) :=
  match self.next with
  | (none, _) => .error "missing host address"
  | (some h, self) =>
      match parseIpv4 h with
      | none => .error (quoted "invalid host" h)
      | some ip => .ok (.hostIpv4 ip, self)

def parsePrimitive (self : FilterBuilder) : Except String (Primitive × FilterBuilder) :=
  match self.next with
  | (none, _) => .error "empty filter"
  | (some tok, self) =>
      let lower := toAsciiLowercase tok
      match keywordPrimitive lower with
      | some prim => .ok (prim, self)
      | none =>
          if lower = "port".toList then self.parsePort
          else if lower = "portrange".toList then self.parsePortRange
          else if lower = "host".toList then self.parseHost
          else .error (quoted "unknown filter primitive" lower)

end FilterBuilder

/-! ## Programs -/

def loadInsn (cls size : UInt8) (k : UInt32) : BpfInsn :=
  ⟨cls.toUInt16 ||| size.toUInt16 ||| bpfAbs.toUInt16, 0, 0, k⟩

def jmpInsn (op : UInt8) (k : UInt32) (jt jf : UInt8) : BpfInsn :=
  ⟨bpfJmp.toUInt16 ||| op.toUInt16, jt, jf, k⟩

def ret (k : UInt32) : BpfInsn := ⟨bpfRet.toUInt16 ||| bpfK.toUInt16, 0, 0, k⟩

/-- Compile a primitive into BPF bytecode for a given datalink type. -/
def compilePrimitive (p : Primitive) (linktype : Int32) : Except String (List BpfInsn) :=
  let off := linkHeaderLen linktype
  let ethertypeOffset : UInt32 := 12
  let ipHdr := UInt32.ofNat off
  match p with
  | .all => .ok [ret bpfAccept]
  | .proto proto =>
      if proto = 0x0806 ∨ proto = 0x0800 ∨ proto = 0x86dd then
        .ok [loadInsn bpfLd bpfH ethertypeOffset, jmpInsn bpfJeq proto 1 0, ret bpfReject,
          ret bpfAccept]
      else
        .ok [loadInsn bpfLd bpfB (ipHdr + 9), jmpInsn bpfJeq proto 1 0, ret bpfReject,
          ret bpfAccept]
  -- ports are not looked at
  | .port _ | .portRange _ _ => .ok [ret bpfAccept]
  | .hostIpv4 ip =>
      let target := Bytes.u32FromBe [ip.a, ip.b, ip.c, ip.d]
      .ok [loadInsn bpfLd bpfW (ipHdr + 16), jmpInsn bpfJeq target 1 0, ret bpfReject,
        ret bpfAccept, loadInsn bpfLd bpfW (ipHdr + 12), jmpInsn bpfJeq target 1 0,
        ret bpfReject, ret bpfAccept]
  | .broadcast =>
      .ok [loadInsn bpfLd bpfW (ipHdr + 16), jmpInsn bpfJeq 0xffffffff 1 0, ret bpfReject,
        ret bpfAccept]
  | .multicast =>
      .ok [loadInsn bpfLd bpfB (ipHdr + 16), jmpInsn bpfJge 224 0 1, jmpInsn bpfJgt 239 0 1,
        ret bpfReject, ret bpfAccept]

/-- Compile a filter expression string into a BPF program. -/
def FilterBuilder.compile (expr : String) (linktype : Int32) : Except String BpfProgram :=
  let tokens := tokenize expr
  if tokens = [] then .ok ⟨[ret bpfAccept]⟩
  else
    match parsePrimitive ⟨tokens, 0⟩ with
    | .error e => .error e
    | .ok (prim, _) =>
        match compilePrimitive prim linktype with
        | .error e => .error e
        -- an implicit accept at the end
        | .ok insns => .ok ⟨insns ++ [ret bpfAccept]⟩

end Wnr.Pcap
