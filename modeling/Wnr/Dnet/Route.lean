import Wnr.Dnet.Addr
import Wnr.Foundation.BestMatch
import Wnr.Foundation.Histories
import Wnr.Foundation.KeyedRows

/-! # The routing table

A table of routes in the order in which they were added, at most one for each
destination as it is written: `add` and `delete` compare destinations with all
their bytes, and only `add_dev` clears the host bits first. A lookup compares
networks and takes the longest prefix.
-/

namespace Wnr.Dnet

open KeyedRows

/-- A single routing-table entry. -/
structure RouteEntry where
  /-- Destination address, with the prefix length in `addrBits`. -/
  dst : Addr
  /-- Gateway (next-hop) address. -/
  gw : Addr
deriving DecidableEq

/-- An in-memory routing table. -/
structure RouteTable where
  entries : List RouteEntry
  distinct : Distinct RouteEntry.dst entries

/-- The address lies within the network: same family, matching prefix bits. -/
def netContains (net addr : Addr) : Bool :=
  if net.addrType ≠ addr.addrType ∨ net.addrType = addrTypeNone then false
  else
    let netNet := net.network
    let addrNet := { addr with addrBits := net.addrBits }.network
    netNet.data = addrNet.data

namespace RouteTable

def new : RouteTable := ⟨[], .nil _⟩

theorem withGateway_eq (entry old : RouteEntry) (same : old.dst = entry.dst) :
    { old with gw := entry.gw } = entry := by
  rw [same]

/-- Add or replace a route. -/
def add (self : RouteTable) (entry : RouteEntry) : RouteTable where
  entries := upsert RouteEntry.dst ({ · with gw := entry.gw }) entry self.entries
  distinct := self.distinct.upsert (withGateway_eq entry)

/-- Add a route bound to a device: it is stored with its destination network. -/
def addDev (self : RouteTable) (entry : RouteEntry) : RouteTable :=
  self.add { entry with dst := entry.dst.network }

/-- Delete a route by destination. -/
def delete (self : RouteTable) (dst : Addr) : RouteTable where
  entries := erase RouteEntry.dst dst self.entries
  distinct := self.distinct.erase dst

/-- The entries that the lookup of a destination chooses from. -/
def candidates (self : RouteTable) (dst : Addr) : List RouteEntry :=
  (self.entries.filter (dst.addrType = ·.dst.addrType)).filter (netContains ·.dst dst)

/-- The most specific matching entry. -/
def get (self : RouteTable) (dst : Addr) : Option RouteEntry :=
  BestMatch.maxByKey (·.dst.addrBits.toNat) (self.candidates dst)

def len (self : RouteTable) : Nat := self.entries.length

def isEmpty (self : RouteTable) : Bool := self.entries.isEmpty

variable {self : RouteTable} {entry other : RouteEntry} {dst : Addr}

theorem mem_add : other ∈ (self.add entry).entries ↔
    other = entry ∨ other ∈ self.entries ∧ other.dst ≠ entry.dst :=
  mem_upsert (withGateway_eq entry) self.distinct

theorem mem_delete :
    other ∈ (self.delete dst).entries ↔ other ∈ self.entries ∧ other.dst ≠ dst := mem_erase

theorem mem_candidates :
    entry ∈ self.candidates dst ↔ entry ∈ self.entries ∧ netContains entry.dst dst = true := by
  rw [candidates, List.mem_filter, List.mem_filter, decide_eq_true_iff, and_assoc]
  refine and_congr_right fun _ => and_iff_right_of_imp fun contains => ?_
  by_contra other
  rw [netContains, if_pos (.inl (Ne.symm other))] at contains
  exact Bool.false_ne_true contains

end RouteTable

/-! ## Histories of a table -/

/-- The operations that change a table. -/
inductive RouteOp
  | add (entry : RouteEntry)
  | addDev (entry : RouteEntry)
  | delete (dst : Addr)
deriving DecidableEq

namespace RouteOp

/-- The entry that an operation is called with. -/
def entry : RouteOp → Option RouteEntry
  | .add entry | .addDev entry => some entry
  | .delete _ => none

/-- The entry as it is stored. -/
def stored : RouteOp → Option RouteEntry
  | .add entry => some entry
  | .addDev entry => some { entry with dst := entry.dst.network }
  | .delete _ => none

end RouteOp

namespace RouteTable

def perform (self : RouteTable) : RouteOp → RouteTable
  | .add entry => self.add entry
  | .addDev entry => self.addDev entry
  | .delete dst => self.delete dst

/-- The table that a sequence of operations reaches. -/
def run (ops : List RouteOp) : RouteTable := ops.foldl perform new

theorem run_concat (ops : List RouteOp) (op : RouteOp) :
    run (ops ++ [op]) = (run ops).perform op :=
  List.foldl_concat perform new op ops

variable {self : RouteTable} {op : RouteOp} {entry : RouteEntry}

/-- An addition is an addition of what it stores. -/
theorem perform_of_stored (stores : op.stored = some entry) :
    self.perform op = self.add entry := by
  cases op with
  | add added => exact congrArg self.add (Option.some.inj stores)
  | addDev added => exact congrArg self.add (Option.some.inj stores)
  | delete dst => cases stores

/-- Every entry of a table was there before an operation or is stored by it. -/
theorem mem_perform (member : entry ∈ (self.perform op).entries) :
    entry ∈ self.entries ∨ op.stored = some entry := by
  cases stores : op.stored with
  | some added =>
      rw [perform_of_stored stores, mem_add] at member
      rcases member with same | ⟨old, -⟩
      · exact .inr (congrArg some same.symm)
      · exact .inl old
  | none =>
      cases op with
      | add added => cases stores
      | addDev added => cases stores
      | delete dst => exact .inl (mem_delete.mp member).1

/-- **Runs.** Every entry of a table that is reached was stored by an operation. -/
theorem stored_of_mem_run {ops : List RouteOp} (member : entry ∈ (run ops).entries) :
    ∃ op ∈ ops, op.stored = some entry := by
  induction ops using List.reverseRecOn with
  | nil => cases member
  | append_singleton ops op ih =>
      rw [run_concat] at member
      rcases mem_perform member with earlier | stored
      · obtain ⟨op', known, stored⟩ := ih earlier
        exact ⟨op', List.mem_append_left [op] known, stored⟩
      · exact ⟨op, List.mem_append_right ops (List.mem_singleton_self op), stored⟩

end RouteTable

end Wnr.Dnet
