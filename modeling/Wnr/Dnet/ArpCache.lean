import Wnr.Dnet.Addr
import Wnr.Foundation.MapHistory

/-! # The ARP cache

A cache of hardware addresses, one for each protocol address, in the order in which the
protocol addresses were added. After any additions and deletions it holds what the finite
map with the same history holds (`Wnr.Dnet.ArpCache.refines_run`).
-/

namespace Wnr.Dnet

open KeyedRows MapHistory

/-- A mapping of a protocol address to a hardware address. -/
structure ArpEntry where
  /-- Protocol (IP) address. -/
  pa : Addr
  /-- Hardware (Ethernet) address. -/
  ha : Addr
deriving DecidableEq

/-- An in-memory ARP cache. -/
structure ArpCache where
  entries : List ArpEntry
  distinct : Distinct ArpEntry.pa entries

namespace ArpCache

def new : ArpCache := ⟨[], .nil _⟩

theorem withHardware_eq (entry old : ArpEntry) (same : old.pa = entry.pa) :
    { old with ha := entry.ha } = entry := by
  rw [same]

/-- Add or replace an entry. -/
def add (self : ArpCache) (entry : ArpEntry) : ArpCache where
  entries := upsert ArpEntry.pa ({ · with ha := entry.ha }) entry self.entries
  distinct := self.distinct.upsert (withHardware_eq entry)

/-- Delete an entry by protocol address. -/
def delete (self : ArpCache) (pa : Addr) : ArpCache where
  entries := erase ArpEntry.pa pa self.entries
  distinct := self.distinct.erase pa

/-- Look up the hardware address for a protocol address. -/
def get (self : ArpCache) (pa : Addr) : Option ArpEntry :=
  self.entries.find? (·.pa = pa)

def len (self : ArpCache) : Nat := self.entries.length

def isEmpty (self : ArpCache) : Bool := self.entries.isEmpty

/-! ## Histories of a cache -/

/-- An operation that changes a cache: to put is to add, to remove is to delete. -/
abbrev ArpOp := MapOp Addr Addr

def perform (self : ArpCache) : ArpOp → ArpCache
  | .put pa ha => self.add ⟨pa, ha⟩
  | .remove pa => self.delete pa

/-- The cache after a history of operations on the empty one. -/
def run (ops : List ArpOp) : ArpCache := ops.foldl perform new

/-- The cache holds what the map with a history holds: each address the hardware address
that was added last and not deleted, one entry for each address, in the order in which they
were first added since their last deletion; and the next operation changes one address. -/
structure Refines (self : ArpCache) (ops : List ArpOp) : Prop where
  found : ∀ pa entry, self.get pa = some entry ↔ entry.pa = pa ∧ LastPut ops pa entry.ha
  missing : ∀ pa, self.get pa = none ↔ ∀ ha, ¬ LastPut ops pa ha
  distinct : (self.entries.map ArpEntry.pa).Nodup
  present : ∀ pa, pa ∈ self.entries.map ArpEntry.pa ↔ ∃ index, InsertedAt ops pa index
  order : (self.entries.map ArpEntry.pa).Pairwise fun first second =>
    ∀ i j, InsertedAt ops first i → InsertedAt ops second j → i < j
  others : ∀ op : ArpOp, (self.perform op).entries.filter (·.pa ≠ op.key) =
    self.entries.filter (·.pa ≠ op.key)

variable {self : ArpCache} {ops : List ArpOp}

/-- An operation on one address leaves the entries of the others. -/
theorem filter_perform (self : ArpCache) (op : ArpOp) :
    (self.perform op).entries.filter (·.pa ≠ op.key) = self.entries.filter (·.pa ≠ op.key) := by
  cases op with
  | put pa ha => exact filter_upsert (withHardware_eq ⟨pa, ha⟩) fun _ differs => differs
  | remove pa => exact filter_erase fun _ differs => differs

/-- The step: one more operation on the cache and on the map. -/
theorem represents_perform (represents : Represents ArpEntry.pa ArpEntry.ha ops self.entries)
    (op : ArpOp) :
    Represents ArpEntry.pa ArpEntry.ha (ops ++ [op]) (self.perform op).entries := by
  cases op with
  | put pa ha =>
      have determined (first second : ArpEntry) (samePa : first.pa = second.pa)
          (sameHa : first.ha = second.ha) : first = second := by
        rw [ArpEntry.mk.injEq]
        exact ⟨samePa, sameHa⟩
      exact represents.put (withHardware_eq ⟨pa, ha⟩) determined
  | remove pa => exact represents.remove pa

theorem represents_run (ops : List ArpOp) :
    Represents ArpEntry.pa ArpEntry.ha ops (run ops).entries := by
  induction ops using List.reverseRecOn with
  | nil => exact Represents.nil
  | append_singleton ops op ih =>
      rw [run, List.foldl_concat]
      exact represents_perform ih op

/-- **The cache refines a finite map** with the history of its operations. -/
theorem refines_run (ops : List ArpOp) : Refines (run ops) ops := by
  have represents := represents_run ops
  have found (pa : Addr) (entry : ArpEntry) :
      (run ops).get pa = some entry ↔ entry.pa = pa ∧ LastPut ops pa entry.ha :=
    represents.find?_eq_some_iff
  refine ⟨found, fun pa => ?_, (run ops).distinct, represents.present, represents.order,
    filter_perform (run ops)⟩
  rw [Option.eq_none_iff_forall_ne_some]
  constructor
  · intro none ha last
    exact none ⟨pa, ha⟩ ((found pa ⟨pa, ha⟩).mpr ⟨rfl, last⟩)
  · intro none entry some
    exact none entry.ha ((found pa entry).mp some).2

end ArpCache

end Wnr.Dnet
