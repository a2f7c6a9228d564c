import Wnr.Dnet.Route
import Wnr.Foundation.MapHistory

/-! # What a lookup finds, by the history of the table

A table stands for the history of its operations: its entries are the destinations, as they
are written, with the gateways they were last added with. A lookup chooses among these the
longest prefix, and among destinations of one prefix length, which describe one network in
different spellings, the one that was inserted last (`RouteTable.get_run_iff`).
-/

namespace Wnr.Dnet

open MapHistory BestMatch

/-- The operation on the map from destinations to gateways. -/
def RouteOp.mapOp : RouteOp → MapOp Addr Addr
  | .add entry => .put entry.dst entry.gw
  | .addDev entry => .put entry.dst.network entry.gw
  | .delete dst => .remove dst

/-- The history of a table as that of a map. -/
def historyOf (ops : List RouteOp) : List (MapOp Addr Addr) := ops.map RouteOp.mapOp

/-- The destination was inserted before the other one. -/
def InsertedBefore (ops : List RouteOp) (first second : Addr) : Prop :=
  ∃ i j, InsertedAt (historyOf ops) first i ∧ InsertedAt (historyOf ops) second j ∧ i < j

/-- The routes whose last operation is an addition. -/
def Routes (ops : List RouteOp) (entry : RouteEntry) : Prop :=
  LastPut (historyOf ops) entry.dst entry.gw

namespace RouteTable

variable {self : RouteTable} {ops : List RouteOp} {history : List (MapOp Addr Addr)}
  {first second : Addr}

theorem represents_add (represents : Represents RouteEntry.dst RouteEntry.gw history self.entries)
    (entry : RouteEntry) :
    Represents RouteEntry.dst RouteEntry.gw (history ++ [.put entry.dst entry.gw])
      (self.add entry).entries := by
  have determined (first second : RouteEntry) (sameDst : first.dst = second.dst)
      (sameGw : first.gw = second.gw) : first = second := by
    rw [RouteEntry.mk.injEq]
    exact ⟨sameDst, sameGw⟩
  exact represents.put (withGateway_eq entry) determined

theorem represents_perform {op : RouteOp}
    (represents : Represents RouteEntry.dst RouteEntry.gw history self.entries) :
    Represents RouteEntry.dst RouteEntry.gw (history ++ [op.mapOp]) (self.perform op).entries := by
  cases op with
  | add entry => exact represents_add represents entry
  | addDev entry => exact represents_add represents { entry with dst := entry.dst.network }
  | delete dst => exact represents.remove dst

/-- **Entries** are what the history says. -/
theorem represents_run (ops : List RouteOp) :
    Represents RouteEntry.dst RouteEntry.gw (historyOf ops) (run ops).entries := by
  induction ops using List.reverseRecOn with
  | nil => exact Represents.nil
  | append_singleton ops op ih =>
      rw [run_concat, historyOf, List.map_append]
      exact represents_perform ih

theorem mem_run {entry : RouteEntry} : entry ∈ (run ops).entries ↔ Routes ops entry :=
  (represents_run ops).values entry

theorem mem_candidates_run {dst : Addr} {entry : RouteEntry} :
    entry ∈ (run ops).candidates dst ↔ Routes ops entry ∧ netContains entry.dst dst = true := by
  rw [mem_candidates, mem_run]

theorem not_insertedBefore (earlier : InsertedBefore ops first second) :
    ¬ InsertedBefore ops second first := by
  obtain ⟨i, j, isFirst, isSecond, before⟩ := earlier
  rintro ⟨j', i', isSecond', isFirst', after⟩
  obtain rfl := isFirst.unique isFirst'
  obtain rfl := isSecond.unique isSecond'
  exact lt_asymm before after

/-- The candidates come in the order of their insertion. -/
theorem candidates_ordered (ops : List RouteOp) (dst : Addr) :
    ((run ops).candidates dst).Pairwise fun first second =>
      InsertedBefore ops first.dst second.dst := by
  have represents := represents_run ops
  have inserted {entry : RouteEntry} (member : entry ∈ (run ops).entries) :
      ∃ i, InsertedAt (historyOf ops) entry.dst i :=
    (represents.present entry.dst).mp (List.mem_map_of_mem member)
  have ordered : (run ops).entries.Pairwise fun first second =>
      InsertedBefore ops first.dst second.dst := by
    refine (List.pairwise_map.mp represents.order).imp_of_mem fun here there before => ?_
    obtain ⟨i, isFirst⟩ := inserted here
    obtain ⟨j, isSecond⟩ := inserted there
    exact ⟨i, j, isFirst, isSecond, before i j isFirst isSecond⟩
  exact ordered.sublist (List.filter_sublist.trans List.filter_sublist)

/-- **The lookup.** It finds the route to the destination with the longest prefix, the last
one inserted where several have it. -/
theorem get_run_iff (ops : List RouteOp) (dst : Addr) (entry : RouteEntry) :
    (run ops).get dst = some entry ↔
      Routes ops entry ∧ netContains entry.dst dst = true ∧
        ∀ other, Routes ops other → netContains other.dst dst = true → other ≠ entry →
          other.dst.addrBits.toNat < entry.dst.addrBits.toNat ∨
            other.dst.addrBits.toNat = entry.dst.addrBits.toNat ∧
              InsertedBefore ops other.dst entry.dst := by
  have ordered := candidates_ordered ops dst
  rw [get, maxByKey_eq_some_iff ordered fun _ _ _ _ => not_insertedBefore, mem_candidates_run,
    and_assoc]
  refine and_congr_right fun _ => and_congr_right fun _ => forall_congr' fun other => ?_
  rw [mem_candidates_run, and_imp]

end RouteTable

end Wnr.Dnet
