import Wnr.Nsock.EventChange

/-! # Whose result completes a connect

A result carries the id of its descriptor only, and completes whichever undelivered
connect event of that descriptor the loop meets first. It completes its own event, and
a late one nothing, as long as no result is taken while another connect event of the
descriptor is undelivered (`Pool.Unrivaled`); otherwise the iteration order of the hash
map may give it to the other one (`Pool.receive_faithful_iff`).
-/

namespace Wnr.Nsock

/-- A result completed its own event or none, brought its own stream and no other, and
did nothing when its event had ended. -/
structure Receipt.Faithful (receipt : Receipt) : Prop where
  completed : ∀ event, receipt.completed = some event → event = receipt.result.attempt
  installed : ∀ stream, receipt.installed = some stream →
    stream.origin = .attempt receipt.result.attempt ∧ receipt.completed = some receipt.result.attempt
  late : receipt.own = false → receipt.completed = none ∧ receipt.installed = none

namespace Pool

/-- No connect event of the result's descriptor is undelivered, its own one apart. -/
def Unrivaled (pool : Pool) : Cmd → Prop
  | .quit => True
  | .connectResult result =>
      ∀ id e, pool.Open id e → e.kind = .connect → e.iod = some result.iod → id = result.attempt

theorem unrivaled_iff (pool : Pool) (result : ConnectResult) :
    pool.Unrivaled (.connectResult result) ↔
      (pool.pending.entries.all fun entry => decide (entry.2.done = false →
        entry.2.kind = .connect → entry.2.iod = some result.iod → entry.1 = result.attempt)) := by
  rw [List.all_eq_true]
  constructor
  · rintro alone ⟨id, e⟩ member
    exact decide_eq_true fun live => alone id e ⟨AList.mem_lookup_iff.mpr member, live⟩
  · rintro alone id e ⟨held, live⟩
    exact of_decide_eq_true (alone ⟨id, e⟩ (AList.mem_lookup_iff.mp held)) live

instance (pool : Pool) (cmd : Cmd) : Decidable (pool.Unrivaled cmd) :=
  match cmd with
  | .quit => .isTrue trivial
  | .connectResult result => decidable_of_iff' _ (unrivaled_iff pool result)

variable {pool after : Pool} {op : Op}

theorem origin_of_stream {result : ConnectResult} {stream : TcpStream}
    (opened : result.stream = some stream) : stream.origin = .attempt result.attempt := by
  rw [ConnectResult.stream] at opened
  split at opened
  · rw [← Option.some.inj opened]
  · cases opened

theorem eq_attempt_of_target {order : List Nat} {result : ConnectResult} {evid : EventId}
    (alone : pool.Unrivaled (.connectResult result))
    (target : pool.connectTarget order result.iod = some evid) : evid = result.attempt := by
  obtain ⟨e, held, kind, iod⟩ := connectTarget_eq_some target
  exact alone evid e held kind iod

/-- Without a rival, the receipts that the loop writes are faithful. -/
theorem Emission.faithful {action : Action} {receipt : Receipt}
    (emission : Emission pool op action (.result receipt))
    (alone : Meets (fun _ _ => True) Unrivaled pool action) : receipt.Faithful := by
  cases emission with
  | refused target => exact ⟨nofun, nofun, fun _ => ⟨rfl, rfl⟩⟩
  | @taken order result evid target =>
      obtain ⟨e, held, -, -⟩ := connectTarget_eq_some target
      obtain rfl := eq_attempt_of_target alone target
      refine ⟨fun event same => (Option.some.inj same).symm, fun stream installed => ?_, ?_⟩
      · exact ⟨origin_of_stream (Option.filter_eq_some_iff.mp installed).1, rfl⟩
      · intro ended
        have open' := isUndelivered_iff.mpr ⟨e, held⟩
        rw [show pool.isUndelivered result.attempt = false from ended] at open'
        cases open'
  | read held io => cases io
  | wrote held io => cases io

/-- In whatever order the map is iterated over, a result completes its own event or
none, exactly when the event has no rival. -/
theorem receive_faithful_iff (pool : Pool) (result : ConnectResult) :
    (∀ order evid, pool.connectTarget order result.iod = some evid → evid = result.attempt) ↔
      pool.Unrivaled (.connectResult result) := by
  constructor
  · intro own id e held kind iod
    obtain ⟨rest, first⟩ := Table.walk_singleton pool.pending
      (AList.lookup_isSome.mp (Option.isSome_iff_exists.mpr ⟨e, held.1⟩))
    refine own [id] id ?_
    rw [connectTarget, first]
    refine List.find?_cons_of_pos ?_
    simp only [held.1, kind, held.2, iod, decide_true, Bool.not_false, Bool.and_self]
  · intro alone order evid target
    exact eq_attempt_of_target alone target

end Pool

end Wnr.Nsock
