import Wnr.Nsock.EntrySteps
import Wnr.Nsock.Notification

/-! # Finished events are not held any more

The loop, `delete_iod` and `delete` take an event that they finish out of the table.
`cancel` only marks it. So a history leaves nothing finished behind exactly when none of
its cancellations finds an event that is still undelivered
(`Pool.nothing_left_iff_cancels_finished`).
-/

namespace Wnr.Nsock

namespace Pool

variable {pool : Pool} {op : Op} {ops : List Op}

/-- Only undelivered events are held. -/
def Tidy (pool : Pool) : Prop := ∀ id e, pool.pending.lookup id = some e → e.done = false

/-- Along a history nothing that is finished stays behind. -/
structure NothingLeft (ops : List Op) : Prop where
  tidy : ∀ earlier, earlier <+: ops → (execute earlier new).Tidy
  empty : ∀ earlier op, earlier ++ [op] <+: ops →
    (perform op (execute earlier new)).1 = .status .noEvents →
      (perform op (execute earlier new)).2.pending = ∅
  notFound : ∀ earlier, earlier <+: ops → ∀ id notify, (execute earlier new).Created id →
    (execute earlier new).isUndelivered id = false →
      ((execute earlier new).cancel id notify).1 = false

/-- An event that is cancelled is finished already. -/
def CancelsFinished (pool : Pool) : Op → Prop
  | .cancel id _ => pool.isUndelivered id = false
  | _ => True

/-! ## The condition is enough -/

theorem Tidy.act (tidy : pool.Tidy) {action : Action}
    (allowed : Allowed CancelsFinished (fun _ _ => True) op pool action) :
    (pool.act action).Tidy := by
  intro id e found
  cases allowed.1.entry id with
  | kept held readBuf | taken asked held readBuf => exact tidy id e (held.symm.trans found)
  | created fresh e' held empty readBuf =>
      obtain rfl := Option.some.inj (held.symm.trans found)
      exact empty.2
  | moved attempts e' buf wbuf live held readBuf =>
      obtain rfl := Option.some.inj (held.symm.trans found)
      exact live.2
  | cancelled notify asked e' handler found' held readBuf =>
      subst asked
      have finished : pool.isUndelivered id = false := allowed.2
      rw [isUndelivered_iff.mpr ⟨e', found', tidy id e' found'⟩] at finished
      cases finished
  | delivered e' live held readBuf => rw [held] at found; cases found
  | killed asked held readBuf => rw [held] at found; cases found

theorem tidy_new : new.Tidy := nofun

theorem tidy_execute (finished : Along CancelsFinished (fun _ _ => True) ops pool)
    (tidy : pool.Tidy) : (execute ops pool).Tidy := by
  refine (execute_steps finished).invariant Tidy tidy ?_
  rintro state action tidy ⟨op, allowed⟩
  exact tidy.act allowed

theorem along_of_front {request : Pool → Op → Prop} {command : Pool → Cmd → Prop}
    {earlier : List Op} (along : Along request command ops pool) (first : earlier <+: ops) :
    Along request command earlier pool := by
  induction earlier generalizing ops pool with
  | nil => trivial
  | cons op earlier ih =>
      obtain ⟨later, rfl⟩ := first
      exact ⟨along.1, fun ongoing => ih (along.2 ongoing) ⟨later, rfl⟩⟩

/-- A run of the loop keeps a pool tidy, whatever comes before it. -/
theorem tidy_of_noEvents (tidy : pool.Tidy) (ended : (perform op pool).1 = .status .noEvents) :
    (perform op pool).2.Tidy := by
  cases op with
  | run timeout start passes =>
      have along : OpAlong CancelsFinished (fun _ _ => True) (.run timeout start passes) pool :=
        (opAlong_of_forall (fun _ _ => trivial) (fun _ _ => trivial) (.run timeout start passes) pool :
          OpAlong (fun _ _ => True) (fun _ _ => True) _ _)
      exact (perform_steps along).invariant Tidy tidy fun _ _ tidy allowed => tidy.act allowed
  | _ => cases ended

theorem pending_eq_empty (closed : pool.hasPending = false) (tidy : pool.Tidy) :
    pool.pending = ∅ := by
  rw [hasPending, List.any_eq_false] at closed
  refine AList.ext (List.eq_nil_iff_forall_not_mem.mpr fun entry member => ?_)
  refine closed entry member ?_
  rw [tidy entry.1 entry.2 (AList.mem_lookup_iff.mpr member)]
  rfl

/-! ## The condition is needed -/

theorem along_of_tidy (tidy : ∀ earlier, earlier <+: ops → (execute earlier pool).Tidy) :
    Along CancelsFinished (fun _ _ => True) ops pool := by
  induction ops generalizing pool with
  | nil => trivial
  | cons op rest ih =>
      refine ⟨?_, fun ongoing => ih fun earlier first => ?_⟩
      · cases op with
        | run timeout start passes =>
            exact (opAlong_of_forall (fun _ _ => trivial) (fun _ _ => trivial)
              (.run timeout start passes) pool : OpAlong (fun _ _ => True) (fun _ _ => True) _ _)
        | cancel id notify =>
            change pool.isUndelivered id = false
            rw [Bool.eq_false_iff]
            intro undelivered
            obtain ⟨e, held⟩ := isUndelivered_iff.mp undelivered
            have found : (pool.cancel id notify).1 = true := by
              rw [Pool.cancel, held.1]
            obtain ⟨e', held', done⟩ := lookup_cancel found
            have live := tidy [.cancel id notify] ⟨rest, rfl⟩ id e' held'
            rw [live] at done
            cases done
        | _ => trivial
      · rw [← execute_cons ongoing]
        exact tidy (op :: earlier) ((List.prefix_cons_inj op).mpr first)

/-- **Finished events are gone**, exactly when cancellations only find events that have
finished already. -/
theorem nothing_left_iff_cancels_finished (ops : List Op) :
    NothingLeft ops ↔ Along CancelsFinished (fun _ _ => True) ops new := by
  refine ⟨fun left => along_of_tidy left.tidy, fun finished => ?_⟩
  have tidy (earlier : List Op) (first : earlier <+: ops) : (execute earlier new).Tidy :=
    tidy_execute (along_of_front finished first) tidy_new
  refine ⟨tidy, fun earlier op first ended => ?_, fun earlier first id notify created closed => ?_⟩
  · have before := tidy earlier ((List.prefix_append earlier [op]).trans first)
    exact pending_eq_empty (not_hasPending_of_noEvents ended) (tidy_of_noEvents before ended)
  · have before := tidy earlier first
    rcases cancel_cases (execute earlier new) id notify with ⟨missed, -⟩ | ⟨e, -, found, -⟩
    · rw [missed]
    · rw [isUndelivered_iff.mpr ⟨e, found, before id e found⟩] at closed
      cases closed

/-- A timer that is cancelled. -/
def cancelTimer : List Op := [.timerCreate 1000 0, .cancel 1 true]

/-- The cancelled timer stays in the table. -/
theorem cancelled_timer_left : ¬ NothingLeft cancelTimer := by
  intro left
  have held : (((execute cancelTimer new).pending.lookup 1).map (·.done)) = some true := by decide
  obtain ⟨e, found, done⟩ := Option.map_eq_some_iff.mp held
  have live := left.tidy cancelTimer List.prefix_rfl 1 e found
  rw [live] at done
  cases done

end Pool

end Wnr.Nsock
