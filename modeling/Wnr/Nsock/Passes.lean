import Wnr.Nsock.PoolActions

/-! # Histories, pass by pass

What is said of a history may speak about each operation of its caller and about each
pass of the loop, read in the pool just before it (`Pool.Throughout`). What operations and
passes preserve, under conditions on them, holds before each of them
(`Pool.Throughout.invariant`).
-/

namespace Wnr.Nsock

/-- The operations that run the loop. -/
def Op.IsRun : Op → Prop
  | .run .. => True
  | _ => False

namespace Pool

section

variable (request : Pool → Op → Prop) (passing : Pool → Pass → Prop)

/-- The condition holds of each pass that the loop gets to. -/
def PassesThroughout (start : Instant) (limit : Option Nat) : List Pass → Pool → Prop
  | [], _ => True
  | pass :: rest, pool =>
      passing pool pass ∧
        ((runPasses start limit [pass] pool).1 = none →
          PassesThroughout start limit rest (pool.runPass pass))

/-- The conditions hold of an operation, or of its passes. -/
def OpThroughout : Op → Pool → Prop
  | .run timeout start passes, pool =>
      PassesThroughout passing start (if timeout < 0 then none else some (millis timeout.toNat))
        passes { pool with quit := false }
  | op, pool => request pool op

/-- The conditions hold of each operation and each pass of a history. -/
def Throughout : List Op → Pool → Prop
  | [], _ => True
  | op :: rest, pool =>
      OpThroughout request passing op pool ∧
        ((perform op pool).1 ≠ .running → Throughout rest (perform op pool).2)

variable [∀ pool op, Decidable (request pool op)] [∀ pool pass, Decidable (passing pool pass)]

instance decidablePassesThroughout (start : Instant) (limit : Option Nat) :
    ∀ (passes : List Pass) (pool : Pool),
      Decidable (PassesThroughout passing start limit passes pool)
  | [], _ => .isTrue trivial
  | pass :: rest, pool =>
      have := decidablePassesThroughout start limit rest (pool.runPass pass)
      inferInstanceAs (Decidable (_ ∧ (_ → _)))

instance decidableOpThroughout (op : Op) (pool : Pool) :
    Decidable (OpThroughout request passing op pool) :=
  match op with
  | .run timeout start passes =>
      decidablePassesThroughout passing start
        (if timeout < 0 then none else some (millis timeout.toNat)) passes { pool with quit := false }
  | .setBroadcast .. | .createIodTcp | .createIodUdp .. | .createIodTcpFrom ..
  | .createIodUdpFrom .. | .connectTcp .. | .connectUdp .. | .read .. | .readBytes ..
  | .readlines .. | .write .. | .writeFmt .. | .printf .. | .sendUdp .. | .timerCreate ..
  | .cancel .. | .deleteIod .. | .delete .. | .loopQuit | .takeReadBuf .. | .arrive .. =>
      inferInstanceAs (Decidable (request pool _))

instance decidableThroughout :
    ∀ (ops : List Op) (pool : Pool), Decidable (Throughout request passing ops pool)
  | [], _ => .isTrue trivial
  | op :: rest, pool =>
      have := decidableThroughout rest (perform op pool).2
      inferInstanceAs (Decidable (OpThroughout request passing op pool ∧ (_ → _)))

end

variable {request request' : Pool → Op → Prop} {passing passing' : Pool → Pass → Prop}
  {property : Pool → Prop} {pool : Pool} {ops : List Op}

theorem runPasses_single (start : Instant) (limit : Option Nat) (pass : Pass) (rest : List Pass)
    (pool : Pool) :
    (runPasses start limit (pass :: rest) pool) =
      if (runPasses start limit [pass] pool).1 = none then
        runPasses start limit rest (pool.runPass pass)
      else runPasses start limit [pass] pool := by
  simp only [runPasses]
  split
  · rfl
  split
  · rfl
  split <;> rfl

/-- The pool after the one pass that the loop ends with, and whether it is to quit. -/
theorem runPasses_last (start : Instant) (limit : Option Nat) (pass : Pass) (pool : Pool) :
    ∃ quit, (runPasses start limit [pass] pool).2 = { pool.runPass pass with quit } := by
  simp only [runPasses]
  split
  · exact ⟨_, rfl⟩
  split
  · exact ⟨_, rfl⟩
  split <;> exact ⟨_, rfl⟩

section Invariant

variable
  (quits : ∀ pool quit, property pool → property { pool with quit })
  (passes : ∀ pool pass, property pool → passing pool pass →
    passing' pool pass ∧ property (pool.runPass pass))

include quits passes

theorem PassesThroughout.invariant {start : Instant} {limit : Option Nat} {ahead : List Pass}
    (along : PassesThroughout passing start limit ahead pool) (initially : property pool) :
    PassesThroughout passing' start limit ahead pool ∧
      property (runPasses start limit ahead pool).2 := by
  induction ahead generalizing pool with
  | nil => exact ⟨trivial, initially⟩
  | cons pass rest ih =>
      obtain ⟨first, after⟩ := passes pool pass initially along.1
      rw [runPasses_single]
      split
      · rename_i ongoing
        obtain ⟨later, last⟩ := ih (along.2 ongoing) after
        exact ⟨⟨first, fun _ => later⟩, last⟩
      · rename_i ended
        refine ⟨⟨first, fun ongoing => absurd ongoing ended⟩, ?_⟩
        obtain ⟨quit, last⟩ := runPasses_last start limit pass pool
        rw [last]
        exact quits _ quit after

theorem OpThroughout.invariant
    (calls : ∀ pool op, ¬ op.IsRun → property pool → request pool op →
      request' pool op ∧ property (perform op pool).2)
    {op : Op} (along : OpThroughout request passing op pool) (initially : property pool) :
    OpThroughout request' passing' op pool ∧ property (perform op pool).2 := by
  cases op with
  | run timeout start ahead =>
      exact PassesThroughout.invariant quits passes along (quits pool false initially)
  | _ => exact calls pool _ (fun run => run) initially along

/-- **Invariants of histories.** What each operation and each pass preserves, holds at the
end, and what follows for each of them from it holds throughout. -/
theorem Throughout.invariant
    (calls : ∀ pool op, ¬ op.IsRun → property pool → request pool op →
      request' pool op ∧ property (perform op pool).2)
    (along : Throughout request passing ops pool) (initially : property pool) :
    Throughout request' passing' ops pool ∧ property (execute ops pool) := by
  induction ops generalizing pool with
  | nil => exact ⟨trivial, initially⟩
  | cons op rest ih =>
      obtain ⟨first, after⟩ := OpThroughout.invariant quits passes calls along.1 initially
      by_cases running : (perform op pool).1 = .running
      · rw [execute_running running]
        exact ⟨⟨first, fun ongoing => absurd running ongoing⟩, after⟩
      · obtain ⟨later, last⟩ := ih (along.2 running) after
        rw [execute_cons running]
        exact ⟨⟨first, fun _ => later⟩, last⟩

end Invariant

/-- Conditions that always hold. -/
theorem throughout_of_forall (requests : ∀ pool op, request pool op)
    (passes : ∀ pool pass, passing pool pass) (ops : List Op) (pool : Pool) :
    Throughout request passing ops pool := by
  have single (start : Instant) (limit : Option Nat) (ahead : List Pass) (pool : Pool) :
      PassesThroughout passing start limit ahead pool := by
    induction ahead generalizing pool with
    | nil => trivial
    | cons pass rest ih => exact ⟨passes pool pass, fun _ => ih _⟩
  induction ops generalizing pool with
  | nil => trivial
  | cons op rest ih =>
      refine ⟨?_, fun _ => ih _⟩
      cases op with
      | run timeout start ahead => exact single _ _ _ _
      | _ => exact requests pool _

/-! ## Invariants down to the commands -/

/-- The passes of one loop take the same actions as those of another. -/
theorem Takes.of_run {timeout timeout' : Int} {start start' : Instant} {passes passes' : List Pass}
    {action : Action} (taken : Takes (.run timeout start passes) pool action) :
    Takes (.run timeout' start' passes') pool action := by
  cases taken with
  | call single => exact single.elim
  | arriveRun => exact .arriveRun
  | takeChannel => exact .takeChannel
  | receive => exact .receive
  | tryRead held => exact .tryRead held
  | tryWrite held => exact .tryWrite held
  | deliver fits => exact .deliver fits
  | quitRun => exact .quitRun

/-- What the actions of the loop and the operations outside of it preserve, holds at the
end, and what follows from it for a command holds of each command. -/
theorem Along.invariant {command : Pool → Cmd → Prop}
    (loops : ∀ pool action, property pool → Takes (.run 0 0 []) pool action →
      property (pool.act action))
    (commands : ∀ pool cmd, property pool → command pool cmd)
    (calls : ∀ pool op, ¬ op.IsRun → property pool → request pool op →
      property (perform op pool).2)
    (along : Along request (fun _ _ => True) ops pool) (initially : property pool) :
    Along (fun _ _ => True) command ops pool ∧ property (execute ops pool) := by
  induction ops generalizing pool with
  | nil => exact ⟨trivial, initially⟩
  | cons op rest ih =>
      have first : OpAlong (fun _ _ => True) command op pool ∧ property (perform op pool).2 := by
        by_cases run : op.IsRun
        · cases op with
          | run timeout start passes =>
              refine ⟨passesAlong_of_invariant loops commands (loops pool _ initially .quitRun), ?_⟩
              exact (perform_steps along.1).invariant property initially
                fun state action holds allowed => loops state action holds allowed.1.of_run
          | _ => exact run.elim
        · cases op with
          | run timeout start passes => exact absurd trivial run
          | _ => exact ⟨trivial, calls pool _ run initially along.1⟩
      by_cases running : (perform op pool).1 = .running
      · rw [execute_running running]
        exact ⟨⟨first.1, fun ongoing => absurd running ongoing⟩, first.2⟩
      · obtain ⟨later, last⟩ := ih (along.2 running) first.2
        rw [execute_cons running]
        exact ⟨⟨first.1, fun _ => later⟩, last⟩

end Pool

end Wnr.Nsock
