import Wnr.Nsock.Deadlines
import Wnr.Nsock.Deletions
import Wnr.Nsock.IodSteps

/-! # What a connect leaves behind

An event keeps its descriptor for as long as it is undelivered (`Pool.Refers`). So a connect
that is requested for a descriptor in the pool finds it there when it succeeds, with the new
stream in it, and a result that comes after the descriptor was deleted finds nothing to
complete (`Pool.connects_usable`).
-/

namespace Wnr.Nsock

/-- A descriptor with a connected stream. -/
structure Iod.Usable (iod : Iod) : Prop where
  stream : iod.tcp.isSome = true
  kind : iod.kind = .tcp
  connected : iod.connected = true

theorem Iod.usable_install (iod : Iod) (stream : TcpStream) : (iod.install stream).Usable :=
  ⟨rfl, rfl, rfl⟩

namespace Pool

variable {pool after : Pool} {op : Op} {id iodId : Nat} {e : Pending}

/-! ## What is promised -/

/-- A connect is requested for a descriptor that is in the pool. -/
def ExistingConnect (pool : Pool) : Op → Prop
  | .connectTcp iodId _ _ _ => (pool.iods.lookup iodId).isSome = true
  | _ => True

instance (pool : Pool) (op : Op) : Decidable (ExistingConnect pool op) :=
  match op with
  | .connectTcp iodId _ _ _ => inferInstanceAs (Decidable ((pool.iods.lookup iodId).isSome = true))
  | .setBroadcast _ | .createIodTcp | .createIodUdp _ | .createIodTcpFrom _ | .createIodUdpFrom _
  | .connectUdp _ _ _ | .read _ _ _ | .readBytes _ _ _ _ | .readlines _ _ _ _ | .write _ _ _ _
  | .writeFmt _ _ _ _ | .printf _ _ _ _ | .sendUdp _ _ _ _ _ _ | .timerCreate _ _ | .cancel _ _
  | .deleteIod _ _ | .delete _ _ _ | .loopQuit | .takeReadBuf _ | .arrive _ _ | .run _ _ _ =>
      .isTrue trivial

/-- The descriptor that the event names is in the pool, while the event is undelivered. -/
def Refers (pool : Pool) (id : EventId) : Prop :=
  ∀ e, pool.Open id e → ∀ iodId, e.iod = some iodId → (pool.iods.lookup iodId).isSome = true

/-- Where the command makes a connect succeed, the descriptor is usable. -/
def ConnectsUsably (pool : Pool) (cmd : Cmd) : Prop :=
  ∀ order id e iodId, pool.Open id e → e.kind = .connect → e.iod = some iodId →
    calls id (pool.receive order cmd).log = calls id pool.log ++ [.success] →
      ∃ iod, (pool.receive order cmd).iods.lookup iodId = some iod ∧ iod.Usable

/-- A connect succeeds by a command of the pass only. -/
def SucceedsByCommand (pool : Pool) (pass : Pass) : Prop :=
  ∀ id e, pool.Open id e → e.kind = .connect → pool.Delivers pass id .success →
    calls id (pool.drained pass).log = calls id pool.log ++ [.success]

/-- A result for the descriptor leaves a note for the observer, and nothing else. -/
def RevivesNothing (iodId : Nat) (pool : Pool) (cmd : Cmd) : Prop :=
  ∀ result, cmd = .connectResult result → result.iod = iodId → ∀ order,
    pool.receive order cmd =
      pool.note (.result ⟨result, pool.isUndelivered result.attempt, none, none⟩)

/-! ## Descriptors that stay -/

/-- A descriptor is only lost where it is dropped. -/
theorem Takes.iod_isSome {action : Action} (taken : Takes op pool action)
    (spared : action ≠ .dropIod iodId) (described : (pool.iods.lookup iodId).isSome = true) :
    ((pool.act action).iods.lookup iodId).isSome = true := by
  cases taken.iod iodId with
  | kept same => rwa [same]
  | added _ _ _ described | connected _ _ _ described | associated _ _ _ _ _ described
  | credited _ _ _ described | debited _ _ _ described =>
      rw [described]
      rfl
  | dropped asked => exact absurd asked spared

/-- A descriptor that was deleted does not come back. -/
theorem Takes.iod_eq_none {action : Action} (taken : Takes op pool action)
    (given : iodId ≤ pool.iodCounter) (missing : pool.iods.lookup iodId = none) :
    (pool.act action).iods.lookup iodId = none := by
  cases taken.iod iodId with
  | kept same => rwa [same]
  | added fresh => exact absurd (fresh ▸ given) (Nat.not_succ_le_self _)
  | connected _ _ found | associated _ _ _ _ found | credited _ _ found | debited _ _ found =>
      rw [missing] at found
      cases found
  | dropped _ missing' => exact missing'

/-- An action of the loop drops no descriptor and requests nothing. -/
theorem Takes.of_loop {action : Action} (taken : Takes (.run 0 0 []) pool action) :
    (∀ op, action ≠ .call op) ∧ ∀ key, action ≠ .dropIod key := by
  cases taken with
  | call single => exact single.elim
  | _ => exact ⟨nofun, nofun⟩

/-! ## References -/

/-- The event was requested, and its descriptor stays as long as it is undelivered. -/
structure Referring (id : EventId) (pool : Pool) : Prop extends Traced pool where
  known : pool.Created id
  refers : pool.Refers id

theorem Referring.act (referring : Referring id pool) {action : Action}
    (taken : Takes op pool action) (spared : ∀ key, action ≠ .dropIod key) :
    Referring id (pool.act action) := by
  refine { referring.toTraced.act taken with
    known := (taken.change referring.toSound).created_of referring.known
    refers := fun e held iodId named => ?_ }
  rcases taken.opened referring.toTraced held with ⟨e', before, -, iod⟩ | ⟨fresh, -⟩
  · exact taken.iod_isSome (spared iodId) (referring.refers e' before iodId (iod.trans named))
  · exact absurd referring.known fresh

theorem open_of_deleteIod {order : List Nat} {key : Nat}
    (held : (pool.deleteIod order key).2.Open id e) : pool.Open id e :=
  ⟨(lookup_of_killEvents held.1).2, held.2⟩

/-- Deleting a descriptor ends the events that name it. -/
theorem refers_deleteIod (refers : pool.Refers id) (order : List Nat) (key : Nat) :
    (pool.deleteIod order key).2.Refers id := by
  intro e held iodId named
  have other : iodId ≠ key := fun same => deleteIod_gone order held.1 (same ▸ named)
  rw [deleteIod_iods, AList.lookup_erase_ne other]
  exact refers e (open_of_deleteIod held) iodId named

theorem traced_perform (valid : pool.Traced) (op : Op) : (perform op pool).2.Traced :=
  perform_invariant (fun _ _ _ valid taken => valid.act taken) op valid

theorem Referring.perform (referring : Referring id pool) (outside : ¬ op.IsRun) :
    Referring id (perform op pool).2 := by
  have valid := traced_perform referring.toTraced op
  have known := (Retained.perform referring.toRetained referring.known op).2
  by_cases single : op.IsCall
  · exact referring.act (Takes.call single) nofun
  cases op with
  | run timeout start passes => exact absurd trivial outside
  | arrive attempt outcome => exact referring.act Takes.arrive nofun
  | deleteIod order key =>
      exact { valid with known, refers := refers_deleteIod referring.refers order key }
  | delete iodOrder orders order =>
      refine { valid with known, refers := fun e held => ?_ }
      exact absurd held (not_open_delete iodOrder orders order pool id e)
  | _ => exact (single trivial).elim

/-- An undelivered event keeps its descriptor in every history. -/
theorem Referring.execute (referring : Referring id pool) (ops : List Op) :
    Referring id (execute ops pool) := by
  have along : Along (fun _ _ => True) (fun _ _ => True) ops pool :=
    along_of_forall (fun _ _ => trivial) (fun _ _ => trivial) ops pool
  have kept : Along (fun _ _ => True) (fun _ _ => True) ops pool ∧
      Referring id (Pool.execute ops pool) := by
    refine Along.invariant ?_ (fun _ _ _ => trivial) ?_ along referring
    · exact fun pool action referring taken => referring.act taken taken.of_loop.2
    · exact fun pool op outside referring _ => referring.perform outside
  exact kept.2

/-! ## Connects that succeed -/

/-- The descriptors of undelivered connect events are in the pool. -/
structure Linked (pool : Pool) : Prop extends Traced pool where
  linked : ∀ id e, pool.Open id e → e.kind = .connect → ∀ iodId, e.iod = some iodId →
    (pool.iods.lookup iodId).isSome = true

theorem linked_new : new.Linked where
  toTraced := traced_new
  linked _ _ held := nomatch held.1

theorem Linked.act (linked : pool.Linked) {action : Action} (taken : Takes op pool action)
    (existing : ∀ op, action = .call op → ExistingConnect pool op)
    (spared : ∀ key, action ≠ .dropIod key) : (pool.act action).Linked := by
  refine { linked.toTraced.act taken with linked := fun id e held kind iodId named => ?_ }
  refine taken.iod_isSome (spared iodId) ?_
  rcases taken.opened linked.toTraced held with ⟨e', before, kind', iod⟩ | ⟨-, asked, -, request⟩
  · exact linked.linked id e' before (kind'.trans kind) iodId (iod.trans named)
  · have existing := existing op asked
    rw [kind, named] at request
    cases op with
    | connectTcp key addr timeoutMs now =>
        obtain ⟨-, same⟩ := Prod.mk.inj (Option.some.inj request)
        obtain rfl := Option.some.inj same
        exact existing
    | _ => cases request

theorem Linked.perform (linked : pool.Linked) (outside : ¬ op.IsRun)
    (existing : ExistingConnect pool op) : (perform op pool).2.Linked := by
  have valid := traced_perform linked.toTraced op
  by_cases single : op.IsCall
  · refine linked.act (Takes.call single) (fun op' same => ?_) nofun
    obtain rfl := Action.call.inj same
    exact existing
  cases op with
  | run timeout start passes => exact absurd trivial outside
  | arrive attempt outcome => exact linked.act Takes.arrive nofun nofun
  | deleteIod order key =>
      refine { valid with linked := fun id e held kind => ?_ }
      refine refers_deleteIod (fun e' before iodId named => ?_) order key e held
      obtain rfl := before.unique (open_of_deleteIod held)
      exact linked.linked id e' before kind iodId named
  | delete iodOrder orders order =>
      refine { valid with linked := fun id e held => ?_ }
      exact absurd held (not_open_delete iodOrder orders order pool id e)
  | _ => exact (single trivial).elim

theorem calls_called (id evid : EventId) (status : EventStatus) :
    calls id [.called evid evid status] = if evid = id then [status] else [] := by
  by_cases own : evid = id
  · rw [if_pos own]
    exact List.filterMap_cons_some (if_pos own)
  · rw [if_neg own]
    exact List.filterMap_cons_none (if_neg own)

theorem stream_of_success {result : ConnectResult} (success : result.status = .success) :
    ∃ stream, result.stream = some stream := by
  rw [ConnectResult.status] at success
  rw [ConnectResult.stream]
  split at success
  · exact ⟨_, rfl⟩
  · cases success

/-- A connect that succeeds leaves a usable descriptor. -/
theorem Linked.connectsUsably (linked : pool.Linked) (cmd : Cmd) : pool.ConnectsUsably cmd := by
  intro order id e iodId held kind named success
  cases cmd with
  | quit => exact absurd (List.append_right_eq_self.mp success.symm) (List.cons_ne_nil _ _)
  | connectResult result =>
      cases target : pool.connectTarget order result.iod with
      | none =>
          rw [receive_result_of_none target, note_log, calls_append] at success
          cases List.append_cancel_left success
      | some evid =>
          obtain ⟨e', held', -, named', received⟩ := receive_result_of_some target
          obtain ⟨handler, live⟩ := linked.live evid e' held'
          simp only [live, Bool.false_eq_true, ↓reduceIte, handler] at received
          have iods : (pool.receive order (.connectResult result)).iods =
              (pool.install result).iods := by
            rw [received, call_iods]
            rfl
          rw [received, call_log, drop_log, note_log, install_log, List.append_assoc,
            calls_append] at success
          have ended := List.append_cancel_left success
          rw [calls_append] at ended
          have called : calls id [.called evid evid result.status] = [.success] := ended
          rw [calls_called] at called
          split at called
          · rename_i own
            subst own
            obtain rfl := held.unique held'
            obtain rfl := Option.some.inj (named.symm.trans named')
            obtain ⟨stream, opened⟩ := stream_of_success (List.cons.inj called).1
            obtain ⟨iod, found⟩ := Option.isSome_iff_exists.mp
              (linked.linked evid e held kind result.iod named)
            refine ⟨iod.install stream, ?_, iod.usable_install stream⟩
            rw [iods, install, opened]
            exact (Table.lookup_modify _).trans (congrArg (Option.map _) found)
          · cases called

/-- A connect only succeeds while the commands are handled. -/
theorem succeedsByCommand (sound : pool.Sound) (pass : Pass) : SucceedsByCommand pool pass := by
  intro id e held kind delivers
  cases (drained_event sound pass id).2 with
  | connected e' held' kind' status ended closed readBuf log =>
      rw [← (runPass_closed sound pass (not_open_of_gone closed)).calls]
      exact delivers
  | same same =>
      have held' := (same.open_iff e).mpr held
      have passed := runPass_open sound pass held'
      have verdict : ((pool.drained pass).verdict pass id).toList = [.success] := by
        rw [Delivers, passed.calls, calls_attempted, same.calls] at delivers
        exact List.append_cancel_left delivers
      cases due : dueStatus pass.now e with
      | some status =>
          rw [verdict_of_due held' due] at verdict
          obtain ⟨-, ⟨timer, -⟩ | ⟨-, rfl⟩⟩ := dueStatus_eq_some due
          · rw [kind] at timer
            cases timer
          · cases verdict
      | none =>
          rw [verdict_of_not_due held' due,
            tryIo_of_no_io pass held'.1 (by rw [kind]; decide) (by rw [kind]; decide)] at verdict
          cases verdict

/-! ## Results that come too late -/

/-- The descriptor was deleted, and no connect waits for it. -/
structure Closed (iodId : Nat) (pool : Pool) : Prop extends Traced pool where
  given : iodId ≤ pool.iodCounter
  missing : pool.iods.lookup iodId = none
  idle : ∀ id e, pool.Open id e → e.kind = .connect → e.iod ≠ some iodId

theorem Closed.act (closed : Closed iodId pool) {action : Action} (taken : Takes op pool action)
    (existing : ∀ op, action = .call op → ExistingConnect pool op) :
    Closed iodId (pool.act action) := by
  refine { closed.toTraced.act taken with
    given := closed.given.trans taken.iodCounter
    missing := taken.iod_eq_none closed.given closed.missing
    idle := fun id e held kind named => ?_ }
  rcases taken.opened closed.toTraced held with ⟨e', before, kind', iod⟩ | ⟨-, asked, -, request⟩
  · exact closed.idle id e' before (kind'.trans kind) (iod.trans named)
  · have existing := existing op asked
    rw [kind, named] at request
    cases op with
    | connectTcp key addr timeoutMs now =>
        obtain ⟨-, same⟩ := Prod.mk.inj (Option.some.inj request)
        obtain rfl := Option.some.inj same
        rw [ExistingConnect, closed.missing] at existing
        cases existing
    | _ => cases request

theorem Closed.perform (closed : Closed iodId pool) (outside : ¬ op.IsRun)
    (existing : ExistingConnect pool op) : Closed iodId (perform op pool).2 := by
  have along : OpAlong ExistingConnect (fun _ _ => True) op pool := by
    cases op with
    | run timeout start passes => exact absurd trivial outside
    | _ => exact existing
  refine (perform_steps along).invariant (Closed iodId) closed fun state action closed allowed => ?_
  refine closed.act allowed.1 ?_
  rintro op' rfl
  exact allowed.2

theorem Closed.revivesNothing (closed : Closed iodId pool) (cmd : Cmd) :
    RevivesNothing iodId pool cmd := by
  rintro result rfl rfl order
  apply receive_result_of_none
  cases target : pool.connectTarget order result.iod with
  | none => rfl
  | some evid =>
      obtain ⟨e, held, kind, named⟩ := connectTarget_eq_some target
      exact absurd named (closed.idle evid e held kind)

theorem closed_deleteIod (valid : pool.Traced) (order : List Nat) (given : iodId ≤ pool.iodCounter) :
    Closed iodId (perform (.deleteIod order iodId) pool).2 where
  toTraced := traced_perform valid _
  given := by
    have counter (op : Op) (reached : Pool) (action : Action)
        (before : pool.iodCounter ≤ reached.iodCounter) (taken : Takes op reached action) :
        pool.iodCounter ≤ (reached.act action).iodCounter := before.trans taken.iodCounter
    exact given.trans (perform_invariant counter (.deleteIod order iodId) (Nat.le_refl _))
  missing := by
    change (pool.deleteIod order iodId).2.iods.lookup iodId = none
    rw [deleteIod_iods]
    exact AList.lookup_erase ..
  idle id e held _ := deleteIod_gone order held.1

/-! ## Whole histories -/

/-- **A connect that succeeds leaves a usable descriptor.** Where connects are only requested
for descriptors in the pool, an undelivered event does not lose its descriptor, each
connect succeeds by a command that leaves its descriptor usable, and after a descriptor was
deleted its results only leave a note. -/
theorem connects_usable (earlier later : List Op)
    (existing : Along ExistingConnect (fun _ _ => True) earlier new)
    (further : Along ExistingConnect (fun _ _ => True) later (execute earlier new)) :
    let before := execute earlier new
    (∀ id, before.Created id → before.Refers id → (execute later before).Refers id) ∧
      Along (fun _ _ => True) ConnectsUsably later before ∧
      Throughout EndsOnly SucceedsByCommand later before ∧
      ∀ order iodId rest, later = .deleteIod order iodId :: rest → iodId ≤ before.iodCounter →
        Along (fun _ _ => True) (RevivesNothing iodId) rest
          (perform (.deleteIod order iodId) before).2 := by
  intro before
  have linked : before.Linked := by
    have kept : Along (fun _ _ => True) (fun _ _ => True) earlier new ∧ before.Linked := by
      refine Along.invariant ?_ (fun _ _ _ => trivial) ?_ existing linked_new
      · exact fun pool action linked taken =>
          linked.act taken (fun op same => absurd same (taken.of_loop.1 op)) taken.of_loop.2
      · exact fun pool op outside linked existing => linked.perform outside existing
    exact kept.2
  refine ⟨fun id known refers => ?_, ?_, ?_, ?_⟩
  · have referring : Referring id before := { linked.toTraced with known, refers }
    exact (referring.execute later).refers
  · refine (Along.invariant ?_ ?_ ?_ further linked).1
    · exact fun pool action linked taken =>
        linked.act taken (fun op same => absurd same (taken.of_loop.1 op)) taken.of_loop.2
    · exact fun pool cmd linked => linked.connectsUsably cmd
    · exact fun pool op outside linked existing => linked.perform outside existing
  · have along : Throughout (fun _ _ => True) (fun _ _ => True) later before :=
      throughout_of_forall (fun _ _ => trivial) (fun _ _ => trivial) later before
    have valid : before.Sound ∧ Throughout EndsOnly SucceedsByCommand later before := by
      refine ⟨linked.toSound, (Throughout.invariant ?_ ?_ ?_ along linked.toSound).1⟩
      · exact fun pool value sound => sound_of_view sound ⟨rfl, rfl, rfl, rfl⟩
      · exact fun pool pass sound _ => ⟨succeedsByCommand sound pass, sound_runPass sound pass⟩
      · exact fun pool op outside sound _ => ⟨endsOnly sound outside,
          perform_invariant (fun _ _ _ sound taken => (taken.change sound).sound sound) op sound⟩
    exact valid.2
  · rintro order iodId rest rfl given
    refine (Along.invariant ?_ ?_ ?_ (further.2 nofun)
      (closed_deleteIod linked.toTraced order given)).1
    · exact fun pool action closed taken =>
        closed.act taken fun op same => absurd same (taken.of_loop.1 op)
    · exact fun pool cmd closed => closed.revivesNothing cmd
    · exact fun pool op outside closed existing => closed.perform outside existing

/-- A connect is requested. -/
def connectAsked : List Op := [.createIodTcp, .connectTcp 1 (localhost 80) 3000 0]

/-- The descriptor is deleted before the result arrives. -/
def deletedEarly : List Op :=
  [.deleteIod [] 1, .run (-1) 0 [{ idlePass with arrivals := [(1, .ok (some (localhost 80)))] }]]

theorem deletedEarly_revivesNothing :
    Along (fun _ _ => True) (RevivesNothing 1) deletedEarly.tail
      (perform (.deleteIod [] 1) (execute connectAsked new)).2 :=
  (connects_usable connectAsked deletedEarly (by decide) (by decide)).2.2.2 [] 1 _ rfl (by decide)

/-- A read for a descriptor that is not in the pool. -/
def strayRead : List Op := [.read 5 (-1) 0]

/-- A descriptor is deleted before it is given out, and then connects. -/
def deletedInAdvance : List Op :=
  [.createIodTcp, .connectTcp 1 (localhost 80) 3000 0,
    .run (-1) 0 [{ idlePass with arrivals := [(1, .ok (some (localhost 80)))] }]]

/-- The read is undelivered, and its descriptor is missing; a result that comes after the
deletion in advance connects its descriptor. -/
theorem strayRead_refers_nowhere :
    Along ExistingConnect (fun _ _ => True) strayRead new ∧
      (execute strayRead new).isUndelivered 1 = true ∧ ¬ (execute strayRead new).Refers 1 ∧
      Along ExistingConnect (fun _ _ => True) (.deleteIod [] 1 :: deletedInAdvance) new ∧
      ¬ Along (fun _ _ => True) (RevivesNothing 1) deletedInAdvance
        (perform (.deleteIod [] 1) new).2 := by
  refine ⟨by decide, by decide, fun refers => ?_, by decide, fun revives => ?_⟩
  · have held : (execute strayRead new).Open 1 _ := ⟨AList.lookup_insert _, rfl⟩
    have described := refers _ held 5 rfl
    revert described
    decide
  · have unmoved := ((revives.2 (by decide)).2 (by decide)).1.1.1 _ rfl rfl []
    have connected := congrArg (fun pool => (pool.iods.lookup 1).map Iod.connected) unmoved
    revert connected
    decide

end Pool

end Wnr.Nsock
