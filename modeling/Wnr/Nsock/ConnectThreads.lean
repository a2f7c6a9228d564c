import Wnr.Nsock.ConnectResults
import Wnr.Nsock.Deadlines
import Wnr.Nsock.PassFrame

/-! # Connects that run side by side

As long as no two connects share a descriptor (`Pool.Solo`), what becomes of a connect is
up to its own helper thread and its own deadline: the first pass that the thread ends
before, or whose clock has reached the deadline, ends the event (`Pool.Solo.ends`), and
the loop comes to what each event would come to alone (`Pool.Solo.runPasses`).
-/

namespace Wnr.Nsock

open Net

/-- The status that the outcome of an attempt stands for. -/
def outcomeStatus : Except Unit (Option SocketAddr) → EventStatus
  | .ok _ => .success
  | .error _ => .error

namespace Pool

/-- What a pass alone comes to for a connect: its thread has ended before the pass, or its
deadline has come. -/
def Pass.ending (self : Pass) (id : EventId) (deadline : Option Instant) : Option EventStatus :=
  match self.arrivals.lookup id with
  | some outcome => some (outcomeStatus outcome)
  | none => if deadline.any (· ≤ self.now) then some .timeout else none

/-- What the first passes that are through with a connect come to for it. -/
def endingOf (id : EventId) (deadline : Option Instant) (passes : List Pass) :
    Option EventStatus :=
  passes.findSome? fun pass => pass.ending id deadline

/-- The results of an attempt among the commands. -/
def resultsOf (attempt : EventId) (cmds : List Cmd) : List ConnectResult :=
  cmds.filterMap fun
    | .connectResult result => if result.attempt = attempt then some result else none
    | .quit => none

/-- No helper thread has a rival, every connect has its thread, and nothing else has been
sent to the loop. -/
structure Solo (pool : Pool) : Prop extends pool.Sound where
  distinct : (pool.connecting.map Attempt.event).Nodup
  threads : ∀ thread ∈ pool.connecting, ∀ id e, pool.Open id e → e.kind = .connect →
    e.iod = some thread.iod → id = thread.event
  own : ∀ id e, pool.Open id e → e.kind = .connect →
    ∃ thread ∈ pool.connecting, thread.event = id ∧ e.iod = some thread.iod
  empty : pool.channel = []
  going : pool.quit = false

variable {pool after : Pool} {pass : Pass} {id : EventId} {e : Pending} {thread : Attempt}
  {arrivals : List (EventId × Except Unit (Option SocketAddr))} {cmds : List Cmd}

/-! ## The threads and the commands -/

theorem install_mail (pool : Pool) (result : ConnectResult) :
    SameMail pool (pool.install result) := by
  rw [install]
  split
  · exact ⟨rfl, rfl, rfl⟩
  · exact .rfl

theorem finishConnect_mail (pool : Pool) (id : EventId) (status : EventStatus) :
    SameMail pool (pool.finishConnect id status) := by
  rw [finishConnect]
  split
  · exact .rfl
  split
  · exact ⟨rfl, rfl, rfl⟩
  · have dropped : SameMail pool (pool.drop id) := ⟨rfl, rfl, rfl⟩
    exact dropped.trans (call_frame _ _ _ _).toSameMail

theorem receive_mail (pool : Pool) (order : List Nat) (result : ConnectResult) :
    SameMail pool (pool.receive order (.connectResult result)) := by
  rw [receive]
  split
  · exact ⟨rfl, rfl, rfl⟩
  · apply SameMail.trans _ (finishConnect_mail _ _ _)
    exact (install_mail pool result).trans ⟨rfl, rfl, rfl⟩

/-! ## The ends of the threads -/

theorem resultsOf_append (id : EventId) (cmds added : List Cmd) :
    resultsOf id (cmds ++ added) = resultsOf id cmds ++ resultsOf id added :=
  List.filterMap_append

theorem resultsOf_self (result : ConnectResult) :
    resultsOf result.attempt [.connectResult result] = [result] := by
  simp only [resultsOf, List.filterMap_cons, ↓reduceIte, List.filterMap_nil]

theorem resultsOf_other {result : ConnectResult} (ne : result.attempt ≠ id) :
    resultsOf id [.connectResult result] = [] := by
  simp only [resultsOf, List.filterMap_cons, ne, ↓reduceIte, List.filterMap_nil]

theorem resultsOf_cons (id : EventId) (cmd : Cmd) (rest : List Cmd) :
    resultsOf id (cmd :: rest) = resultsOf id [cmd] ++ resultsOf id rest :=
  resultsOf_append id [cmd] rest

/-- The end of a thread, or of none. -/
theorem arrive_cases (pool : Pool) (attempt : EventId)
    (outcome : Except Unit (Option SocketAddr)) :
    pool.arrive attempt outcome = pool ∧ (∀ thread ∈ pool.connecting, thread.event ≠ attempt) ∨
      ∃ thread ∈ pool.connecting, thread.event = attempt ∧
        (pool.arrive attempt outcome).connecting = pool.connecting.erase thread ∧
        (pool.arrive attempt outcome).channel =
          pool.channel ++ [.connectResult ⟨attempt, thread.iod, outcome⟩] := by
  rw [arrive]
  cases found : pool.connecting.find? (·.event = attempt) with
  | none =>
      refine .inl ⟨rfl, fun thread member same => ?_⟩
      exact List.find?_eq_none.mp found thread member (decide_eq_true same)
  | some thread =>
      have named : thread.event = attempt := by simpa using List.find?_some found
      exact .inr ⟨thread, List.mem_of_find?_eq_some found, named, rfl, rfl⟩

theorem arriveAll_sublist (arrivals : List (EventId × Except Unit (Option SocketAddr)))
    (pool : Pool) : (arriveAll arrivals pool).connecting.Sublist pool.connecting := by
  induction arrivals generalizing pool with
  | nil => exact .refl _
  | cons arrival rest ih =>
      apply (ih _).trans
      rcases arrive_cases pool arrival.1 arrival.2 with ⟨still, -⟩ | ⟨thread, -, -, left, -⟩
      · rw [still]
      · rw [left]
        exact List.erase_sublist

/-- The commands that the ends of threads add are their results. -/
theorem arriveAll_cmds {arrivals : List (EventId × Except Unit (Option SocketAddr))} {cmd : Cmd}
    (member : cmd ∈ (arriveAll arrivals pool).channel) :
    cmd ∈ pool.channel ∨ ∃ thread ∈ pool.connecting, ∃ outcome,
      cmd = .connectResult ⟨thread.event, thread.iod, outcome⟩ := by
  induction arrivals generalizing pool with
  | nil => exact .inl member
  | cons arrival rest ih =>
      rcases arrive_cases pool arrival.1 arrival.2 with ⟨still, -⟩ | ⟨thread, held, named, left, sent⟩
      · rw [arriveAll, still] at member
        exact ih member
      · rcases ih member with before | ⟨other, held', outcome, result⟩
        · rw [sent] at before
          rcases List.mem_append.mp before with old | new
          · exact .inl old
          · rw [List.mem_singleton, ← named] at new
            exact .inr ⟨thread, held, arrival.2, new⟩
        · rw [left] at held'
          exact .inr ⟨other, List.mem_of_mem_erase held', outcome, result⟩

/-- Once a thread has ended, nothing more comes from it. -/
theorem resultsOf_arriveAll_of_gone
    (gone : ∀ thread ∈ pool.connecting, thread.event ≠ id) :
    resultsOf id (arriveAll arrivals pool).channel = resultsOf id pool.channel := by
  induction arrivals generalizing pool with
  | nil => rfl
  | cons arrival rest ih =>
      rw [arriveAll]
      rcases arrive_cases pool arrival.1 arrival.2 with ⟨still, -⟩ | ⟨thread, held, named, left, sent⟩
      · rw [still]
        exact ih gone
      · have others : ∀ other ∈ (pool.arrive arrival.1 arrival.2).connecting, other.event ≠ id := by
          rw [left]
          exact fun other member => gone other (List.mem_of_mem_erase member)
        have foreign : arrival.1 ≠ id := named ▸ gone thread held
        rw [ih others, sent, resultsOf_append, resultsOf_other foreign, List.append_nil]

theorem eq_of_event_eq (distinct : (pool.connecting.map Attempt.event).Nodup) {other : Attempt}
    (held : thread ∈ pool.connecting) (held' : other ∈ pool.connecting)
    (same : thread.event = other.event) : thread = other :=
  List.inj_on_of_nodup_map distinct held held' same

/-- **What a thread sends.** Its first end, and nothing else. -/
theorem arriveAll_thread (distinct : (pool.connecting.map Attempt.event).Nodup)
    (held : thread ∈ pool.connecting) :
    resultsOf thread.event (arriveAll arrivals pool).channel =
        resultsOf thread.event pool.channel ++
          ((arrivals.lookup thread.event).map fun outcome =>
            ConnectResult.mk thread.event thread.iod outcome).toList ∧
      (arrivals.lookup thread.event = none → thread ∈ (arriveAll arrivals pool).connecting) := by
  induction arrivals generalizing pool with
  | nil => exact ⟨(List.append_nil _).symm, fun _ => held⟩
  | cons arrival rest ih =>
      obtain ⟨attempt, outcome⟩ := arrival
      rw [arriveAll]
      rcases arrive_cases pool attempt outcome with ⟨still, none⟩ | ⟨other, held', named, left, sent⟩
      · have ne : thread.event ≠ attempt := none thread held
        rw [still, List.lookup_cons, beq_false_of_ne ne]
        exact ih distinct held
      · by_cases same : thread.event = attempt
        · obtain rfl := eq_of_event_eq distinct held held' (same.trans named.symm)
          have gone : ∀ t ∈ (pool.arrive attempt outcome).connecting, t.event ≠ thread.event := by
            intro t member twice
            rw [left] at member
            have here := List.mem_of_mem_erase member
            rw [eq_of_event_eq distinct here held twice] at member
            exact (distinct.of_map _).not_mem_erase member
          rw [resultsOf_arriveAll_of_gone gone, sent, resultsOf_append, List.lookup_cons, same,
            beq_self_eq_true]
          exact ⟨congrArg _ (resultsOf_self ⟨attempt, thread.iod, outcome⟩), nofun⟩
        · have ne : thread ≠ other := fun eq => same (eq ▸ named)
          have distinct' : ((pool.arrive attempt outcome).connecting.map Attempt.event).Nodup := by
            rw [left]
            exact distinct.sublist (List.erase_sublist.map Attempt.event)
          have held' : thread ∈ (pool.arrive attempt outcome).connecting := by
            rw [left]
            exact (List.mem_erase_of_ne ne).mpr held
          obtain ⟨results, kept⟩ := ih distinct' held'
          rw [List.lookup_cons, beq_false_of_ne same]
          refine ⟨?_, kept⟩
          rw [results, sent, resultsOf_append, resultsOf_other (Ne.symm same), List.append_nil]

/-! ## The commands -/

/-- A connect is found by its descriptor. -/
theorem connectTarget_ne_none {order : List Nat} {iodId : Nat} (held : pool.Open id e)
    (kind : e.kind = .connect) (named : e.iod = some iodId) :
    pool.connectTarget order iodId ≠ none := by
  intro missed
  have listed : id ∈ Table.walk order pool.pending :=
    (Table.mem_walk_iff_lookup order pool.pending).mpr ⟨e, held.1⟩
  have refused := List.find?_eq_none.mp missed id listed
  simp only [held.1, kind, held.2, named, decide_true, Bool.not_false, Bool.and_self,
    not_true_eq_false] at refused

/-- Without a rival, the result of an attempt ends its own event and no other. -/
theorem receive_own {result : ConnectResult} (sound : pool.Sound) (order : List Nat)
    (alone : pool.Unrivaled (.connectResult result)) (held : pool.Open id e)
    (kind : e.kind = .connect) (named : result.attempt = id → e.iod = some result.iod) :
    (result.attempt ≠ id → SameEvent id pool (pool.receive order (.connectResult result))) ∧
      (result.attempt = id →
        (pool.receive order (.connectResult result)).pending.lookup id = none ∧
          calls id (pool.receive order (.connectResult result)).log =
            calls id pool.log ++ [result.status]) := by
  cases target : pool.connectTarget order result.iod with
  | none =>
      refine ⟨fun _ => ?_, fun same => ?_⟩
      · have receipt (receipt : Receipt) : about id [.result receipt] = [] :=
          about_of_event_ne nofun
        rw [receive_result_of_none target]
        refine ⟨rfl, rfl, ?_⟩
        rw [note_log, about_append, receipt, List.append_nil]
      · exact absurd target (connectTarget_ne_none held kind (named same))
  | some evid =>
      obtain rfl := eq_attempt_of_target alone target
      obtain ⟨e', held', -, -, received⟩ := receive_result_of_some target
      obtain ⟨handler, live⟩ := sound.live result.attempt e' held'
      simp only [live, Bool.false_eq_true, ↓reduceIte, handler] at received
      constructor
      · intro ne
        cases receive_event sound order (.connectResult result) id with
        | same same => exact same
        | connected _ _ _ _ _ closed =>
            rw [received, call_pending, lookup_drop_ne _ ne.symm, note_pending, install_pending,
              held.1] at closed
            cases closed
      · rintro rfl
        rw [received]
        refine ⟨by rw [call_pending, lookup_drop], ?_⟩
        rw [call_log, drop_log, note_log, install_log, calls_append, calls_append]
        simp only [calls, callEffects, List.filterMap_cons, List.filterMap_nil, ↓reduceIte,
          List.append_nil]

theorem Unrivaled.receive {cmd other : Cmd} (sound : pool.Sound) (order : List Nat)
    (alone : pool.Unrivaled other) : (pool.receive order cmd).Unrivaled other := by
  cases other with
  | quit => exact trivial
  | connectResult result =>
      intro id e held
      exact alone id e ((receive_event sound order cmd id).open_of_open held).1

/-- Results of other attempts do not matter to a connect. -/
theorem receiveAll_others (sound : pool.Sound) (orders : List (List Nat))
    (alone : ∀ cmd ∈ cmds, pool.Unrivaled cmd) (held : pool.Open id e) (kind : e.kind = .connect)
    (none : resultsOf id cmds = []) : SameEvent id pool (receiveAll orders cmds pool) := by
  induction cmds generalizing orders pool with
  | nil => exact .rfl
  | cons cmd rest ih =>
      rw [resultsOf_cons, List.append_eq_nil_iff] at none
      have first : SameEvent id pool (pool.receive (orders.headD []) cmd) := by
        cases cmd with
        | quit => exact ⟨rfl, rfl, rfl⟩
        | connectResult result =>
            have foreign : result.attempt ≠ id := by
              rintro rfl
              rw [resultsOf_self] at none
              cases none.1
            exact (receive_own sound _ (alone _ List.mem_cons_self) held kind
              fun own => absurd own foreign).1 foreign
      apply first.trans
      apply ih (sound_receive sound _ _) orders.tail _ ((first.open_iff e).mpr held) none.2
      exact fun other member => (alone other (List.mem_cons_of_mem _ member)).receive sound _

/-- **The first result of its attempt** ends a connect. -/
theorem receiveAll_own {result : ConnectResult} {later : List ConnectResult} (sound : pool.Sound)
    (orders : List (List Nat)) (alone : ∀ cmd ∈ cmds, pool.Unrivaled cmd)
    (held : pool.Open id e) (kind : e.kind = .connect)
    (sent : resultsOf id cmds = result :: later) (named : e.iod = some result.iod) :
    (receiveAll orders cmds pool).pending.lookup id = none ∧
      calls id (receiveAll orders cmds pool).log = calls id pool.log ++ [result.status] := by
  induction cmds generalizing orders pool with
  | nil => cases sent
  | cons cmd rest ih =>
      have sound' := sound_receive sound (orders.headD []) cmd
      have alone' : ∀ other ∈ rest, (pool.receive (orders.headD []) cmd).Unrivaled other :=
        fun other member => (alone other (List.mem_cons_of_mem _ member)).receive sound _
      have skipped (same : SameEvent id pool (pool.receive (orders.headD []) cmd))
          (sent : resultsOf id rest = result :: later) :
          (receiveAll orders (cmd :: rest) pool).pending.lookup id = none ∧
            calls id (receiveAll orders (cmd :: rest) pool).log =
              calls id pool.log ++ [result.status] := by
        rw [← same.calls]
        exact ih sound' orders.tail alone' ((same.open_iff e).mpr held) sent
      rw [resultsOf_cons] at sent
      cases cmd with
      | quit => exact skipped ⟨rfl, rfl, rfl⟩ sent
      | connectResult first =>
          by_cases own : first.attempt = id
          · obtain rfl : first = result := by
              rw [← own, resultsOf_self] at sent
              exact (List.cons.inj sent).1
            obtain ⟨closed, called⟩ := (receive_own sound (orders.headD [])
              (alone _ List.mem_cons_self) held kind fun _ => named).2 own
            have gone := not_open_of_gone closed
            obtain ⟨-, after⟩ := receiveAll_event sound' orders.tail rest id
            cases after with
            | same same => exact ⟨same.held.trans closed, same.calls.trans called⟩
            | connected e' held' => exact absurd held' (gone e')
          · rw [resultsOf_other own, List.nil_append] at sent
            have same := (receive_own sound (orders.headD []) (alone _ List.mem_cons_self) held kind
              fun mine => absurd mine own).1 own
            exact skipped same sent

/-! ## One pass -/

theorem arriveAll_quit (arrivals : List (EventId × Except Unit (Option SocketAddr)))
    (pool : Pool) : (arriveAll arrivals pool).quit = pool.quit := by
  induction arrivals generalizing pool with
  | nil => rfl
  | cons arrival rest ih =>
      rw [arriveAll, ih, arrive]
      split <;> rfl

theorem receiveAll_mail (orders : List (List Nat))
    (results : ∀ cmd ∈ cmds, ∃ result, cmd = .connectResult result) :
    SameMail pool (receiveAll orders cmds pool) := by
  induction cmds generalizing orders pool with
  | nil => exact .rfl
  | cons cmd rest ih =>
      obtain ⟨result, rfl⟩ := results cmd List.mem_cons_self
      apply (receive_mail pool (orders.headD []) result).trans
      exact ih orders.tail fun other member => results other (List.mem_cons_of_mem _ member)

/-- No socket is tried for a connect. -/
theorem tryIo_connect {pool : Pool} (pass : Pass) (held : pool.Open id e)
    (kind : e.kind = .connect) : pool.tryIo pass id = (none, pool) := by
  apply tryIo_of_no_io pass held.1
  · rw [kind]
    exact nofun
  · rw [kind]
    exact nofun

theorem dueStatus_connect (now : Instant) (kind : e.kind = .connect) :
    dueStatus now e = if e.deadline.any (· ≤ now) then some .timeout else none := by
  rw [dueStatus]
  cases e.deadline with
  | none => rfl
  | some d => simp only [kind, reduceCtorEq, ↓reduceIte, Option.any_some, decide_eq_true_eq]

/-- Once the commands are handled, a connect has its deadline only. -/
theorem passed_connect (sound : pool.Sound) (pass : Pass) (held : (pool.drained pass).Open id e)
    (kind : e.kind = .connect) :
    Passed (pool.drained pass) (pool.runPass pass) id
      (if e.deadline.any (· ≤ pass.now) then some .timeout else none) := by
  have passed := runPass_open sound pass held
  have still : (pool.drained pass).attempted pass id = pool.drained pass := by
    rw [attempted]
    split
    · rfl
    · rw [tryIo_connect pass held kind]
  have given : (pool.drained pass).verdict pass id = dueStatus pass.now e := by
    cases due : dueStatus pass.now e with
    | some status => exact verdict_of_due held due
    | none => rw [verdict_of_not_due held due, tryIo_connect pass held kind]
  rw [still, given, dueStatus_connect pass.now kind] at passed
  exact passed

variable (solo : pool.Solo)

include solo

/-- The commands of a pass are results of threads. -/
theorem Solo.sent {cmd : Cmd} (member : cmd ∈ (arriveAll arrivals pool).channel) :
    ∃ thread ∈ pool.connecting, ∃ outcome,
      cmd = .connectResult ⟨thread.event, thread.iod, outcome⟩ := by
  rcases arriveAll_cmds member with old | sent
  · rw [solo.empty] at old
    cases old
  · exact sent

theorem Solo.drained_mail (pass : Pass) :
    (pool.drained pass).connecting = (arriveAll pass.arrivals pool).connecting ∧
      (pool.drained pass).channel = [] ∧ (pool.drained pass).quit = false := by
  have mail : SameMail { arriveAll pass.arrivals pool with channel := [] } (pool.drained pass) :=
    receiveAll_mail pass.searches fun cmd member => by
      obtain ⟨_, -, _, sent⟩ := solo.sent member
      exact ⟨_, sent⟩
  exact ⟨mail.connecting, mail.channel,
    mail.quit.trans ((arriveAll_quit _ _).trans solo.going)⟩

/-- **What the commands do to a connect.** The end of its own thread ends it, and nothing
else does. -/
theorem Solo.drained (pass : Pass) (held : pool.Open id e) (kind : e.kind = .connect) :
    match pass.arrivals.lookup id with
    | some outcome => (pool.drained pass).pending.lookup id = none ∧
        calls id (pool.drained pass).log = calls id pool.log ++ [outcomeStatus outcome]
    | none => SameEvent id pool (pool.drained pass) := by
  have arrived (other : EventId) :
      SameEvent other pool { arriveAll pass.arrivals pool with channel := [] } :=
    (arriveAll_event solo.toSound pass.arrivals other).2.trans ⟨rfl, rfl, rfl⟩
  have sound : ({ arriveAll pass.arrivals pool with channel := [] } : Pool).Sound :=
    sound_of_view (arriveAll_event solo.toSound pass.arrivals id).1 ⟨rfl, rfl, rfl, rfl⟩
  have alone : ∀ cmd ∈ (arriveAll pass.arrivals pool).channel,
      Unrivaled { arriveAll pass.arrivals pool with channel := [] } cmd := by
    intro cmd member
    obtain ⟨thread, working, outcome, rfl⟩ := solo.sent member
    intro other e' held'
    exact solo.threads thread working other e' (((arrived other).open_iff e').mp held')
  obtain ⟨thread, working, rfl, named⟩ := solo.own id e held kind
  have held' := ((arrived thread.event).open_iff e).mpr held
  have sent : resultsOf thread.event (arriveAll pass.arrivals pool).channel = _ :=
    (arriveAll_thread solo.distinct working).1
  rw [solo.empty] at sent
  cases outcome : pass.arrivals.lookup thread.event with
  | some outcome' =>
      rw [outcome] at sent
      obtain ⟨closed, called⟩ := receiveAll_own sound pass.searches alone held' kind sent named
      refine ⟨closed, called.trans ?_⟩
      rw [(arrived thread.event).calls]
      cases outcome' <;> rfl
  | none =>
      rw [outcome] at sent
      exact (arrived thread.event).trans
        (receiveAll_others sound pass.searches alone held' kind sent)

/-- **The end of a connect**: its thread has ended, or its deadline has come. -/
theorem Solo.ends (pass : Pass) (held : pool.Open id e) (kind : e.kind = .connect)
    {status : EventStatus} (ending : pass.ending id e.deadline = some status) :
    (∀ e', ¬ (pool.runPass pass).Open id e') ∧
      calls id (pool.runPass pass).log = calls id pool.log ++ [status] := by
  have commands := solo.drained pass held kind
  rw [Pass.ending] at ending
  cases outcome : pass.arrivals.lookup id with
  | some outcome' =>
      rw [outcome] at commands ending
      obtain rfl := Option.some.inj ending
      have closed := not_open_of_gone commands.1
      have after := runPass_closed solo.toSound pass closed
      exact ⟨fun e' held' => closed e' ((after.open_iff e').mp held'),
        after.calls.trans commands.2⟩
  | none =>
      rw [outcome] at commands ending
      have passed := passed_connect solo.toSound pass ((commands.open_iff e).mpr held) kind
      simp only [ending] at passed
      refine ⟨?_, passed.calls.trans (congrArg (· ++ [status]) commands.calls)⟩
      cases passed with
      | delivered _ _ _ closed => exact not_open_of_gone closed

/-- **A connect goes on** until then. -/
theorem Solo.waits (pass : Pass) (held : pool.Open id e) (kind : e.kind = .connect)
    (ending : pass.ending id e.deadline = none) :
    (pool.runPass pass).Open id e ∧ calls id (pool.runPass pass).log = calls id pool.log := by
  have commands := solo.drained pass held kind
  rw [Pass.ending] at ending
  cases outcome : pass.arrivals.lookup id with
  | some outcome' =>
      rw [outcome] at ending
      cases ending
  | none =>
      rw [outcome] at commands ending
      have held' := (commands.open_iff e).mpr held
      have passed := passed_connect solo.toSound pass held' kind
      simp only [ending] at passed
      cases passed with
      | kept same => exact ⟨(same.open_iff e).mpr held', same.calls.trans commands.calls⟩

/-- A connect after a pass is one from before it that goes on. -/
theorem Solo.kept (pass : Pass) (held : (pool.runPass pass).Open id e) (kind : e.kind = .connect) :
    pool.Open id e ∧ pass.ending id e.deadline = none := by
  obtain ⟨e', before, opened, fields, -, tried⟩ := open_of_runPass solo.toSound pass held
  have kind' : e'.kind = .connect := by
    rw [← kind, fields]
  rw [tryIo_connect pass opened kind'] at tried
  obtain rfl := tried.unique opened
  refine ⟨before, ?_⟩
  cases ending : pass.ending id e.deadline with
  | none => rfl
  | some status => exact absurd held ((solo.ends pass before kind ending).1 e)

theorem Solo.runPass (pass : Pass) : (pool.runPass pass).Solo := by
  have mail := runPass_frame pool pass
  obtain ⟨threads, channel, quit⟩ := solo.drained_mail pass
  have fewer : (pool.runPass pass).connecting.Sublist pool.connecting := by
    rw [mail.connecting, threads]
    exact arriveAll_sublist pass.arrivals pool
  exact
    { toSound := sound_runPass solo.toSound pass
      distinct := solo.distinct.sublist (fewer.map Attempt.event)
      threads := fun thread working id e held kind =>
        solo.threads thread (fewer.subset working) id e (solo.kept pass held kind).1 kind
      own := fun id e held kind => by
        obtain ⟨before, ending⟩ := solo.kept pass held kind
        obtain ⟨thread, working, rfl, named⟩ := solo.own id e before kind
        rw [mail.connecting, threads]
        refine ⟨thread, (arriveAll_thread solo.distinct working).2 ?_, rfl, named⟩
        rw [Pass.ending] at ending
        cases outcome : pass.arrivals.lookup thread.event with
        | none => rfl
        | some outcome' =>
            rw [outcome] at ending
            cases ending
      empty := mail.channel.trans channel
      going := mail.quit.trans quit }

/-! ## Whole loops -/

/-- Every undelivered event is a connect. -/
def OnlyConnects (pool : Pool) : Prop := ∀ id e, pool.Open id e → e.kind = .connect

omit solo in
theorem endingOf_cons (id : EventId) (deadline : Option Instant) (pass : Pass)
    (rest : List Pass) :
    endingOf id deadline (pass :: rest) =
      (pass.ending id deadline).or (endingOf id deadline rest) := by
  rw [endingOf, List.findSome?_cons]
  cases pass.ending id deadline <;> rfl

theorem Solo.onlyConnects_runPass (connects : pool.OnlyConnects) (pass : Pass) :
    (pool.runPass pass).OnlyConnects := by
  intro id e held
  obtain ⟨e', before, -, fields, -⟩ := open_of_runPass solo.toSound pass held
  rw [fields]
  exact connects id e' before

/-- A loop without a timeout goes on as long as events are left. -/
theorem Solo.runPasses_cons (start : Instant) (pass : Pass) (rest : List Pass) :
    runPasses start none (pass :: rest) pool =
      if (pool.runPass pass).hasPending then runPasses start none rest (pool.runPass pass)
      else (some .noEvents, pool.runPass pass) := by
  rw [runPasses]
  cases (pool.runPass pass).hasPending with
  | false => rfl
  | true => simp only [(solo.runPass pass).going, Bool.not_true, Bool.false_eq_true, ↓reduceIte,
      Option.any_none]

/-- **Every connect alone.** The calls of a connect in a loop are what the passes come to
for the connect alone. -/
theorem Solo.calls_runPasses (start : Instant) (passes : List Pass) (id : EventId) :
    (∀ e, pool.Open id e → e.kind = .connect →
        calls id (runPasses start none passes pool).2.log =
          calls id pool.log ++ (endingOf id e.deadline passes).toList) ∧
      ((∀ e, ¬ pool.Open id e) →
        calls id (runPasses start none passes pool).2.log = calls id pool.log) := by
  induction passes generalizing pool with
  | nil => exact ⟨fun _ _ _ => (List.append_nil _).symm, fun _ => rfl⟩
  | cons pass rest ih =>
      obtain ⟨opened, ended⟩ := ih (solo.runPass pass)
      have same : calls id (runPasses start none (pass :: rest) pool).2.log =
          calls id (runPasses start none rest (pool.runPass pass)).2.log := by
        rw [solo.runPasses_cons]
        split
        · rfl
        · rename_i closed
          rw [Bool.not_eq_true] at closed
          exact (ended (not_hasPending_iff.mp closed id)).symm
      rw [same]
      constructor
      · intro e held kind
        rw [endingOf_cons]
        cases ending : pass.ending id e.deadline with
        | some status =>
            obtain ⟨closed, called⟩ := solo.ends pass held kind ending
            rw [ended closed, called, Option.some_or, Option.toList_some]
        | none =>
            obtain ⟨held', called⟩ := solo.waits pass held kind ending
            rw [opened e held' kind, called, Option.none_or]
      · intro closed
        have left := runPass_same solo.toSound pass closed
        rw [ended fun e held => closed e ((left.open_iff e).mp held), left.calls]

/-- **The answer of the loop.** It returns once all its connects have ended. -/
theorem Solo.answer_runPasses (connects : pool.OnlyConnects) (start : Instant) (passes : List Pass) :
    (∀ status, (runPasses start none passes pool).1 = some status → status = .noEvents) ∧
      ((runPasses start none passes pool).1 ≠ none ↔
        passes ≠ [] ∧ ∀ id e, pool.Open id e → endingOf id e.deadline passes ≠ none) := by
  induction passes generalizing pool with
  | nil => exact ⟨nofun, iff_of_false (fun ended => ended rfl) fun ended => ended.1 rfl⟩
  | cons pass rest ih =>
      obtain ⟨answers, ends⟩ := ih (solo.runPass pass) (solo.onlyConnects_runPass connects pass)
      rw [solo.runPasses_cons]
      cases left : (pool.runPass pass).hasPending with
      | false =>
          refine ⟨fun status answered => (Option.some.inj answered).symm, ?_⟩
          refine iff_of_true (Option.some_ne_none _) ⟨List.cons_ne_nil _ _, fun id e held => ?_⟩
          rw [endingOf_cons]
          cases ending : pass.ending id e.deadline with
          | some status => exact Option.some_ne_none _
          | none =>
              have held' := (solo.waits pass held (connects id e held) ending).1
              exact absurd held' (not_hasPending_iff.mp left id e)
      | true =>
          have later : ∀ id e, (pool.runPass pass).Open id e →
              pool.Open id e ∧ endingOf id e.deadline (pass :: rest) = endingOf id e.deadline rest := by
            intro id e held
            have kind := solo.onlyConnects_runPass connects pass id e held
            obtain ⟨before, ending⟩ := solo.kept pass held kind
            refine ⟨before, ?_⟩
            rw [endingOf_cons, ending, Option.none_or]
          refine ⟨answers, ends.trans ⟨fun ⟨_, all⟩ => ?_, fun ⟨_, all⟩ => ?_⟩⟩
          · refine ⟨List.cons_ne_nil _ _, fun id e held => ?_⟩
            cases ending : pass.ending id e.deadline with
            | some status =>
                rw [endingOf_cons, ending]
                exact Option.some_ne_none _
            | none =>
                have held' := (solo.waits pass held (connects id e held) ending).1
                rw [(later id e held').2]
                exact all id e held'
          · have still : ∀ id e, (pool.runPass pass).Open id e → endingOf id e.deadline rest ≠ none := by
              intro id e held
              obtain ⟨before, same⟩ := later id e held
              rw [← same]
              exact all id e before
            refine ⟨?_, still⟩
            rintro rfl
            refine absurd left (ne_true_of_eq_false (not_hasPending_iff.mpr fun id e held => ?_))
            exact still id e held rfl

end Pool

end Wnr.Nsock
