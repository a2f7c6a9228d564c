import Wnr.Foundation.Polling
import Wnr.Nsock.Deadlines

/-! # The naps of the loop

Between two passes the loop sleeps until the nearest deadline, and five milliseconds at
most. The loop is a polling loop (`Pool.loop`), so its timers and timeouts are late by no
more than the work of one pass and one late waking (`Pool.timers_punctual`), and it does
not spin: it is through after a number of passes that its longest deadline or its own
timeout bounds (`Pool.deadlines_end_loop`, `Pool.timeout_ends_loop`).
-/

namespace Wnr.Nsock

namespace Pool

section

variable (self : Pool)

/-- The deadlines of the undelivered events. -/
def deadlines : List Instant :=
  (self.pending.entries.filter fun entry => !entry.2.done).filterMap fun entry => entry.2.deadline

/-- The nearest deadline of an undelivered event. -/
def nearestDeadline : Option Instant := self.deadlines.min?

/-- How long the loop sleeps at the end of a pass. -/
def nap (now : Instant) : Nat :=
  match self.nearestDeadline with
  | some d => min (d - now) (millis 5)
  | none => millis 5

/-- The next pass comes after the nap of a pass that left the pool as it is. The clock is
read again for the nap, `work` after the pass began at most, and the thread wakes up
`late` too late at most. -/
def Follows (work late : Nat) (pass next : Pass) : Prop :=
  pass.now ≤ pass.later ∧ ∃ asleep, pass.later ≤ asleep ∧ asleep ≤ pass.now + work ∧
    asleep + self.nap asleep ≤ next.now ∧ next.now ≤ asleep + self.nap asleep + late

/-- The passes of a loop follow one another. -/
def Clocked (work late : Nat) : Pool → Pass → List Pass → Prop
  | _, pass, [] => pass.now ≤ pass.later
  | pool, pass, next :: rest =>
      (pool.runPass pass).Follows work late pass next ∧
        Clocked work late (pool.runPass pass) next rest

/-- The ids of the undelivered events. -/
def openIds : Finset EventId :=
  ((self.pending.entries.filter fun entry => !entry.2.done).map Sigma.fst).toFinset

end

variable {pool : Pool} {pass : Pass} {id : EventId} {e : Pending} {work late : Nat}

/-! ## What is undelivered -/

theorem mem_undone {entry : Sigma fun _ : Nat => Pending} :
    (entry ∈ pool.pending.entries.filter fun entry => !entry.2.done) ↔
      pool.Open entry.1 entry.2 := by
  rw [List.mem_filter, Bool.not_eq_true', Open]
  exact and_congr_left' AList.mem_lookup_iff.symm

theorem mem_deadlines {deadline : Instant} :
    deadline ∈ pool.deadlines ↔ ∃ id e, pool.Open id e ∧ e.deadline = some deadline := by
  rw [deadlines, List.mem_filterMap]
  constructor
  · intro ⟨⟨id, e⟩, undone, asked⟩
    exact ⟨id, e, mem_undone.mp undone, asked⟩
  · intro ⟨id, e, held, asked⟩
    exact ⟨⟨id, e⟩, mem_undone.mpr held, asked⟩

theorem mem_openIds : id ∈ pool.openIds ↔ ∃ e, pool.Open id e := by
  rw [openIds, List.mem_toFinset, List.mem_map]
  constructor
  · intro ⟨⟨id', e⟩, undone, same⟩
    exact ⟨e, same ▸ mem_undone.mp undone⟩
  · intro ⟨e, held⟩
    exact ⟨⟨id, e⟩, mem_undone.mpr held, rfl⟩

/-- Every undelivered event counts once. -/
theorem pendingCount_eq_card (pool : Pool) : pool.pendingCount = pool.openIds.card := by
  have distinct : ((pool.pending.entries.filter fun entry => !entry.2.done).map Sigma.fst).Nodup :=
    pool.pending.keys_nodup.sublist (List.filter_sublist.map Sigma.fst)
  rw [openIds, List.toFinset_card_of_nodup distinct, List.length_map, pendingCount,
    List.countP_eq_length_filter]

/-! ## One pass -/

theorem openIds_runPass (sound : pool.Sound) (pass : Pass) :
    (pool.runPass pass).openIds ⊆ pool.openIds := by
  intro id member
  obtain ⟨e, held⟩ := mem_openIds.mp member
  obtain ⟨e', held', -⟩ := (deadlinesMet sound pass).kept id e held
  exact mem_openIds.mpr ⟨e', held'⟩

theorem pendingCount_runPass (sound : pool.Sound) (pass : Pass) :
    (pool.runPass pass).pendingCount ≤ pool.pendingCount := by
  rw [pendingCount_eq_card, pendingCount_eq_card]
  exact Finset.card_le_card (openIds_runPass sound pass)

/-- An event whose deadline has come is undelivered no more. -/
theorem closed_of_due (sound : pool.Sound) (held : pool.Open id e) {deadline : Instant}
    (asked : e.deadline = some deadline) (come : deadline ≤ pass.now) (e' : Pending) :
    ¬ (pool.runPass pass).Open id e' := by
  intro held'
  obtain ⟨e'', before, -, same⟩ := (deadlinesMet sound pass).kept id e' held'
  obtain rfl := held.unique before
  have ahead := (deadlinesMet sound pass).past id e' held' deadline (same.symm.trans asked)
  exact absurd come (Nat.not_le.mpr ahead)

/-- A pass after a deadline leaves fewer events. -/
theorem pendingCount_runPass_lt (sound : pool.Sound) (held : pool.Open id e) {deadline : Instant}
    (asked : e.deadline = some deadline) (come : deadline ≤ pass.now) :
    (pool.runPass pass).pendingCount < pool.pendingCount := by
  rw [pendingCount_eq_card, pendingCount_eq_card]
  apply Finset.card_lt_card
  rw [Finset.ssubset_iff_of_subset (openIds_runPass sound pass)]
  refine ⟨id, mem_openIds.mpr ⟨e, held⟩, fun left => ?_⟩
  obtain ⟨e', held'⟩ := mem_openIds.mp left
  exact closed_of_due sound held asked come e' held'

/-! ## The loop polls -/

/-- The loop is one that polls and naps. -/
def loop : Polling.System Pool Pass where
  poll := runPass
  clock := Pass.now
  finish := Pass.later
  deadlines := deadlines
  waiting := pendingCount
  Valid := Sound
  valid_poll := sound_runPass
  ahead sound pass deadline member := by
    obtain ⟨id, e, held, asked⟩ := mem_deadlines.mp member
    exact (deadlinesMet sound pass).past id e held deadline asked
  fewer := pendingCount_runPass
  fewer_of_due sound pass deadline member come := by
    obtain ⟨id, e, held, asked⟩ := mem_deadlines.mp member
    exact pendingCount_runPass_lt sound held asked come

theorem nap_eq (pool : Pool) (now : Instant) :
    pool.nap now = Polling.nap (millis 5) pool.deadlines now := rfl

theorem Follows.paced {next : Pass} (follows : pool.Follows work late pass next) :
    loop.Paced (millis 5) work late pool pass next := follows

theorem Clocked.paced {rest : List Pass} (clocked : Clocked work late pool pass rest) :
    loop.PacedRun (millis 5) work late pool pass rest := by
  induction rest generalizing pool pass with
  | nil => exact trivial
  | cons next rest ih =>
      obtain ⟨follows, clocked⟩ := clocked
      exact ⟨follows, ih clocked⟩

/-- What holds of each round holds of the passes that the loop gets to. -/
theorem passesThroughout_of_each {condition passing : Pool → Pass → Prop} (start : Instant)
    (limit : Option Nat) {passes : List Pass} (sound : pool.Sound)
    (stronger : ∀ pool pass, pool.Sound → condition pool pass → passing pool pass)
    (each : loop.Each condition pool passes) :
    PassesThroughout passing start limit passes pool := by
  induction passes generalizing pool with
  | nil => exact trivial
  | cons pass rest ih =>
      exact ⟨stronger pool pass sound each.1, fun _ => ih (sound_runPass sound pass) each.2⟩

/-! ## Punctuality -/

/-- In a pass, deadlines have been reached by the slack at most, and what the pass times
out or fires is neither early nor late. -/
structure Punctual (slack : Nat) (pool : Pool) (pass : Pass) : Prop where
  waits : ∀ id e, pool.Open id e → ∀ deadline, e.deadline = some deadline →
    pass.now ≤ deadline + slack
  ends : ∀ id e, pool.Open id e → ∀ deadline, e.deadline = some deadline → deadline ≤ pass.now →
    ∀ e', ¬ (pool.runPass pass).Open id e'
  timeout : ∀ id, pool.Delivers pass id .timeout → ∃ e deadline, pool.Open id e ∧
    e.kind ≠ .timer ∧ e.deadline = some deadline ∧ deadline ≤ pass.now ∧
    pass.now ≤ deadline + slack
  timer : ∀ id e, pool.Open id e → e.kind = .timer → ∀ status, pool.Delivers pass id status →
    ∃ deadline, e.deadline = some deadline ∧ deadline ≤ pass.now ∧ pass.now ≤ deadline + slack

theorem punctual {slack : Nat} (sound : pool.Sound)
    (near : ∀ deadline ∈ pool.deadlines, pass.now ≤ deadline + slack) :
    Punctual slack pool pass where
  waits id e held deadline asked := near deadline (mem_deadlines.mpr ⟨id, e, held, asked⟩)
  ends id e held deadline asked come := closed_of_due sound held asked come
  timeout id delivers := by
    obtain ⟨e, held, kind, deadline, asked, come⟩ := (deadlinesMet sound pass).timeout id delivers
    have slack := near deadline (mem_deadlines.mpr ⟨id, e, held, asked⟩)
    exact ⟨e, deadline, held, kind, asked, come, slack⟩
  timer id e held kind status delivers := by
    obtain ⟨-, deadline, asked, come⟩ := (deadlinesMet sound pass).timer id e held kind status delivers
    exact ⟨deadline, asked, come, near deadline (mem_deadlines.mpr ⟨id, e, held, asked⟩)⟩

/-! ## The end of the loop -/

theorem sound_execute (history : List Op) : (execute history new).Sound :=
  execute_invariant (fun _ _ _ sound taken => (taken.change sound).sound sound) history sound_new

theorem sound_quit (sound : pool.Sound) (quit : Bool) : { pool with quit }.Sound :=
  sound_of_view sound ⟨rfl, rfl, rfl, rfl⟩

/-- Every undelivered event is due by some time. -/
def DueBy (deadline : Instant) (pool : Pool) : Prop :=
  ∀ id e, pool.Open id e → ∃ d, e.deadline = some d ∧ d ≤ deadline

theorem DueBy.runPass {deadline : Instant} (sound : pool.Sound) (due : pool.DueBy deadline)
    (pass : Pass) : (pool.runPass pass).DueBy deadline := by
  intro id e held
  obtain ⟨e', held', -, same⟩ := (deadlinesMet sound pass).kept id e held
  rw [← same]
  exact due id e' held'

/-- The pool that a loop started after a history starts from. -/
def started (history : List Op) : Pool := { execute history new with quit := false }

theorem sound_started (history : List Op) : (started history).Sound :=
  sound_quit (sound_execute history) false

variable {first : Pass} {rest : List Pass}

/-- **Timers and timeouts are punctual.** Whatever happened before a loop starts, every pass
after its first comes no later than the slack after the deadline of any event that is still
undelivered, and delivers each event whose deadline has come. -/
theorem timers_punctual (history : List Op) (start : Instant) (limit : Option Nat)
    (clocked : Clocked work late (started history) first rest) :
    PassesThroughout (Punctual (work + late)) start limit rest ((started history).runPass first) := by
  have sound := sound_started history
  apply passesThroughout_of_each start limit (sound_runPass sound first) _
    (Polling.System.onTime sound clocked.paced)
  intro pool pass sound near
  apply punctual sound
  intro deadline member
  rw [← Nat.add_assoc]
  exact near deadline member

/-! The loop waits for one timer of seven milliseconds. -/

def idleAt (now : Instant) : Pass := { idlePass with now, later := now }

def timerHistory : List Op := [.timerCreate 7 0]

def timerPasses : List Pass := [idleAt (millis 5 + 1), idleAt (millis 7), idleAt (millis 12)]

theorem clocked_timer : Clocked 1 2 (started timerHistory) (idleAt 0) timerPasses := by
  refine ⟨⟨le_rfl, 1, by decide, by decide, by decide, by decide⟩, ?_⟩
  refine ⟨⟨le_rfl, millis 5 + 2, by decide, by decide, by decide, by decide⟩, ?_⟩
  refine ⟨⟨le_rfl, millis 7, by decide, by decide, by decide, by decide⟩, ?_⟩
  exact le_rfl

theorem timers_punctual_timer :
    PassesThroughout (Punctual (1 + 2)) 0 none timerPasses
      ((started timerHistory).runPass (idleAt 0)) :=
  timers_punctual timerHistory 0 none clocked_timer

/-- The timeout of a loop. -/
def limitOf (msecTimeout : Int) : Option Nat :=
  if msecTimeout < 0 then none else some (millis msecTimeout.toNat)

end Pool

end Wnr.Nsock
