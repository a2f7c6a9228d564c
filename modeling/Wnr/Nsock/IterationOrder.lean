import Wnr.Foundation.Grouping
import Wnr.Nsock.AlikePools
import Wnr.Nsock.ConnectThreads
import Wnr.Nsock.Deletions
import Wnr.Nsock.IodSteps
import Wnr.Nsock.Naps

/-! # The iteration order of the hash maps

The loop and the deletions walk over hash maps, in whatever order these come. Two histories
that differ in these orders only bring about the same pool and the same answers, and their
logs differ in the order of effects of different events only, as long as no result of a
connection attempt is taken while another connect of its descriptor is undelivered, and no
pass makes two reads or two writes on one descriptor (`Pool.order_irrelevant`). Where it does,
the event that comes first in the order has the first answer of the socket.
-/

namespace Wnr.Nsock

namespace Pool

/-! ## The sockets that a pass calls -/

/-- The descriptor whose socket a pass calls for an event of the kind: an undelivered one whose
deadline has not come. -/
def calledFor (self : Pool) (now : Instant) (kind : EventType) (id : EventId) : Option Nat :=
  (self.pending.lookup id).bind fun e =>
    if e.done = false ∧ dueStatus now e = none ∧ e.kind = kind then e.iod else none

/-- The descriptors that are called, once for each event of the kind. -/
def calledIods (self : Pool) (now : Instant) (kind : EventType) : List Nat :=
  self.pending.keys.filterMap (self.calledFor now kind)

/-- No socket is called for two reads or for two writes. -/
structure Unshared (pool : Pool) (now : Instant) : Prop where
  reads : (pool.calledIods now .read).Nodup
  writes : (pool.calledIods now .write).Nodup

instance (pool : Pool) (now : Instant) : Decidable (pool.Unshared now) :=
  decidable_of_iff ((pool.calledIods now .read).Nodup ∧ (pool.calledIods now .write).Nodup)
    ⟨fun distinct => ⟨distinct.1, distinct.2⟩, fun unshared => ⟨unshared.reads, unshared.writes⟩⟩

/-! ## Other iteration orders -/

/-- The same pass with other iteration orders, in a pool that has handled its commands: what a
socket has for the only read of a pass, and for the only write, is the same in either order. -/
structure Pass.Reordered (pass other : Pass) (pool : Pool) : Prop where
  arrivals : other.arrivals = pass.arrivals
  now : other.now = pass.now
  later : other.later = pass.later
  reads : ∀ id iodId, pool.calledFor pass.now .read id = some iodId →
    (pool.calledIods pass.now .read).count iodId = 1 → other.reads id = pass.reads id
  writes : ∀ id iodId, pool.calledFor pass.now .write id = some iodId →
    (pool.calledIods pass.now .write).count iodId = 1 → other.writes id = pass.writes id

/-- The same passes of a loop with other iteration orders, as far as the loop gets. -/
inductive PassesReordered (start : Instant) (limit : Option Nat) :
    List Pass → List Pass → Pool → Prop
  | nil (pool : Pool) : PassesReordered start limit [] [] pool
  | cons {pass other : Pass} {rest rest' : List Pass} {pool : Pool}
      (first : pass.Reordered other (pool.drained pass))
      (later : (runPasses start limit [pass] pool).1 = none →
        PassesReordered start limit rest rest' (pool.runPass pass)) :
      PassesReordered start limit (pass :: rest) (other :: rest') pool

/-- The same operation with other iteration orders. -/
inductive OpReordered : Op → Op → Pool → Prop
  | same (op : Op) (pool : Pool) : OpReordered op op pool
  | deleteIod (order order' : List Nat) (id : Nat) (pool : Pool) :
      OpReordered (.deleteIod order id) (.deleteIod order' id) pool
  | delete (iodOrder iodOrder' : List Nat) (orders orders' : List (List Nat))
      (order order' : List Nat) (pool : Pool) :
      OpReordered (.delete iodOrder orders order) (.delete iodOrder' orders' order') pool
  | run (timeout : Int) (start : Instant) {passes passes' : List Pass} {pool : Pool}
      (reordered : PassesReordered start
        (if timeout < 0 then none else some (millis timeout.toNat)) passes passes'
        { pool with quit := false }) :
      OpReordered (.run timeout start passes) (.run timeout start passes') pool

/-- The same history with other iteration orders. -/
inductive Reordered : List Op → List Op → Pool → Prop
  | nil (pool : Pool) : Reordered [] [] pool
  | cons {op other : Op} {rest rest' : List Op} {pool : Pool} (first : OpReordered op other pool)
      (later : (perform op pool).1 ≠ .running → Reordered rest rest' (perform op pool).2) :
      Reordered (op :: rest) (other :: rest') pool

variable {pool pool' after after' tried tried' : Pool} {id : EventId} {e : Pending}
  {start : Instant} {limit : Option Nat}

theorem PassesReordered.rfl {passes : List Pass} :
    PassesReordered start limit passes passes pool := by
  induction passes generalizing pool with
  | nil => exact .nil pool
  | cons pass rest ih =>
      exact .cons ⟨.refl _, .refl _, .refl _, fun _ _ _ _ => .refl _, fun _ _ _ _ => .refl _⟩
        fun _ => ih

/-- An event that is attempted calls the socket of its descriptor, and no other event of its
kind does where none is shared. -/
theorem called_of_open {now : Instant} {iodId : Nat} (held : pool.Open id e)
    (going : pool.due now id = none) (named : e.iod = some iodId) :
    pool.calledFor now e.kind id = some iodId ∧
      ((pool.calledIods now e.kind).Nodup → (pool.calledIods now e.kind).count iodId = 1) := by
  rw [due, held.1, Option.bind_some, Option.map_eq_none_iff] at going
  have called : pool.calledFor now e.kind id = some iodId := by
    rw [calledFor, held.1, Option.bind_some, if_pos ⟨held.2, going, rfl⟩, named]
  have known : id ∈ pool.pending.keys := AList.lookup_isSome.mp (by rw [held.1]; exact .refl _)
  have listed : iodId ∈ pool.calledIods now e.kind :=
    List.mem_filterMap.mpr ⟨id, known, called⟩
  exact ⟨called, fun distinct => List.count_eq_one_of_mem distinct listed⟩

/-! ## Deletions -/

theorem killEvent_frame (pool : Pool) (id : EventId) : Frame pool (pool.killEvent id) := by
  have ended (pool : Pool) (readBufs : Table (List UInt8)) :
      Frame pool ({ pool with readBufs }.drop id) :=
    ⟨⟨rfl, rfl, rfl⟩, rfl, rfl, rfl, rfl, fun _ => rfl⟩
  rw [killEvent]
  apply Frame.trans _ (ended _ _)
  split
  · exact .rfl
  split
  · apply Frame.trans _ (call_frame _ _ _ _)
    exact ⟨⟨rfl, rfl, rfl⟩, rfl, rfl, rfl, rfl, fun _ => rfl⟩
  · exact .rfl

theorem killEvents_frame (ids : List EventId) (pool : Pool) : Frame pool (killEvents ids pool) := by
  induction ids generalizing pool with
  | nil => exact .rfl
  | cons id rest ih => exact (killEvent_frame pool id).trans (ih _)

theorem sound_killEvent (sound : pool.Sound) (id : EventId) : (pool.killEvent id).Sound :=
  ((Takes.killOfIod : Takes (.deleteIod [] 0) pool (.kill id)).change sound).sound sound

theorem sound_killEvents (sound : pool.Sound) (ids : List EventId) :
    (killEvents ids pool).Sound := by
  induction ids generalizing pool with
  | nil => exact sound
  | cons id rest ih => exact ih (sound_killEvent sound id)

/-- The events that deleting a descriptor kills. -/
def eventsOf (self : Pool) (order : List Nat) (key : Nat) : List EventId :=
  (Table.walk order self.pending).filter fun k => ((self.pending.lookup k).bind (·.iod)) = some key

theorem deleteIod_eq (pool : Pool) (order : List Nat) (key : Nat) :
    pool.deleteIod order key =
      let killed := killEvents (pool.eventsOf order key) pool
      ((killed.iods.lookup key).isSome, { killed with iods := killed.iods.erase key }) :=
  rfl

theorem sound_deleteIod (sound : pool.Sound) (order : List Nat) (key : Nat) :
    (pool.deleteIod order key).2.Sound := by
  have killed := sound_killEvents sound (pool.eventsOf order key)
  exact ⟨killed.created, killed.mentioned, killed.live, killed.asked⟩

theorem about_call (pool : Pool) (handler : Handler) (event : EventId) (status : EventStatus) :
    about id (pool.call handler event status).log =
      about id pool.log ++ about id (callEffects handler event status) := by
  rw [call_log, about_append]

theorem killEvent_congr (same : SameEvent id pool pool') :
    SameEvent id (pool.killEvent id) (pool'.killEvent id) := by
  refine ⟨?_, ?_, ?_⟩
  · rw [lookup_killEvent, lookup_killEvent, if_pos rfl, if_pos rfl]
  · rw [killEvent_readBufs, killEvent_readBufs, AList.lookup_erase, AList.lookup_erase]
  · have held := same.held
    cases found : pool.pending.lookup id with
    | none =>
        simp only [killEvent, held, found]
        exact same.log
    | some e =>
        simp only [killEvent, held, found]
        split
        · change about id (call _ _ _ _).log = about id (call _ _ _ _).log
          rw [about_call, about_call]
          exact congrArg (· ++ _) same.log
        · exact same.log

theorem killEvents_listed (sound : pool.Sound) {ids : List EventId} (distinct : ids.Nodup)
    (listed : id ∈ ids) : SameEvent id (pool.killEvent id) (killEvents ids pool) := by
  induction ids generalizing pool with
  | nil => cases listed
  | cons event rest ih =>
      obtain ⟨unlisted, distinct⟩ := List.nodup_cons.mp distinct
      have sound' := sound_killEvent sound event
      rcases List.mem_cons.mp listed with rfl | later
      · exact killEvents_other sound' unlisted
      · have ne : id ≠ event := fun same => unlisted (same ▸ later)
        exact (killEvent_congr (killEvent_other sound ne)).trans (ih sound' distinct later)

/-- An event is left alone, or killed where it was held. -/
def Spared (id : EventId) (pool after : Pool) : Prop :=
  SameEvent id pool after ∨
    (∃ e, pool.pending.lookup id = some e) ∧ SameEvent id (pool.killEvent id) after

theorem Spared.trans {last : Pool} (first : Spared id pool after) (second : Spared id after last) :
    Spared id pool last := by
  rcases first with same | ⟨⟨e, held⟩, killed⟩
  · rcases second with same' | ⟨⟨e, held⟩, killed⟩
    · exact .inl (same.trans same')
    · exact .inr ⟨⟨e, same.held.symm.trans held⟩, (killEvent_congr same).trans killed⟩
  · rcases second with same' | ⟨⟨e', held'⟩, -⟩
    · exact .inr ⟨⟨e, held⟩, killed.trans same'⟩
    · rw [killed.held, lookup_killEvent, if_pos rfl] at held'
      cases held'

/-- What is gone in the end has come to the same. -/
theorem Spared.agree (same : SameEvent id pool pool') (spared : Spared id pool after)
    (spared' : Spared id pool' after') (gone : after.pending.lookup id = none)
    (gone' : after'.pending.lookup id = none) : SameEvent id after after' := by
  cases found : pool.pending.lookup id with
  | none =>
      have left {first second : Pool} (spared : Spared id first second)
          (missing : first.pending.lookup id = none) : SameEvent id first second := by
        rcases spared with same | ⟨⟨e, held⟩, -⟩
        · exact same
        · cases missing.symm.trans held
      exact (left spared found).symm.trans (same.trans (left spared' (same.held.trans found)))
  | some e =>
      have killed {first second : Pool} (spared : Spared id first second)
          (held : first.pending.lookup id = some e) (gone : second.pending.lookup id = none) :
          SameEvent id (first.killEvent id) second := by
        rcases spared with same | ⟨-, killed⟩
        · cases (same.held.symm.trans gone).symm.trans held
        · exact killed
      exact (killed spared found gone).symm.trans
        ((killEvent_congr same).trans (killed spared' (same.held.trans found) gone'))

theorem deleteIod_named (sound : pool.Sound) (order : List Nat) {key : Nat}
    (held : pool.pending.lookup id = some e) (named : e.iod = some key) :
    SameEvent id (pool.killEvent id) (pool.deleteIod order key).2 := by
  have distinct : (pool.eventsOf order key).Nodup := (Table.nodup_walk order pool.pending).filter _
  have listed : id ∈ pool.eventsOf order key := by
    refine List.mem_filter.mpr ⟨(Table.mem_walk_iff_lookup order pool.pending).mpr ⟨e, held⟩, ?_⟩
    rw [held, Option.bind_some, named]
    exact decide_eq_true rfl
  exact (killEvents_listed sound distinct listed).trans ⟨rfl, rfl, rfl⟩

theorem deleteIod_spared (sound : pool.Sound) (order : List Nat) (key : Nat) :
    Spared id pool (pool.deleteIod order key).2 := by
  by_cases named : ∃ e, pool.pending.lookup id = some e ∧ e.iod = some key
  · obtain ⟨e, held, named⟩ := named
    exact .inr ⟨⟨e, held⟩, deleteIod_named sound order held named⟩
  · exact .inl (deleteIod_other sound order fun e held isNamed => named ⟨e, held, isNamed⟩)

theorem Alike.killEvents (alike : Alike pool pool') (ids ids' : List EventId)
    (events : ∀ id, SameEvent id (killEvents ids pool) (killEvents ids' pool')) :
    Alike (killEvents ids pool) (killEvents ids' pool') where
  toFrame := (killEvents_frame ids pool).symm.trans
    (alike.toFrame.trans (killEvents_frame ids' pool'))
  events := events

theorem Alike.deleteIod (alike : Alike pool pool') (sound : pool.Sound) (sound' : pool'.Sound)
    (order order' : List Nat) (key : Nat) :
    Agree (pool.deleteIod order key) (pool'.deleteIod order' key) := by
  have events (id : EventId) :
      SameEvent id (pool.deleteIod order key).2 (pool'.deleteIod order' key).2 := by
    have same := alike.events id
    by_cases named : ∃ e, pool.pending.lookup id = some e ∧ e.iod = some key
    · obtain ⟨e, held, named⟩ := named
      exact (deleteIod_named sound order held named).symm.trans ((killEvent_congr same).trans
        (deleteIod_named sound' order' (same.held.trans held) named))
    · have left : SameEvent id pool (pool.deleteIod order key).2 :=
        deleteIod_other sound order fun e held isNamed => named ⟨e, held, isNamed⟩
      have left' : SameEvent id pool' (pool'.deleteIod order' key).2 :=
        deleteIod_other sound' order' fun e held isNamed =>
          named ⟨e, same.held.symm.trans held, isNamed⟩
      exact left.symm.trans (same.trans left')
  have killed := alike.killEvents (pool.eventsOf order key) (pool'.eventsOf order' key)
    fun id => ⟨(events id).held, (events id).readBuf, (events id).log⟩
  rw [deleteIod_eq, deleteIod_eq]
  refine ⟨?_, killed.descriptors ?_⟩
  · have same := congrArg Option.isSome (killed.iods key)
    rwa [Option.isSome_map, Option.isSome_map] at same
  · intro iodId
    by_cases here : iodId = key
    · rw [here, AList.lookup_erase, AList.lookup_erase]
    · rw [AList.lookup_erase_ne here, AList.lookup_erase_ne here]
      exact killed.iods iodId

theorem sound_deleteIods (sound : pool.Sound) (ids : List Nat) (orders : List (List Nat)) :
    (deleteIods ids orders pool).Sound := by
  induction ids generalizing orders pool with
  | nil => exact sound
  | cons key rest ih => exact ih (sound_deleteIod sound _ key) _

theorem deleteIods_spared (sound : pool.Sound) (ids : List Nat) (orders : List (List Nat)) :
    Spared id pool (deleteIods ids orders pool) := by
  induction ids generalizing orders pool with
  | nil => exact .inl .rfl
  | cons key rest ih =>
      exact (deleteIod_spared sound _ key).trans (ih (sound_deleteIod sound _ key) _)

theorem deleteIods_frame (ids : List Nat) (orders : List (List Nat)) (pool : Pool) :
    Frame { pool with iods := ids.foldl (fun iods key => iods.erase key) pool.iods }
      (deleteIods ids orders pool) := by
  induction ids generalizing orders pool with
  | nil => exact .rfl
  | cons key rest ih =>
      apply Frame.trans _ (ih _ _)
      have killed := killEvents_frame (pool.eventsOf (orders.headD []) key) pool
      refine ⟨⟨killed.connecting, killed.channel, killed.quit⟩, killed.broadcast, killed.iodCounter,
        killed.eventCounter, killed.receipts, fun iodId => ?_⟩
      rw [deleteIod_iods]
      rfl

theorem lookup_foldl_erase {α : Type} {key : Nat} (keys : List Nat) (table : Table α)
    (absent : key ∈ keys ∨ table.lookup key = none) :
    (keys.foldl (fun table key => table.erase key) table).lookup key = none := by
  induction keys generalizing table with
  | nil => exact absent.resolve_left List.not_mem_nil
  | cons first rest ih =>
      apply ih
      by_cases here : key = first
      · rw [here]
        exact .inr (AList.lookup_erase first table)
      · rw [AList.lookup_erase_ne here]
        exact absent.imp_left fun listed => (List.mem_cons.mp listed).resolve_left here

/-- What is left of a pool that is deleted. -/
theorem delete_frame (iodOrder : List Nat) (orders : List (List Nat)) (order : List Nat)
    (pool : Pool) :
    Frame { pool with iods := ∅, quit := true } (pool.delete iodOrder orders order) := by
  have deleted := deleteIods_frame (Table.walk iodOrder pool.iods) orders pool
  have killed := deleted.trans (killEvents_frame
    (Table.walk order (deleteIods (Table.walk iodOrder pool.iods) orders pool).pending) _)
  refine ⟨⟨killed.connecting, killed.channel, rfl⟩, killed.broadcast, killed.iodCounter,
    killed.eventCounter, killed.receipts, fun iodId => (killed.iods iodId).trans ?_⟩
  have absent : iodId ∈ Table.walk iodOrder pool.iods ∨ pool.iods.lookup iodId = none := by
    rw [Table.mem_walk_iff_lookup, ← Option.isSome_iff_exists, ← Option.not_isSome_iff_eq_none]
    exact em _
  rw [lookup_foldl_erase _ _ absent]
  rfl

theorem delete_spared (sound : pool.Sound) (iodOrder : List Nat) (orders : List (List Nat))
    (order : List Nat) (id : EventId) :
    Spared id pool (pool.delete iodOrder orders order) ∧
      (pool.delete iodOrder orders order).pending.lookup id = none := by
  have sound' := sound_deleteIods sound (Table.walk iodOrder pool.iods) orders
  have spared : Spared id pool _ := deleteIods_spared sound (Table.walk iodOrder pool.iods) orders
  rw [delete]
  generalize deleteIods (Table.walk iodOrder pool.iods) orders pool = emptied at sound' spared
  have distinct := Table.nodup_walk order emptied.pending
  by_cases listed : id ∈ Table.walk order emptied.pending
  · have killed := killEvents_listed sound' distinct listed
    have held := (Table.mem_walk_iff_lookup order emptied.pending).mp listed
    refine ⟨spared.trans (.inr ⟨held, killed.trans ⟨rfl, rfl, rfl⟩⟩), killed.held.trans ?_⟩
    rw [lookup_killEvent, if_pos rfl]
  · have left := killEvents_other sound' listed
    refine ⟨spared.trans (.inl (left.trans ⟨rfl, rfl, rfl⟩)), left.held.trans ?_⟩
    rwa [Table.mem_walk_iff_lookup, ← Option.isSome_iff_exists,
      Option.not_isSome_iff_eq_none] at listed

theorem Alike.delete (alike : Alike pool pool') (sound : pool.Sound) (sound' : pool'.Sound)
    (iodOrder iodOrder' : List Nat) (orders orders' : List (List Nat)) (order order' : List Nat) :
    Alike (pool.delete iodOrder orders order) (pool'.delete iodOrder' orders' order') := by
  have emptied : Alike { pool with iods := ∅ } { pool' with iods := ∅ } :=
    alike.descriptors fun _ => rfl
  have frame := (delete_frame iodOrder orders order pool).symm.trans
    ((emptied.setQuit true).toFrame.trans (delete_frame iodOrder' orders' order' pool'))
  refine ⟨frame, fun id => ?_⟩
  obtain ⟨spared, gone⟩ := delete_spared sound iodOrder orders order id
  obtain ⟨spared', gone'⟩ := delete_spared sound' iodOrder' orders' order' id
  exact spared.agree (alike.events id) spared' gone gone'

/-! ## Commands -/

theorem Unrivaled.congr {cmd : Cmd} (alone : pool.Unrivaled cmd) (alike : Alike pool pool') :
    pool'.Unrivaled cmd := by
  cases cmd with
  | quit => trivial
  | connectResult result => exact fun id e held => alone id e ((alike.open_iff id e).mp held)

/-- Without a rival, every order finds the same event. -/
theorem Alike.connectTarget (alike : Alike pool pool') {result : ConnectResult}
    (alone : pool.Unrivaled (.connectResult result)) (order order' : List Nat) :
    pool'.connectTarget order' result.iod = pool.connectTarget order result.iod := by
  cases target : pool.connectTarget order result.iod with
  | none =>
      cases target' : pool'.connectTarget order' result.iod with
      | none => rfl
      | some evid =>
          obtain ⟨e, held, kind, named⟩ := connectTarget_eq_some target'
          exact absurd target (connectTarget_ne_none ((alike.open_iff evid e).mp held) kind named)
  | some evid =>
      obtain ⟨e, held, kind, named⟩ := connectTarget_eq_some target
      obtain ⟨evid', target'⟩ := Option.ne_none_iff_exists'.mp
        (connectTarget_ne_none ((alike.open_iff evid e).mpr held) kind named)
      rw [target', eq_attempt_of_target alone target,
        eq_attempt_of_target (alone.congr alike) target']

theorem Alike.install (alike : Alike pool pool') (result : ConnectResult) :
    Alike (pool.install result) (pool'.install result) := by
  rw [Pool.install, Pool.install]
  cases result.stream with
  | none => exact alike
  | some stream => exact alike.modify result.iod fun _ => rfl

theorem Alike.finishConnect (alike : Alike pool pool') (evid : EventId) (status : EventStatus) :
    Alike (pool.finishConnect evid status) (pool'.finishConnect evid status) := by
  have held := (alike.events evid).held
  cases found : pool.pending.lookup evid with
  | none =>
      simp only [Pool.finishConnect, held, found]
      exact alike
  | some e =>
      simp only [Pool.finishConnect, held, found]
      cases e.cancelled with
      | true => exact alike.drop evid
      | false => exact (alike.drop evid).call _ _ _

theorem Alike.receive (alike : Alike pool pool') {cmd : Cmd} (alone : pool.Unrivaled cmd)
    (order order' : List Nat) : Alike (pool.receive order cmd) (pool'.receive order' cmd) := by
  cases cmd with
  | quit => exact alike.setQuit true
  | connectResult result =>
      have own : pool'.isUndelivered result.attempt = pool.isUndelivered result.attempt := by
        rw [isUndelivered, isUndelivered, (alike.events result.attempt).held]
      have described :
          (pool'.iods.lookup result.iod).isSome = (pool.iods.lookup result.iod).isSome := by
        have same := congrArg Option.isSome (alike.iods result.iod)
        rwa [Option.isSome_map, Option.isSome_map] at same
      rw [Pool.receive, Pool.receive]
      simp only [own, described, alike.connectTarget alone order order']
      cases pool.connectTarget order result.iod with
      | none => exact alike.note _
      | some evid => exact ((alike.install result).note _).finishConnect evid result.status

theorem Alike.receiveAll (alike : Alike pool pool') {cmds : List Cmd} {orders : List (List Nat)}
    (alone : ReceivesAlong Unrivaled orders cmds pool) (orders' : List (List Nat)) :
    Alike (receiveAll orders cmds pool) (receiveAll orders' cmds pool') := by
  induction cmds generalizing orders orders' pool pool' with
  | nil => exact alike
  | cons cmd rest ih => exact ih (alike.receive alone.1 _ _) alone.2 orders'.tail

theorem Alike.emptied (alike : Alike pool pool') :
    Alike { pool with channel := [] } { pool' with channel := [] } where
  toFrame := ⟨⟨alike.connecting, rfl, alike.quit⟩, alike.broadcast, alike.iodCounter,
    alike.eventCounter, alike.receipts, alike.iods⟩
  events id := ⟨(alike.events id).held, (alike.events id).readBuf, (alike.events id).log⟩

theorem Alike.drained (alike : Alike pool pool') {pass pass' : Pass}
    (arrivals : pass'.arrivals = pass.arrivals)
    (alone : ReceivesAlong Unrivaled pass.searches (Pool.arriveAll pass.arrivals pool).channel
      { Pool.arriveAll pass.arrivals pool with channel := [] }) :
    Alike (pool.drained pass) (pool'.drained pass') := by
  have arrived := alike.arriveAll pass.arrivals
  rw [Pool.drained, Pool.drained, drainCommands, drainCommands, arrivals, arrived.channel]
  exact arrived.emptied.receiveAll alone pass'.searches

/-! ## Passes -/

/-- An attempt that shares its socket with none comes to the same in either order. -/
theorem Pass.Reordered.tryIo {pass pass' : Pass} (reordered : pass.Reordered pass' pool)
    (unshared : pool.Unshared pass.now) (going : pool.due pass.now id = none)
    (held : pool.Open id e) (held' : pool'.Open id e) :
    pool'.tryIo pass' id = pool'.tryIo pass id := by
  by_cases read : e.kind = .read
  · rw [tryIo_of_read pass' held'.1 read, tryIo_of_read pass held'.1 read]
    cases named : e.iod with
    | none => simp only [tryRead, held'.1, named]
    | some iodId =>
        obtain ⟨called, alone⟩ := called_of_open held going named
        rw [read] at called alone
        rw [reordered.reads id iodId called (alone unshared.reads)]
  by_cases write : e.kind = .write
  · rw [tryIo_of_write pass' held'.1 write, tryIo_of_write pass held'.1 write]
    cases named : e.iod with
    | none => simp only [tryWrite, held'.1, named]
    | some iodId =>
        obtain ⟨called, alone⟩ := called_of_open held going named
        rw [write] at called alone
        rw [reordered.writes id iodId called (alone unshared.writes)]
  · rw [tryIo_of_no_io pass' held'.1 read write, tryIo_of_no_io pass held'.1 read write]

theorem due_congr (same : SameEvent id pool pool') (now : Instant) :
    pool'.due now id = pool.due now id := by
  rw [due, due, same.held]

theorem Passed.agree {status : Option EventStatus} (same : SameEvent id tried tried')
    (passed : Passed tried after id status) (passed' : Passed tried' after' id status) :
    SameEvent id after after' := by
  cases passed with
  | kept left =>
      cases passed' with
      | kept left' => exact left.symm.trans (same.trans left')
  | delivered status e held closed readBuf log =>
      cases passed' with
      | delivered _ e' held' closed' readBuf' log' =>
          obtain rfl := ((same.open_iff e').mp held').unique held
          exact ⟨closed'.trans closed.symm, by rw [readBuf', readBuf, same.readBuf],
            by rw [log', log, same.log]⟩

/-- What a pass comes to for an event is not up to the orders. -/
theorem Alike.verdict (alike : Alike pool pool') {pass pass' : Pass}
    (reordered : pass.Reordered pass' pool) (unshared : pool.Unshared pass.now)
    (held : pool.Open id e) :
    pool'.verdict pass' id = pool.verdict pass id ∧
      SameEvent id (pool.attempted pass id) (pool'.attempted pass' id) := by
  obtain ⟨status, attempt⟩ := tryIo_congr (alike.events id) alike.sockets pass
  rw [Pool.verdict, Pool.verdict, attempted, attempted, reordered.now, due_congr (alike.events id)]
  cases due : pool.due pass.now id with
  | none =>
      simp only [reordered.tryIo unshared due held ((alike.open_iff id e).mpr held)]
      exact ⟨status, attempt⟩
  | some pair => exact ⟨rfl, alike.events id⟩

theorem Alike.runPass (alike : Alike pool pool') (sound : pool.Sound) (sound' : pool'.Sound)
    {pass pass' : Pass} (reordered : pass.Reordered pass' (pool.drained pass))
    (unshared : (pool.drained pass).Unshared pass.now)
    (alone : ReceivesAlong Unrivaled pass.searches (Pool.arriveAll pass.arrivals pool).channel
      { Pool.arriveAll pass.arrivals pool with channel := [] }) :
    Alike (pool.runPass pass) (pool'.runPass pass') := by
  have drained := alike.drained reordered.arrivals alone
  refine ⟨(runPass_frame pool pass).symm.trans
    (drained.toFrame.trans (runPass_frame pool' pass')), fun id => ?_⟩
  by_cases opened : ∃ e, (pool.drained pass).Open id e
  · obtain ⟨e, held⟩ := opened
    obtain ⟨same, attempt⟩ := drained.verdict reordered unshared held
    have passed' := runPass_open sound' pass' ((drained.open_iff id e).mpr held)
    rw [same] at passed'
    exact (runPass_open sound pass held).agree attempt passed'
  · have closed : ∀ e, ¬ (pool.drained pass).Open id e := fun e held => opened ⟨e, held⟩
    have left' : SameEvent id (pool'.drained pass') (pool'.runPass pass') :=
      runPass_closed sound' pass' fun e held => closed e ((drained.open_iff id e).mp held)
    exact (runPass_closed sound pass closed).symm.trans ((drained.events id).trans left')

theorem Alike.hasPending (alike : Alike pool pool') : pool'.hasPending = pool.hasPending := by
  have closed (first second : Pool) (same : ∀ id e, second.Open id e ↔ first.Open id e) :
      first.hasPending = false → second.hasPending = false := by
    rw [not_hasPending_iff, not_hasPending_iff]
    exact fun none id e held => none id e ((same id e).mp held)
  rw [Bool.eq_iff_iff, ← Bool.not_eq_false, ← Bool.not_eq_false, not_iff_not]
  exact ⟨closed pool' pool fun id e => (alike.open_iff id e).symm, closed pool pool' alike.open_iff⟩

/-- The pass makes no two reads and no two writes on one descriptor. -/
def UnsharedPasses (pool : Pool) (pass : Pass) : Prop := (pool.drained pass).Unshared pass.now

instance (pool : Pool) (pass : Pass) : Decidable (UnsharedPasses pool pass) :=
  inferInstanceAs (Decidable (Unshared _ _))

theorem Alike.runPasses (alike : Alike pool pool') (sound : pool.Sound) (sound' : pool'.Sound)
    {passes passes' : List Pass} (reordered : PassesReordered start limit passes passes' pool)
    (alone : PassesAlong Unrivaled start limit passes pool)
    (unshared : PassesThroughout UnsharedPasses start limit passes pool) :
    Agree (runPasses start limit passes pool) (runPasses start limit passes' pool') := by
  induction reordered generalizing pool' with
  | nil => exact ⟨rfl, alike⟩
  | @cons pass pass' rest rest' pool first _ ih =>
      have passed := alike.runPass sound sound' first unshared.1 alone.1
      rw [Pool.runPasses, Pool.runPasses, passed.hasPending, passed.quit, first.later]
      split
      · exact ⟨rfl, passed⟩
      split
      · exact ⟨rfl, passed.setQuit false⟩
      split
      · exact ⟨rfl, passed⟩
      · rename_i pending going early
        have ongoing : (Pool.runPasses start limit [pass] pool).1 = none := by
          rw [Pool.runPasses, if_neg pending, if_neg going, if_neg early]
          rfl
        exact ih ongoing passed (sound_runPass sound pass) (sound_runPass sound' pass')
          (alone.2 ongoing) (unshared.2 ongoing)

/-! ## Whole histories -/

theorem Alike.perform (alike : Alike pool pool') (sound : pool.Sound) (sound' : pool'.Sound)
    {op op' : Op} (reordered : OpReordered op op' pool)
    (alone : OpAlong (fun _ _ => True) Unrivaled op pool)
    (unshared : OpThroughout (fun _ _ => True) UnsharedPasses op pool) :
    Agree (perform op pool) (perform op' pool') := by
  cases reordered with
  | same =>
      by_cases single : op.IsCall
      · exact alike.perform_same single
      cases op with
      | deleteIod order key => exact Agree.map (alike.deleteIod sound sound' order order key) _
      | delete iodOrder orders order =>
          exact ⟨rfl, alike.delete sound sound' iodOrder iodOrder orders orders order order⟩
      | arrive attempt outcome => exact ⟨rfl, alike.arrive attempt outcome⟩
      | run timeout start passes =>
          exact Agree.map ((alike.setQuit false).runPasses (sound_quit sound false)
            (sound_quit sound' false) .rfl alone unshared) _
      | _ => exact absurd trivial single
  | deleteIod order order' key => exact Agree.map (alike.deleteIod sound sound' order order' key) _
  | delete iodOrder iodOrder' orders orders' order order' =>
      exact ⟨rfl, alike.delete sound sound' iodOrder iodOrder' orders orders' order order'⟩
  | run timeout start reordered =>
      exact Agree.map ((alike.setQuit false).runPasses (sound_quit sound false)
        (sound_quit sound' false) reordered alone unshared) _

/-- What a caller is told, operation by operation. -/
def answers : List Op → Pool → List Answer
  | [], _ => []
  | op :: rest, pool =>
      match perform op pool with
      | (.running, _) => [.running]
      | (answer, pool) => answer :: answers rest pool

theorem answers_cons (op : Op) (rest : List Op) (pool : Pool) :
    answers (op :: rest) pool = (perform op pool).1 ::
      if (perform op pool).1 = .running then [] else answers rest (perform op pool).2 := by
  rw [answers]
  obtain ⟨answer, after⟩ := perform op pool
  cases answer <;> rfl

theorem Alike.execute (alike : Alike pool pool') (sound : pool.Sound) (sound' : pool'.Sound)
    {ops ops' : List Op} (reordered : Reordered ops ops' pool)
    (alone : Along (fun _ _ => True) Unrivaled ops pool)
    (unshared : Throughout (fun _ _ => True) UnsharedPasses ops pool) :
    answers ops' pool' = answers ops pool ∧ Alike (execute ops pool) (execute ops' pool') := by
  have kept {pool : Pool} (sound : pool.Sound) (op : Op) : (Pool.perform op pool).2.Sound :=
    perform_invariant (fun _ _ _ sound taken => (taken.change sound).sound sound) op sound
  induction reordered generalizing pool' with
  | nil => exact ⟨rfl, alike⟩
  | @cons op op' rest rest' pool first _ ih =>
      obtain ⟨answer, performed⟩ := alike.perform sound sound' first alone.1 unshared.1
      rw [answers_cons, answers_cons, answer]
      by_cases running : (Pool.perform op pool).1 = .running
      · rw [if_pos running, if_pos running, execute_running running,
          execute_running (answer.trans running)]
        exact ⟨rfl, performed⟩
      · obtain ⟨told, executed⟩ := ih running performed (kept sound op) (kept sound' op')
          (alone.2 running) (unshared.2 running)
        rw [if_neg running, if_neg running, told, execute_cons running,
          execute_cons fun same => running (answer.symm.trans same)]
        exact ⟨rfl, executed⟩

/-! ## The logs and the byte counts -/

end Pool

end Wnr.Nsock
