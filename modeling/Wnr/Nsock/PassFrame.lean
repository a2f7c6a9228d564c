import Wnr.Nsock.PassOutcomes

/-! # What attempts and deliveries leave alone

Attempts and deliveries are about events and about the byte counts of descriptors. Whatever
else a pool consists of, a pass changes by its commands only (`Pool.runPass_frame`).
-/

namespace Wnr.Nsock

/-- A descriptor but for its byte counts. -/
def Iod.uncounted (self : Iod) : Iod := { self with readCount := 0, writeCount := 0 }

/-- The receipt that an effect is. -/
def Effect.receipt? : Effect → Option Receipt
  | .result receipt => some receipt
  | _ => none

/-- What became of the results that the loop took. -/
def receipts (log : List Effect) : List Receipt := log.filterMap Effect.receipt?

theorem receipts_append (log added : List Effect) :
    receipts (log ++ added) = receipts log ++ receipts added :=
  List.filterMap_append

theorem receipts_concat_of_none {effect : Effect} (log : List Effect)
    (other : effect.receipt? = none) : receipts (log ++ [effect]) = receipts log := by
  rw [receipts_append]
  exact List.append_right_eq_self.mpr (by rw [receipts, List.filterMap_cons, other]; rfl)

namespace Pool

/-- Two pools have the same helper threads and the same commands, and are to quit or not. -/
structure SameMail (pool after : Pool) : Prop where
  connecting : after.connecting = pool.connecting
  channel : after.channel = pool.channel
  quit : after.quit = pool.quit

/-- Two pools are the same but for their events and the byte counts of their descriptors. -/
structure Frame (pool after : Pool) : Prop extends SameMail pool after where
  broadcast : after.broadcast = pool.broadcast
  iodCounter : after.iodCounter = pool.iodCounter
  eventCounter : after.eventCounter = pool.eventCounter
  receipts : receipts after.log = receipts pool.log
  iods : ∀ iodId,
    (after.iods.lookup iodId).map Iod.uncounted = (pool.iods.lookup iodId).map Iod.uncounted

variable {pool after last : Pool}

theorem SameMail.rfl : SameMail pool pool := ⟨.refl _, .refl _, .refl _⟩

theorem SameMail.trans (first : SameMail pool after) (second : SameMail after last) :
    SameMail pool last :=
  ⟨second.connecting.trans first.connecting, second.channel.trans first.channel,
    second.quit.trans first.quit⟩

theorem Frame.rfl : Frame pool pool := ⟨.rfl, .refl _, .refl _, .refl _, .refl _, fun _ => .refl _⟩

theorem Frame.trans (first : Frame pool after) (second : Frame after last) : Frame pool last :=
  ⟨first.toSameMail.trans second.toSameMail, second.broadcast.trans first.broadcast,
    second.iodCounter.trans first.iodCounter, second.eventCounter.trans first.eventCounter,
    second.receipts.trans first.receipts, fun iodId => (second.iods iodId).trans (first.iods iodId)⟩

theorem Frame.symm (frame : Frame pool after) : Frame after pool :=
  ⟨⟨frame.connecting.symm, frame.channel.symm, frame.quit.symm⟩, frame.broadcast.symm,
    frame.iodCounter.symm, frame.eventCounter.symm, frame.receipts.symm,
    fun iodId => (frame.iods iodId).symm⟩

/-- Descriptors that are the same but for their counts have the same sockets. -/
theorem Frame.sockets (frame : Frame pool after) : SameSockets pool after := by
  intro iodId
  have sockets (iod : Option Iod) :
      iod.map Iod.sockets = (iod.map Iod.uncounted).map Iod.sockets := by
    cases iod <;> rfl
  rw [sockets (after.iods.lookup iodId), sockets (pool.iods.lookup iodId), frame.iods iodId]

/-! ## Parts of the loop -/

theorem call_frame (pool : Pool) (handler : Handler) (id : EventId) (status : EventStatus) :
    Frame pool (pool.call handler id status) := by
  cases handler with
  | caller owner => exact ⟨⟨rfl, rfl, rfl⟩, rfl, rfl, rfl, receipts_concat_of_none _ rfl, fun _ => rfl⟩
  | noop => exact .rfl

theorem drop_frame (pool : Pool) (id : EventId) : Frame pool (pool.drop id) :=
  ⟨⟨rfl, rfl, rfl⟩, rfl, rfl, rfl, rfl, fun _ => rfl⟩

/-- Bytes that move are counted. -/
theorem credit_frame {iodId : Nat} {iod iod' : Iod} {effect : Effect}
    (described : pool.iods.lookup iodId = some iod) (same : iod'.uncounted = iod.uncounted)
    (other : effect.receipt? = none) (id : EventId) (e : Pending) :
    Frame pool (({ pool with iods := pool.iods.insert iodId iod' }.put id e).note effect) := by
  refine ⟨⟨rfl, rfl, rfl⟩, rfl, rfl, rfl, receipts_concat_of_none _ other, fun key => ?_⟩
  change ((pool.iods.insert iodId iod').lookup key).map _ = _
  by_cases here : key = iodId
  · rw [here, AList.lookup_insert, described, Option.map_some, Option.map_some, same]
  · rw [AList.lookup_insert_ne here]

theorem tryRead_frame (pool : Pool) (id : EventId) (outcome : SocketResult (List UInt8)) :
    Frame pool (pool.tryRead id outcome).2 := by
  obtain ⟨_, -, still | ⟨_, _, _, _, _, -, -, described, read⟩⟩ := tryRead_cases pool id outcome
  · rw [still]
    exact .rfl
  · rw [read]
    exact credit_frame described (by rfl) (by rfl) id _

theorem tryWrite_frame (pool : Pool) (id : EventId) (outcome : SocketResult Nat) :
    Frame pool (pool.tryWrite id outcome).2 := by
  obtain ⟨_, -, still | ⟨_, _, _, _, -, -, described, -, ⟨_, -, -, wrote⟩ | ⟨_, -, wrote⟩⟩⟩ :=
    tryWrite_cases pool id outcome
  · rw [still]
    exact .rfl
  · rw [wrote]
    exact credit_frame described (by rfl) (by rfl) id _
  · rw [wrote]
    exact credit_frame described (by rfl) (by rfl) id _

theorem tryIo_frame (pool : Pool) (pass : Pass) (id : EventId) :
    Frame pool (pool.tryIo pass id).2 := by
  rw [tryIo]
  split
  · exact .rfl
  split
  · exact tryRead_frame pool id _
  · exact tryWrite_frame pool id _
  · exact .rfl
  · exact .rfl
  · exact .rfl

theorem tryAll_frame (pass : Pass) (ids : List EventId) (toDeliver : List (EventId × EventStatus))
    (pool : Pool) : Frame pool (tryAll pass ids toDeliver pool).2 := by
  induction ids generalizing toDeliver pool with
  | nil => exact .rfl
  | cons id rest ih =>
      rw [tryAll_cons]
      split
      · exact ih _ _
      · exact (tryIo_frame pool pass id).trans (ih _ _)

theorem deliver_frame (pool : Pool) (id : EventId) (status : EventStatus) :
    Frame pool (pool.deliver id status) := by
  rw [deliver]
  split
  · exact drop_frame pool id
  split
  · exact .rfl
  · apply Frame.trans _ (call_frame _ _ _ _)
    apply Frame.trans _ (drop_frame _ _)
    split
    · exact ⟨⟨rfl, rfl, rfl⟩, rfl, rfl, rfl, rfl, fun _ => rfl⟩
    · exact .rfl

theorem deliverAll_frame (toDeliver : List (EventId × EventStatus)) (pool : Pool) :
    Frame pool (deliverAll toDeliver pool) := by
  induction toDeliver generalizing pool with
  | nil => exact .rfl
  | cons pair rest ih => exact (deliver_frame pool pair.1 pair.2).trans (ih _)

/-- **Only commands matter to the rest of a pool.** -/
theorem runPass_frame (pool : Pool) (pass : Pass) :
    Frame (pool.drained pass) (pool.runPass pass) := by
  rw [runPass_eq]
  exact (tryAll_frame _ _ _ _).trans (deliverAll_frame _ _)

end Pool

end Wnr.Nsock
