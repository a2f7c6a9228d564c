import Wnr.Nsock.EntrySteps
import Wnr.Nsock.PassOutcomes

/-! # What deleting a descriptor does

Deleting a descriptor ends the events that name it and leaves the others alone
(`Pool.deleteIod_gone`, `Pool.deleteIod_other`). What its actions preserve while a
descriptor is missing, a deletion preserves (`Pool.deletion_invariant`).
-/

namespace Wnr.Nsock

namespace Pool

variable {pool : Pool} {id : EventId}

theorem killEvent_other (sound : pool.Sound) {event : EventId} (ne : id ≠ event) :
    SameEvent id pool (pool.killEvent event) := by
  refine ⟨?_, ?_, ?_⟩
  · rw [killEvent_pending, AList.lookup_erase_ne ne]
  · rw [killEvent_readBufs, AList.lookup_erase_ne ne]
  · rcases killEvent_cases pool event with ⟨same, -⟩ | ⟨e, held, same⟩
    · rw [same.log]
      rfl
    · have foreign : (Effect.called event event .kill).event ≠ some id :=
        fun same => ne (Option.some.inj same).symm
      rw [same.log, (sound.live event e held).1]
      exact (about_append ..).trans
        ((congrArg (_ ++ ·) (about_of_event_ne foreign)).trans (List.append_nil _))

theorem killEvents_other (sound : pool.Sound) {ids : List EventId} (unlisted : id ∉ ids) :
    SameEvent id pool (killEvents ids pool) := by
  induction ids generalizing pool with
  | nil => exact .rfl
  | cons event rest ih =>
      rw [List.mem_cons, not_or] at unlisted
      have sound' : (pool.killEvent event).Sound :=
        ((Takes.killOfIod : Takes (.deleteIod [] 0) pool (.kill event)).change sound).sound sound
      exact (killEvent_other sound unlisted.1).trans (ih sound' unlisted.2)

/-- Deleting a descriptor does not matter to the events of the others. -/
theorem deleteIod_other (sound : pool.Sound) (order : List Nat) {key : Nat}
    (other : ∀ e, pool.pending.lookup id = some e → e.iod ≠ some key) :
    SameEvent id pool (pool.deleteIod order key).2 := by
  refine SameEvent.trans (killEvents_other sound fun listed => ?_) ⟨rfl, rfl, rfl⟩
  rw [List.mem_filter, decide_eq_true_iff] at listed
  obtain ⟨e, found, named⟩ := Option.bind_eq_some_iff.mp listed.2
  exact other e found named

/-- No event that names the descriptor is held any more. -/
theorem deleteIod_gone (order : List Nat) {key : Nat} {e : Pending}
    (held : (pool.deleteIod order key).2.pending.lookup id = some e) : e.iod ≠ some key := by
  intro named
  obtain ⟨unlisted, held⟩ := lookup_of_killEvents held
  apply unlisted
  refine List.mem_filter.mpr ⟨(Table.mem_walk_iff_lookup ..).mpr ⟨e, held⟩, ?_⟩
  rw [held, Option.bind_some, named]
  exact decide_eq_true rfl

theorem killEvents_iods (ids : List EventId) (pool : Pool) :
    (killEvents ids pool).iods = pool.iods := by
  induction ids generalizing pool with
  | nil => rfl
  | cons event rest ih => rw [killEvents, ih, iods_killEvent]

theorem deleteIod_iods (order : List Nat) (key : Nat) :
    (pool.deleteIod order key).2.iods = pool.iods.erase key :=
  congrArg (AList.erase key) (killEvents_iods _ pool)

/-! ## The actions of a deletion -/

/-- A deletion that removes the descriptor only under a condition takes the action. -/
def Action.Deletes (iodId : Nat) (condition : Prop) : Action → Prop
  | .kill _ | .setQuit _ => True
  | .dropIod key => key = iodId → condition
  | _ => False

variable {op : Op} {action : Action} {iodId : Nat} {condition : Prop}

theorem Takes.deletes_deleteIod {order : List Nat} {key : Nat}
    (taken : Takes (.deleteIod order key) pool action) : action.Deletes iodId (key = iodId) := by
  cases taken with
  | call single => exact single.elim
  | killOfIod => trivial
  | dropIod => exact fun here => here

theorem Takes.deletes_delete {iodOrder order : List Nat} {orders : List (List Nat)}
    (taken : Takes (.delete iodOrder orders order) pool action) : action.Deletes iodId True := by
  cases taken with
  | call single => exact single.elim
  | kill => trivial
  | dropIods => exact fun _ => trivial
  | quitDelete => trivial

/-- A descriptor that is missing stays so. -/
theorem Action.Deletes.missing (deletes : action.Deletes iodId condition)
    (missing : condition → pool.iods.lookup iodId = none) (holds : condition) :
    (pool.act action).iods.lookup iodId = none := by
  cases action with
  | kill event =>
      rw [act, iods_killEvent]
      exact missing holds
  | dropIod key =>
      by_cases here : iodId = key
      · rw [here]
        exact AList.lookup_erase ..
      · exact (AList.lookup_erase_ne here).trans (missing holds)
  | setQuit value => exact missing holds
  | _ => exact deletes.elim

/-- What the actions of a deletion preserve while the descriptor is missing, the
deletion preserves. -/
theorem deletion_invariant {property : Pool → Prop}
    (deletes : ∀ state action, Takes op state action → action.Deletes iodId condition)
    (preserved : ∀ state action, property state →
      (condition → state.iods.lookup iodId = none) → Takes op state action →
      property (state.act action))
    (missing : condition → pool.iods.lookup iodId = none) (initially : property pool) :
    property (perform op pool).2 := by
  have along : OpAlong (fun _ _ => True) (fun _ _ => True) op pool :=
    opAlong_of_forall (fun _ _ => trivial) (fun _ _ => trivial) op pool
  refine ((perform_steps along).invariant
    (fun state => property state ∧ (condition → state.iods.lookup iodId = none))
    ⟨initially, missing⟩ ?_).1
  rintro state action ⟨holds, missing⟩ ⟨taken, -⟩
  exact ⟨preserved state action holds missing taken,
    (deletes state action taken).missing missing⟩

end Pool

end Wnr.Nsock
