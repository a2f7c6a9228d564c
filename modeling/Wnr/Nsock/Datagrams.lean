import Wnr.Nsock.EventChange

/-! # Where datagrams go

A datagram waits for a pass of the loop, while its socket was associated with the peer
when it was requested. It reaches the address it was requested for as long as no
association changes under a waiting datagram, and none that fails leaves the socket
associated with someone else (`Pool.KeepsPeers`).
-/

namespace Wnr.Nsock

open Net

/-- The effect does not address an event's datagram to anyone but a peer. -/
def Effect.suits (id : EventId) (peer : SocketAddr) : Effect → Bool
  | .addressed event addr => event ≠ id || peer = addr
  | _ => true

/-- Every datagram that was sent went to the address it was requested for. -/
def SentAsAddressed (log : List Effect) : Prop :=
  ∀ event iodId peer data addr, .sent event iodId peer data ∈ log → .addressed event addr ∈ log →
    peer = addr

namespace Pool

variable (pool : Pool)

/-- The remote address of a descriptor's datagram socket. -/
def associationOf (iodId : Nat) : Option SocketAddr :=
  (pool.iods.lookup iodId).bind (·.association)

/-- The remote address after a request to associate the descriptor. -/
def associationAfter (iodId : Nat) (addr : SocketAddr) (succeeds : Bool) : Option SocketAddr :=
  (pool.iods.lookup iodId).bind fun iod => (iod.associate addr succeeds).association

/-- Every datagram that waits on the descriptor is for the given peer, if any. -/
def Suits (iodId : Nat) (association : Option SocketAddr) : Prop :=
  ∀ peer, association = some peer → ∀ id e addr, pool.Open id e → e.iod = some iodId →
    .addressed id addr ∈ pool.log → peer = addr

/-- An operation that associates a socket leaves it associated with the peer of all the
datagrams that wait for it, its own one included, or with no one. -/
def KeepsPeers : Op → Prop
  | .sendUdp iodId addr _ _ succeeds _ =>
      pool.Suits iodId (pool.associationAfter iodId addr succeeds) ∧
        ∀ peer, pool.associationAfter iodId addr succeeds = some peer → peer = addr
  | .connectUdp iodId addr succeeds => pool.Suits iodId (pool.associationAfter iodId addr succeeds)
  | .createIodUdpFrom sock => pool.Suits (pool.iodCounter + 1) sock.association
  | _ => True

theorem suits_iff (iodId : Nat) (association : Option SocketAddr) :
    pool.Suits iodId association ↔ (association.all fun peer =>
      pool.pending.entries.all fun entry => decide (entry.2.done = false →
        entry.2.iod = some iodId → pool.log.all (·.suits entry.1 peer))) := by
  rw [Option.all_eq_true]
  refine forall_congr' fun peer => imp_congr_right fun _ => ?_
  rw [List.all_eq_true]
  constructor
  · rintro suits ⟨id, e⟩ member
    refine decide_eq_true fun live named => List.all_eq_true.mpr fun effect logged => ?_
    cases effect with
    | addressed event addr =>
        by_cases same : event = id
        · subst same
          have equal := suits event e addr ⟨AList.mem_lookup_iff.mpr member, live⟩ named logged
          simp only [Effect.suits, equal, decide_true, Bool.or_true]
        · simp only [Effect.suits, ne_eq, same, not_false_eq_true, decide_true, Bool.true_or]
    | requested | called | silenced | result | received | accepted | sent => rfl
  · rintro suits id e addr ⟨held, live⟩ named logged
    have fits := of_decide_eq_true (suits ⟨id, e⟩ (AList.mem_lookup_iff.mp held)) live named
    have here := List.all_eq_true.mp fits _ logged
    simpa [Effect.suits] using here

instance (iodId : Nat) (association : Option SocketAddr) :
    Decidable (pool.Suits iodId association) :=
  decidable_of_iff' _ (suits_iff pool iodId association)

instance (association : Option SocketAddr) (addr : SocketAddr) :
    Decidable (∀ peer, association = some peer → peer = addr) :=
  match association with
  | none => .isTrue nofun
  | some peer => decidable_of_iff (peer = addr) ⟨fun same _ found => Option.some.inj found ▸ same,
      fun all => all peer rfl⟩

instance (op : Op) : Decidable (pool.KeepsPeers op) :=
  match op with
  | .sendUdp .. => inferInstanceAs (Decidable (_ ∧ _))
  | .connectUdp .. => inferInstanceAs (Decidable (pool.Suits _ _))
  | .createIodUdpFrom .. => inferInstanceAs (Decidable (pool.Suits _ _))
  | .setBroadcast .. | .createIodTcp | .createIodUdp .. | .createIodTcpFrom .. | .connectTcp ..
  | .read .. | .readBytes .. | .readlines .. | .write .. | .writeFmt .. | .printf ..
  | .timerCreate .. | .cancel .. | .deleteIod .. | .delete .. | .loopQuit | .takeReadBuf ..
  | .arrive .. | .run .. => .isTrue trivial

variable {pool} {after : Pool} {op : Op}

/-! ## Associations -/

theorem associationOf_modify (pool : Pool) {key : Nat} {change : Iod → Iod}
    (kept : ∀ iod, (change iod).association = iod.association) (iodId : Nat) :
    { pool with iods := Table.modify pool.iods key change }.associationOf iodId =
      pool.associationOf iodId := by
  unfold associationOf
  by_cases same : iodId = key
  · rw [same, Table.lookup_modify]
    cases pool.iods.lookup key with
    | none => rfl
    | some iod => exact kept iod
  · rw [Table.lookup_modify_ne change same]

theorem associationOf_congr (same : after.iods = pool.iods) (iodId : Nat) :
    after.associationOf iodId = pool.associationOf iodId := by
  unfold associationOf
  rw [same]

theorem associationOf_connectUdp (pool : Pool) (key : Nat) (addr : SocketAddr) (succeeds : Bool)
    (iodId : Nat) :
    (pool.connectUdp key addr succeeds).associationOf iodId =
      if iodId = key then pool.associationAfter key addr succeeds else pool.associationOf iodId := by
  unfold associationOf connectUdp
  split
  · rename_i same
    rw [same, Table.lookup_modify, associationAfter]
    cases pool.iods.lookup key <;> rfl
  · rename_i other
    rw [Table.lookup_modify_ne _ other]

theorem associationOf_install (pool : Pool) (result : ConnectResult) (iodId : Nat) :
    (pool.install result).associationOf iodId = pool.associationOf iodId := by
  rw [install]
  split
  · refine associationOf_modify pool ?_ iodId
    exact fun _ => rfl
  · rfl

theorem associationOf_receive (pool : Pool) (order : List Nat) (cmd : Cmd) (iodId : Nat) :
    (pool.receive order cmd).associationOf iodId = pool.associationOf iodId := by
  cases cmd with
  | quit => rfl
  | connectResult result =>
      cases target : pool.connectTarget order result.iod with
      | none => rw [receive_result_of_none target]; rfl
      | some evid =>
          obtain ⟨e, -, -, -, received⟩ := receive_result_of_some target
          rw [received, ← associationOf_install pool result]
          apply associationOf_congr
          split
          · rfl
          · exact call_iods ..

/-- Counting bytes leaves the association alone. -/
theorem associationOf_insert {key : Nat} {iod : Iod} (held : pool.iods.lookup key = some iod)
    (iod' : Iod) (counted : after.iods = pool.iods.insert key iod')
    (kept : iod'.association = iod.association)
    (iodId : Nat) : after.associationOf iodId = pool.associationOf iodId := by
  unfold associationOf
  rw [counted]
  by_cases same : iodId = key
  · rw [same, AList.lookup_insert, held]
    exact kept
  · rw [AList.lookup_insert_ne same]

theorem associationOf_tryRead (pool : Pool) (id : EventId) (outcome : SocketResult (List UInt8))
    (iodId : Nat) :
    (pool.tryRead id outcome).2.associationOf iodId = pool.associationOf iodId := by
  obtain ⟨status, -, unchanged | ⟨e, key, iod, buf, b, -, -, held, read⟩⟩ :=
    tryRead_cases pool id outcome
  · rw [unchanged]
  · rw [read]
    exact associationOf_insert held { iod with readCount := iod.readCount + b.length } rfl rfl iodId

theorem associationOf_tryWrite (pool : Pool) (id : EventId) (outcome : SocketResult Nat)
    (iodId : Nat) :
    (pool.tryWrite id outcome).2.associationOf iodId = pool.associationOf iodId := by
  obtain ⟨status, -, unchanged | ⟨e, key, iod, data, -, -, held, -, wrote⟩⟩ :=
    tryWrite_cases pool id outcome
  · rw [unchanged]
  · rcases wrote with ⟨n, -, -, wrote⟩ | ⟨peer, -, wrote⟩
    · rw [wrote]
      exact associationOf_insert held { iod with writeCount := iod.writeCount + n } rfl rfl iodId
    · rw [wrote]
      exact associationOf_insert held { iod with writeCount := iod.writeCount + data.length } rfl rfl
        iodId

theorem associationOf_addIod (pool : Pool) (iod : Iod) (iodId : Nat) :
    (pool.addIod iod).2.associationOf iodId =
      if iodId = pool.iodCounter + 1 then iod.association else pool.associationOf iodId := by
  unfold associationOf addIod
  split
  · rename_i same
    rw [same, AList.lookup_insert]
    rfl
  · rename_i other
    rw [AList.lookup_insert_ne other]

/-- The calls that give no descriptor an association. -/
theorem associationOf_call (pool : Pool) (single : op.IsCall)
    (adopts : ∀ sock, op ≠ .createIodUdpFrom sock)
    (connects : ∀ iodId addr succeeds, op ≠ .connectUdp iodId addr succeeds)
    (sends : ∀ iodId addr data timeoutMs succeeds now,
      op ≠ .sendUdp iodId addr data timeoutMs succeeds now)
    {iodId : Nat} {peer : SocketAddr}
    (associated : (perform op pool).2.associationOf iodId = some peer) :
    pool.associationOf iodId = some peer := by
  cases perform_change single pool with
  | quiet same => rwa [associationOf_congr same.iods] at associated
  | descriptor iod adopted same =>
      rw [associationOf_congr same.iods, associationOf_addIod] at associated
      rcases adopted with none | ⟨sock, asked, -⟩
      · split at associated
        · rw [none] at associated
          cases associated
        · exact associated
      · exact absurd asked (adopts sock)
  | request kind iod deadline wbuf target lineRead asked same =>
      rwa [associationOf_congr same.iods] at associated
  | associate iodId addr succeeds asked same => exact absurd asked (connects iodId addr succeeds)
  | datagram iodId addr data timeoutMs succeeds now asked same =>
      exact absurd asked (sends iodId addr data timeoutMs succeeds now)
  | cancel id notify asked same =>
      rwa [associationOf_congr (same.iods.trans (iods_cancel pool id notify))] at associated

/-- The actions other than calls give no descriptor an association. -/
theorem associationOf_act {action : Action} (taken : Takes op pool action)
    (other : ∀ op, action ≠ .call op) {iodId : Nat} {peer : SocketAddr}
    (associated : (pool.act action).associationOf iodId = some peer) :
    pool.associationOf iodId = some peer := by
  cases taken with
  | call single => exact absurd rfl (other op)
  | arrive | arriveRun =>
      exact (associationOf_congr (arrive_view pool _ _).iods iodId).symm.trans associated
  | takeChannel | quitRun | quitDelete => exact associated
  | receive => exact (associationOf_receive pool _ _ iodId).symm.trans associated
  | tryRead held => exact (associationOf_tryRead pool _ _ iodId).symm.trans associated
  | tryWrite held => exact (associationOf_tryWrite pool _ _ iodId).symm.trans associated
  | deliver deliverable =>
      exact (associationOf_congr (iods_deliver pool _ _) iodId).symm.trans associated
  | killOfIod | kill =>
      exact (associationOf_congr (iods_killEvent pool _) iodId).symm.trans associated
  | @dropIod _ id | @dropIods _ _ _ id =>
      change ((pool.iods.erase id).lookup iodId).bind _ = _ at associated
      by_cases same : iodId = id
      · rw [same, AList.lookup_erase] at associated
        cases associated
      · rwa [AList.lookup_erase_ne same] at associated

/-! ## The invariant -/

/-- No waiting datagram can go astray, and none has. -/
structure Directed (pool : Pool) : Prop where
  sound : pool.Sound
  suits : ∀ iodId, pool.Suits iodId (pool.associationOf iodId)
  sent : SentAsAddressed pool.log

/-- A datagram that waits after an action waited before it, or the action requested it. -/
theorem waiting_cases {action : Action} (sound : pool.Sound) (taken : Takes op pool action)
    {id : EventId} {e : Pending} {iodId : Nat} {addr : SocketAddr}
    (held : (pool.act action).Open id e) (named : e.iod = some iodId)
    (addressed : .addressed id addr ∈ (pool.act action).log) :
    (∃ e', pool.Open id e' ∧ e'.iod = some iodId ∧ .addressed id addr ∈ pool.log) ∨
      action = .call op ∧
        ∃ data timeoutMs succeeds now, op = .sendUdp iodId addr data timeoutMs succeeds now := by
  have change := taken.change sound
  obtain ⟨added, log, emitted⟩ := change.grown
  have fresh {e' : Pending} (before : pool.Open id e') (next : id = pool.eventCounter + 1) : False :=
    not_created_succ pool (next ▸ sound.created id e' before.1)
  rw [log, List.mem_append] at addressed
  rcases addressed with old | new
  · rcases change.open_cases held with before | ⟨e', _, _, _, before, -, rfl, -⟩ | ⟨next, -⟩
    · exact .inl ⟨e, before, named, old⟩
    · exact .inl ⟨e', before, named, old⟩
    · exact absurd (next ▸ sound.mentioned _ old id rfl) (not_created_succ pool)
  · obtain ⟨next, call, key, data, timeoutMs, succeeds, now, asked⟩ :=
      (emitted _ new).addressed_cases
    rcases change.open_cases held with before | ⟨e', _, _, _, before, -, -, -⟩ |
        ⟨-, -, -, -, rest, log'⟩
    · exact (fresh before next).elim
    · exact (fresh before next).elim
    · have request : .requested id e.kind e.iod e.wbuf ∈ added := by
        rw [List.append_cancel_left (log.symm.trans log')]
        exact List.mem_cons_self
      rcases (emitted _ request).requested_cases.2.2 with ⟨none, -⟩ | ⟨key', data', some, -, same, -⟩
      · rw [asked] at none
        cases none
      · rw [asked] at some
        obtain ⟨rfl, -⟩ := Prod.mk.inj (Option.some.inj some)
        obtain rfl := Option.some.inj (named.symm.trans same)
        exact .inr ⟨call, data, timeoutMs, succeeds, now, asked⟩

theorem Directed.suits_call (valid : pool.Directed) (single : op.IsCall)
    (keeps : pool.KeepsPeers op) (iodId : Nat) :
    (pool.act (.call op)).Suits iodId ((pool.act (.call op)).associationOf iodId) := by
  intro peer associated id e addr held named addressed
  have waiting := waiting_cases valid.sound (.call single) held named addressed
  have waited (other : ∀ addr data timeoutMs succeeds now,
      op ≠ .sendUdp iodId addr data timeoutMs succeeds now) :
      ∃ e', pool.Open id e' ∧ e'.iod = some iodId ∧ .addressed id addr ∈ pool.log :=
    waiting.elim (fun old => old) fun ⟨_, _, _, _, _, asked⟩ => absurd asked (other _ _ _ _ _)
  by_cases adopts : ∃ sock, op = .createIodUdpFrom sock
  · obtain ⟨sock, rfl⟩ := adopts
    obtain ⟨e', held', named', addressed'⟩ := waited nofun
    rw [show pool.act (.call (.createIodUdpFrom sock)) = (pool.addIod _).2 from rfl,
      associationOf_addIod] at associated
    split at associated
    · rename_i same
      rw [same] at named'
      exact keeps peer associated id e' addr held' named' addressed'
    · exact valid.suits iodId peer associated id e' addr held' named' addressed'
  by_cases connects : ∃ key addr' succeeds, op = .connectUdp key addr' succeeds
  · obtain ⟨key, addr', succeeds, rfl⟩ := connects
    obtain ⟨e', held', named', addressed'⟩ := waited nofun
    rw [show pool.act (.call (.connectUdp key addr' succeeds)) =
      pool.connectUdp key addr' succeeds from rfl, associationOf_connectUdp] at associated
    split at associated
    · rename_i same
      rw [same] at named'
      exact keeps peer associated id e' addr held' named' addressed'
    · exact valid.suits iodId peer associated id e' addr held' named' addressed'
  by_cases sends : ∃ key addr' data timeoutMs succeeds now,
      op = .sendUdp key addr' data timeoutMs succeeds now
  · obtain ⟨key, addr', data, timeoutMs, succeeds, now, rfl⟩ := sends
    have associated' : (pool.connectUdp key addr' succeeds).associationOf iodId = some peer :=
      associated
    rw [associationOf_connectUdp] at associated'
    rcases waiting with ⟨e', held', named', addressed'⟩ | ⟨-, _, _, _, _, asked⟩
    · split at associated'
      · rename_i same
        rw [same] at named'
        exact keeps.1 peer associated' id e' addr held' named' addressed'
      · exact valid.suits iodId peer associated' id e' addr held' named' addressed'
    · cases asked
      rw [if_pos rfl] at associated'
      exact keeps.2 peer associated'
  · obtain ⟨e', held', named', addressed'⟩ :=
      waited fun addr data timeoutMs succeeds now asked => sends ⟨_, _, _, _, _, _, asked⟩
    have before := associationOf_call pool single (fun sock same => adopts ⟨sock, same⟩)
      (fun _ _ _ same => connects ⟨_, _, _, same⟩)
      (fun _ _ _ _ _ _ same => sends ⟨_, _, _, _, _, _, same⟩) associated
    exact valid.suits iodId peer before id e' addr held' named' addressed'

theorem Directed.suits_act (valid : pool.Directed) {action : Action}
    (allowed : Allowed KeepsPeers (fun _ _ => True) op pool action) (iodId : Nat) :
    (pool.act action).Suits iodId ((pool.act action).associationOf iodId) := by
  by_cases called : ∃ op', action = .call op'
  · obtain ⟨op', rfl⟩ := called
    obtain ⟨taken, keeps⟩ := allowed
    cases taken with
    | call single => exact valid.suits_call single keeps iodId
  · have other : ∀ op', action ≠ .call op' := fun op' same => called ⟨op', same⟩
    intro peer associated id e addr held named addressed
    have before := associationOf_act allowed.1 other associated
    rcases waiting_cases valid.sound allowed.1 held named addressed with
        ⟨e', held', named', addressed'⟩ | ⟨call, -⟩
    · exact valid.suits iodId peer before id e' addr held' named' addressed'
    · exact absurd call (other op)

/-- A datagram that goes out was waiting, and goes to the socket's peer. -/
theorem Emission.sent_cases {action : Action} {event : EventId} {iodId : Nat} {peer : SocketAddr}
    {data : List UInt8} (emission : Emission pool op action (.sent event iodId peer data)) :
    ∃ e, pool.Open event e ∧ e.iod = some iodId ∧ pool.associationOf iodId = some peer := by
  cases emission with
  | read held io | wrote held io =>
      cases io with
      | sent _ iod _ _ named described associated left =>
          refine ⟨_, held, named, ?_⟩
          unfold associationOf
          rw [described]
          exact associated

/-- **One action.** -/
theorem Directed.act (valid : pool.Directed) {action : Action}
    (allowed : Allowed KeepsPeers (fun _ _ => True) op pool action) :
    (pool.act action).Directed := by
  have change := allowed.1.change valid.sound
  refine ⟨change.sound valid.sound, valid.suits_act allowed, ?_⟩
  obtain ⟨added, log, emitted⟩ := change.grown
  intro event iodId peer data addr sent addressed
  rw [log, List.mem_append] at sent addressed
  have created : pool.Created event := sent.elim
    (fun old => valid.sound.mentioned _ old event rfl)
    (fun new => by
      obtain ⟨e, held, -⟩ := (emitted _ new).sent_cases
      exact valid.sound.created event e held.1)
  have asked : .addressed event addr ∈ pool.log := addressed.elim id fun new =>
    absurd ((emitted _ new).addressed_cases.1 ▸ created) (not_created_succ pool)
  rcases sent with old | new
  · exact valid.sent event iodId peer data addr old asked
  · obtain ⟨e, held, named, associated⟩ := (emitted _ new).sent_cases
    exact valid.suits iodId peer associated event e addr held named asked

/-- **Datagrams go where they are addressed**, in every history in which each operation
that associates a socket keeps the peer of the datagrams that wait for it. -/
theorem sent_as_addressed (ops : List Op) (keeps : Along KeepsPeers (fun _ _ => True) ops new) :
    SentAsAddressed (execute ops new).log := by
  refine ((execute_steps keeps).invariant Directed ⟨sound_new, ?_, nofun⟩ ?_).sent
  · intro iodId peer associated
    cases associated
  · rintro pool action valid ⟨op, allowed⟩
    exact valid.act allowed

/-- A pass in which every socket takes what it is offered. -/
def sendingPass : Pass := { idlePass with writes := fun _ => .ok 1 }

/-- Two datagrams to two peers, with a pass after each. -/
def sendTwice : List Op :=
  [.createIodUdp true, .sendUdp 1 (localhost 53) [1] (-1) true 0, .run 0 0 [sendingPass],
    .sendUdp 1 (localhost 123) [2] (-1) true 0, .run 0 0 [sendingPass]]

theorem sent_as_addressed_twice :
    Along KeepsPeers (fun _ _ => True) sendTwice new ∧
      SentAsAddressed (execute sendTwice new).log := by
  have keeps : Along KeepsPeers (fun _ _ => True) sendTwice new := by decide
  exact ⟨keeps, sent_as_addressed sendTwice keeps⟩

/-- Two datagrams to two peers before a pass. -/
def sendTogether : List Op :=
  [.createIodUdp true, .sendUdp 1 (localhost 53) [1] (-1) true 0,
    .sendUdp 1 (localhost 123) [2] (-1) true 0, .run 0 0 [sendingPass]]

/-- The first datagram goes to the second one's peer. -/
theorem sent_to_wrong_peer : ¬ SentAsAddressed (execute sendTogether new).log := by
  intro sent
  have went : .sent 1 1 (localhost 123) [1] ∈ (execute sendTogether new).log := by decide
  have asked : .addressed 1 (localhost 53) ∈ (execute sendTogether new).log := by decide
  cases sent 1 1 (localhost 123) [1] (localhost 53) went asked

end Pool

end Wnr.Nsock
