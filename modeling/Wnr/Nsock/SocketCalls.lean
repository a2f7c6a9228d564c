import Wnr.Nsock.PoolCases

/-! # What a socket call comes to for one event

A read and a write of the loop depend on the event, on the sockets of its descriptor and
on what the socket answers. What a read finds is an `Arrival`, what a write comes to is
a `Departure`; `Pool.tryRead_eq` and `Pool.tryWrite_eq` give the whole effect of an attempt
in these terms.
-/

namespace Wnr.Nsock

open Net

/-- What a read finds at the socket of a descriptor. -/
inductive Arrival where
  | chunk (bytes : List UInt8)
  | datagram (bytes : List UInt8)
  | ended
  | nothing
  | failed
deriving DecidableEq

/-- What a write to the socket of a descriptor comes to. -/
inductive Departure where
  | taken (count : Nat)
  | sent (peer : SocketAddr)
  | nothing
  | failed
deriving DecidableEq

namespace Iod

open Pool (SocketResult)

/-- What a descriptor has for a read. -/
def arrival (self : Iod) (outcome : SocketResult (List UInt8)) : Arrival :=
  match self.kind, self.tcp, self.udp, outcome with
  | .tcp, some _, _, .ok offered =>
      if offered.take 4096 = [] then .ended else .chunk (offered.take 4096)
  | .udp, _, some _, .ok bytes => .datagram (bytes.take 65535)
  | .tcp, some _, _, .failed | .udp, _, some _, .failed => .failed
  | _, _, _, _ => .nothing

/-- What a descriptor does with the bytes that a write offers. -/
def departure (self : Iod) (data : List UInt8) (outcome : SocketResult Nat) : Departure :=
  match self.kind, self.tcp, self.udp, outcome with
  | .tcp, some _, _, .ok count => .taken (min count data.length)
  | .tcp, some _, _, .failed => .failed
  | .udp, _, some sock, outcome =>
      match sock.association, outcome with
      | none, _ => .failed
      | some peer, .ok _ => .sent peer
      | some _, .wouldBlock => .nothing
      | some _, .failed => .failed
  | _, _, _, _ => .nothing

/-- The part of a descriptor that socket calls depend on. -/
def sockets (self : Iod) : IodKind × Option TcpStream × Option UdpSocket :=
  (self.kind, self.tcp, self.udp)

variable {iod other : Iod}

theorem arrival_congr (same : other.sockets = iod.sockets)
    (outcome : SocketResult (List UInt8)) : other.arrival outcome = iod.arrival outcome := by
  unfold sockets at same
  obtain ⟨kind, rest⟩ := Prod.mk.inj same
  obtain ⟨tcp, udp⟩ := Prod.mk.inj rest
  unfold arrival
  rw [kind, tcp, udp]

theorem departure_congr (same : other.sockets = iod.sockets) (data : List UInt8)
    (outcome : SocketResult Nat) : other.departure data outcome = iod.departure data outcome := by
  unfold sockets at same
  obtain ⟨kind, rest⟩ := Prod.mk.inj same
  obtain ⟨tcp, udp⟩ := Prod.mk.inj rest
  unfold departure
  rw [kind, tcp, udp]

theorem arrival_of_tcp (kind : iod.kind = .tcp) (outcome : SocketResult (List UInt8))
    (bytes : List UInt8) : iod.arrival outcome ≠ .datagram bytes := by
  unfold arrival
  rw [kind]
  intro found
  split at found
  · split at found <;> cases found
  · rename_i wrong _
    cases wrong
  all_goals cases found

theorem ne_nil_of_chunk {outcome : SocketResult (List UInt8)} {bytes : List UInt8}
    (found : iod.arrival outcome = .chunk bytes) : bytes ≠ [] := by
  unfold arrival at found
  split at found
  · split at found
    · cases found
    · rename_i some'
      cases found
      exact some'
  all_goals cases found

theorem departure_of_tcp (kind : iod.kind = .tcp) (data : List UInt8) (outcome : SocketResult Nat)
    (peer : SocketAddr) : iod.departure data outcome ≠ .sent peer := by
  unfold departure
  rw [kind]
  rcases iod.tcp with _ | stream <;> rcases outcome with offered | _ | _ <;> nofun

theorem le_of_taken {data : List UInt8} {outcome : SocketResult Nat} {count : Nat}
    (found : iod.departure data outcome = .taken count) : count ≤ data.length := by
  unfold departure at found
  split at found
  · cases found
    exact Nat.min_le_right _ _
  · cases found
  · split at found <;> cases found
  · cases found

/-- A stream that takes anything takes something of what is not empty. -/
theorem pos_of_taken {data : List UInt8} {outcome : SocketResult Nat} {count : Nat}
    (healthy : ∀ taken, outcome = .ok taken → 1 ≤ taken) (some' : data ≠ [])
    (found : iod.departure data outcome = .taken count) : 0 < count := by
  unfold departure at found
  split at found
  · cases found
    exact Nat.lt_min.mpr ⟨healthy _ rfl, List.length_pos_of_ne_nil some'⟩
  · cases found
  · split at found <;> cases found
  · cases found

end Iod

namespace Pool

variable (self : Pool)

/-! ## Spec lemmas of the two attempts -/

/-- The pool after an event received bytes through a descriptor. -/
def credit (id : EventId) (e : Pending) (iodId : Nat) (iod : Iod) (bytes : List UInt8) : Pool :=
  ({ self with
      iods := self.iods.insert iodId { iod with readCount := iod.readCount + bytes.length }
    }.put id e).note (.received id iodId bytes)

/-- The pool after an event wrote bytes through a descriptor. -/
def debit (id : EventId) (e : Pending) (iodId : Nat) (iod : Iod) (count : Nat) (effect : Effect) :
    Pool :=
  ({ self with
      iods := self.iods.insert iodId { iod with writeCount := iod.writeCount + count }
    }.put id e).note effect

variable {self} {id : EventId} {e : Pending} {iodId : Nat} {iod : Iod}

theorem tryRead_eq (found : self.pending.lookup id = some e) (named : e.iod = some iodId)
    (described : self.iods.lookup iodId = some iod) (outcome : SocketResult (List UInt8)) :
    self.tryRead id outcome =
      match iod.arrival outcome with
      | .chunk b =>
          (if readComplete { e with buf := e.buf ++ b } then some .success else none,
            self.credit id { e with buf := e.buf ++ b } iodId iod b)
      | .datagram b => (some .success, self.credit id { e with buf := b } iodId iod b)
      | .ended => (some .eof, self)
      | .nothing => (none, self)
      | .failed => (some .error, self) := by
  simp only [tryRead, found, named, described, Iod.arrival, credit]
  cases kind : iod.kind with
  | tcp =>
      cases iod.tcp with
      | none => rfl
      | some stream =>
          cases outcome with
          | ok offered =>
              by_cases ended : offered.take 4096 = []
              · simp only [ended, ↓reduceIte]
              · simp only [ended, ↓reduceIte]
          | wouldBlock => rfl
          | failed => rfl
  | udp =>
      cases iod.udp with
      | none => rfl
      | some sock => cases outcome <;> rfl

theorem tryWrite_eq {data : List UInt8} (found : self.pending.lookup id = some e)
    (named : e.iod = some iodId) (described : self.iods.lookup iodId = some iod)
    (left : e.wbuf = some data) (outcome : SocketResult Nat) :
    self.tryWrite id outcome =
      match iod.departure data outcome with
      | .taken n =>
          if n = 0 then (some .eof, self)
          else
            (if data.drop n = [] then some .success else none,
              self.debit id
                { e with wbuf := if data.drop n = [] then none else some (data.drop n) }
                iodId iod n (.accepted id iodId (data.take n)))
      | .sent peer =>
          (some .success, self.debit id { e with wbuf := none } iodId iod data.length
            (.sent id iodId peer data))
      | .nothing => (none, self)
      | .failed => (some .error, self) := by
  simp only [tryWrite, found, named, described, left, Iod.departure, debit]
  cases kind : iod.kind with
  | tcp =>
      cases iod.tcp with
      | none => rfl
      | some stream => cases outcome <;> rfl
  | udp =>
      cases iod.udp with
      | none => rfl
      | some sock =>
          obtain ⟨broadcast, association⟩ := sock
          cases association <;> cases outcome <;> rfl

/-- Without a descriptor nothing is attempted. -/
theorem tryRead_of_no_iod (found : self.pending.lookup id = some e)
    (missing : e.iod.bind self.iods.lookup = none) (outcome : SocketResult (List UInt8)) :
    self.tryRead id outcome = (none, self) := by
  cases named : e.iod with
  | none => simp only [tryRead, found, named]
  | some iodId =>
      rw [named, Option.bind_some] at missing
      simp only [tryRead, found, named, missing]

theorem tryWrite_of_no_iod (found : self.pending.lookup id = some e)
    (missing : e.iod.bind self.iods.lookup = none) (outcome : SocketResult Nat) :
    self.tryWrite id outcome = (none, self) := by
  cases named : e.iod with
  | none => simp only [tryWrite, found, named]
  | some iodId =>
      rw [named, Option.bind_some] at missing
      simp only [tryWrite, found, named, missing]

theorem tryWrite_of_no_data (found : self.pending.lookup id = some e) (sent : e.wbuf = none)
    (outcome : SocketResult Nat) : self.tryWrite id outcome = (none, self) := by
  cases described : e.iod.bind self.iods.lookup with
  | none => exact tryWrite_of_no_iod found described outcome
  | some iod =>
      obtain ⟨iodId, named, described⟩ := Option.bind_eq_some_iff.mp described
      simp only [tryWrite, found, named, described, sent]

end Pool

end Wnr.Nsock
