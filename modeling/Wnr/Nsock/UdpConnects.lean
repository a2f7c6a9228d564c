import Wnr.Nsock.Pool

/-! # Associating a descriptor with a peer

`connect_udp` returns `Ok` whatever happens and changes the descriptor whatever the
socket says. So it does all or nothing exactly when there is a descriptor with a
datagram socket and the socket's `connect` succeeds
(`Wnr.Nsock.Pool.connectsAtomically_iff`).
-/

namespace Wnr.Nsock

open Net

/-- An error of a socket call; nothing depends on which one. -/
inductive IoError where
  | io
deriving DecidableEq

namespace Pool

/-- `connect_udp`: the result of the socket's `connect` is dropped. -/
def tryConnectUdp (self : Pool) (iodId : Nat) (addr : SocketAddr) (succeeds : Bool) :
    Except IoError Unit × Pool :=
  (.ok (), self.connectUdp iodId addr succeeds)

/-- Where a descriptor says that it is connected. -/
def claimedPeer (self : Pool) (iodId : Nat) : Option (IodKind × Option SocketAddr × Bool) :=
  (self.iods.lookup iodId).map fun iod => (iod.kind, iod.peer, iod.connected)

/-- There is a descriptor with a datagram socket. -/
def HasUdpSocket (self : Pool) (iodId : Nat) : Prop :=
  ∃ iod, self.iods.lookup iodId = some iod ∧ iod.udp.isSome

/-- The descriptor's socket is associated with the address, and the descriptor says so. -/
def AssociatedWith (self : Pool) (iodId : Nat) (addr : SocketAddr) : Prop :=
  ∃ iod, self.iods.lookup iodId = some iod ∧ iod.association = some addr ∧
    iod.peer = some addr ∧ iod.connected = true

/-- A request to associate a descriptor does all or nothing: `Ok` stands for an
association, and where there is no socket or its `connect` fails an error is returned and
the descriptor says what it said. -/
structure ConnectsAtomically (pool : Pool) (iodId : Nat) (addr : SocketAddr) (succeeds : Bool) :
    Prop where
  associated : (pool.tryConnectUdp iodId addr succeeds).1 = .ok () →
    (pool.tryConnectUdp iodId addr succeeds).2.AssociatedWith iodId addr
  refused : ¬ (pool.HasUdpSocket iodId ∧ succeeds = true) →
    (∃ error, (pool.tryConnectUdp iodId addr succeeds).1 = .error error) ∧
      (pool.tryConnectUdp iodId addr succeeds).2.claimedPeer iodId = pool.claimedPeer iodId

variable {self : Pool} {iodId : Nat} {addr : SocketAddr}

/-- What is held for the descriptor afterwards. -/
theorem lookup_connectUdp (self : Pool) (iodId : Nat) (addr : SocketAddr) (succeeds : Bool) :
    (self.connectUdp iodId addr succeeds).iods.lookup iodId =
      (self.iods.lookup iodId).map (·.associate addr succeeds) :=
  Table.lookup_modify _

/-- A socket that is there and succeeds is associated. -/
theorem associatedWith_connectUdp (socket : self.HasUdpSocket iodId) :
    (self.connectUdp iodId addr true).AssociatedWith iodId addr := by
  obtain ⟨iod, held, isSome⟩ := socket
  obtain ⟨sock, isSock⟩ := Option.isSome_iff_exists.mp isSome
  refine ⟨iod.associate addr true, ?_, ?_, rfl, rfl⟩
  · rw [lookup_connectUdp, held, Option.map_some]
  · rw [Iod.association, Iod.associate, isSock]
    rfl

/-- **When `connect_udp` does all or nothing**: exactly where there is a descriptor with a
datagram socket whose `connect` succeeds. -/
theorem connectsAtomically_iff (self : Pool) (iodId : Nat) (addr : SocketAddr)
    (succeeds : Bool) :
    self.ConnectsAtomically iodId addr succeeds ↔ self.HasUdpSocket iodId ∧ succeeds = true := by
  constructor
  · intro atomic
    by_contra missing
    -- nothing but `Ok` is returned
    obtain ⟨⟨error, returned⟩, _⟩ := atomic.refused missing
    cases returned
  · intro socket
    obtain ⟨held, isTrue⟩ := socket
    constructor
    · intro _
      rw [isTrue]
      exact associatedWith_connectUdp held
    · intro missing
      exact absurd ⟨held, isTrue⟩ missing

/-- Whatever the socket says, a descriptor that there is claims the peer. -/
theorem claimedPeer_connectUdp (self : Pool) (iodId : Nat) (addr : SocketAddr) (succeeds : Bool) :
    (self.tryConnectUdp iodId addr succeeds).2.claimedPeer iodId =
      (self.iods.lookup iodId).map fun _ => (.udp, some addr, true) := by
  rw [claimedPeer, tryConnectUdp, lookup_connectUdp, Option.map_map]
  rfl

/-- So what a descriptor says stays the same only where there is none or it said so before. -/
theorem claimedPeer_kept_iff (self : Pool) (iodId : Nat) (addr : SocketAddr) (succeeds : Bool) :
    (self.tryConnectUdp iodId addr succeeds).2.claimedPeer iodId = self.claimedPeer iodId ↔
      ∀ claim, self.claimedPeer iodId = some claim → claim = (.udp, some addr, true) := by
  rw [claimedPeer_connectUdp, claimedPeer]
  cases self.iods.lookup iodId with
  | none => exact iff_of_true rfl nofun
  | some iod =>
      rw [Option.map_some, Option.map_some, Option.some.injEq]
      constructor
      · intro same claim isClaim
        rw [← Option.some.inj isClaim, ← same]
      · intro always
        exact (always _ rfl).symm

/-- A TCP descriptor becomes a datagram one without a socket. -/
theorem connectUdp_of_tcp :
    ¬ ∀ (pool : Pool) (iodId : Nat) (addr : SocketAddr) (succeeds : Bool),
      pool.ConnectsAtomically iodId addr succeeds := by
  intro always
  let pool := Pool.new.createIodTcp.2
  have noSocket : ¬ (pool.HasUdpSocket 1 ∧ true = true) := by
    intro socket
    obtain ⟨⟨iod, held, isSome⟩, _⟩ := socket
    have isNew : some { Iod.newTcp with id := 1 } = some iod := held
    rw [← Option.some.inj isNew] at isSome
    cases isSome
  obtain ⟨⟨error, returned⟩, _⟩ := (always pool 1 (.v4 ⟨127, 0, 0, 1⟩ 53) true).refused noSocket
  cases returned

end Pool

end Wnr.Nsock
