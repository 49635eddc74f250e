import DocWire.Command.Exchange
import DocWire.Connection.Lease
import DocWire.Proofs.Running

namespace DocWire

theorem Connector.create_run {ω κ : Type} (c : Connector (StateM ω) κ) (address : ServerAddress)
    (w : ω) :
    (c.manager address).create.run w =
      match c.connect address w with
      | (.ok k, w') => (.ok k, w')
      | (.error e, w') => (.error ⟨address, e⟩, w') := by
  unfold manager
  dsimp only
  rw [bind_except, lift_except]
  dsimp only
  rcases c.connect address w with ⟨outcome, w'⟩
  cases outcome with
  | ok k => rfl
  | error e => rfl

namespace Lease

variable {m : Type → Type} [Monad m] [LawfulMonad m] {κ : Type}

theorem onConnection_run {α : Type} (use : StateT κ m α) (otherwise : α) (place : Nat)
    (address : ServerAddress) (k : κ) :
    (onConnection use otherwise).run ⟨place, address, some k⟩ =
      ((do
        let (a, k') ← (use.run k : m (α × κ))
        pure (a, ⟨place, address, some k'⟩)) : PoolDirectory.Action m κ (α × Lease κ)) := by
  unfold onConnection
  simp only [StateT.run_bind, StateT.run_get, pure_bind, StateT.run_monadLift, bind_assoc,
    StateT.run_set, StateT.run_pure]

theorem send_run (c : Connector m κ) (bytes : ByteArray) (place : Nat) (address : ServerAddress)
    (k : κ) :
    ((channel c).send bytes).run ⟨place, address, some k⟩ =
      ((do
        let (outcome, k') ← ((c.channel.send bytes).run k : m (Except TransportError Unit × κ))
        pure (outcome, ⟨place, address, some k'⟩)) :
          PoolDirectory.Action m κ (Except TransportError Unit × Lease κ)) := by
  simp only [channel, StateT.run_bind, StateT.run_get, pure_bind, onConnection_run]

theorem receive_run (c : Connector m κ) (limit : Nat) (place : Nat) (address : ServerAddress)
    (k : κ) :
    ((channel c).receive limit).run ⟨place, address, some k⟩ =
      ((do
        let (outcome, k') ← ((c.channel.receive limit).run k :
          m (Except TransportError ByteArray × κ))
        pure (outcome, ⟨place, address, some k'⟩)) :
          PoolDirectory.Action m κ (Except TransportError ByteArray × Lease κ)) := by
  simp only [channel, StateT.run_bind, StateT.run_get, pure_bind, onConnection_run]

theorem settle_run (c : Connector m κ) (response : Except CommandError Document) (place : Nat)
    (address : ServerAddress) (k : κ) :
    (Exchange.settle (channel c) response).run ⟨place, address, some k⟩ =
      ((do
        let (_, k') ← ((Exchange.settle c.channel response).run k : m (Unit × κ))
        pure ((), ⟨place, address, some k'⟩)) : PoolDirectory.Action m κ (Unit × Lease κ)) := by
  unfold Exchange.settle
  cases response with
  | ok d => simp
  | error e =>
      dsimp only
      split
      · simp
      · exact onConnection_run c.channel.invalidate () place address k

-- A round trip on a lease is one on the connection on loan.
theorem roundTrip_run (c : Connector m κ) (x : Exchange) (place : Nat) (address : ServerAddress)
    (k : κ) :
    (x.roundTrip (channel c)).run ⟨place, address, some k⟩ =
      ((do
        let (response, k') ← ((x.roundTrip c.channel).run k :
          m (Except CommandError Document × κ))
        pure (response, ⟨place, address, some k'⟩)) :
          PoolDirectory.Action m κ (Except CommandError Document × Lease κ)) := by
  unfold Exchange.roundTrip
  cases x.request with
  | error e => simp
  | ok bytes =>
      simp only [Exchange.converse, StateT.run_bind, send_run, bind_assoc, pure_bind,
        monadLift_bind]
      congr 1
      funext r
      obtain ⟨outcome, k'⟩ := r
      cases outcome with
      | error e => simp [settle_run]
      | ok u =>
          simp only [StateT.run_bind, receive_run, bind_assoc, pure_bind, monadLift_bind]
          congr 1
          funext r
          obtain ⟨outcome, k''⟩ := r
          cases outcome with
          | error e => simp [settle_run]
          | ok reply => simp [settle_run]

theorem close_run (c : Connector m κ) (place : Nat) (address : ServerAddress) (k : κ) :
    (close c).run ⟨place, address, some k⟩ =
      ((do
        let _ ← PoolDirectory.onPool place fun entry => Pool.release (c.manager entry.address) k
        pure ((), ⟨place, address, none⟩)) : PoolDirectory.Action m κ (Unit × Lease κ)) := by
  unfold close handBack
  simp [StateT.run_bind]

-- A connection is handed back once.
theorem close_run_none (c : Connector m κ) (place : Nat) (address : ServerAddress) :
    (close c).run ⟨place, address, none⟩ =
      (pure ((), ⟨place, address, none⟩) : PoolDirectory.Action m κ (Unit × Lease κ)) := by
  unfold close handBack
  simp [StateT.run_bind]

end Lease

end DocWire
