import DocWire.Proofs.Connection.Circulation
import DocWire.Session.FindAndModify

namespace DocWire

namespace Session

section

variable {m : Type → Type} [Monad m] [LawfulMonad m] {κ σ : Type}

-- A call that has a connection talks to the server, hands the connection back as it is after that,
-- and tells what has come of it.
theorem converse_run (c : Connector m κ) {x : Exchange} (hx : x.closeAfterwards = true)
    (place : Nat) (address : ServerAddress) (k : κ) :
    converse (PoolDirectory.source c) x ⟨place, address, some k⟩ =
      ((do
        let started ← (c.channel.now : m Span)
        let (response, k') ← ((x.roundTrip c.channel).run k :
          m (Except CommandError Document × κ))
        let _ ← PoolDirectory.onPool place fun entry => Pool.release (c.manager entry.address) k'
        match response with
        | .error e => return .error e
        | .ok d =>
          let ended ← (c.channel.now : m Span)
          return Exchange.judge
            ⟨x.message.command, address, d, ⟨ended.nanoseconds - started.nanoseconds⟩⟩) :
        PoolDirectory.Action m κ (Except CommandError CommandResult)) := by
  have hnow : (Lease.channel c).now = (liftM c.channel.now : PoolDirectory.Action m κ Span) := rfl
  have hclose : (Lease.channel c).close = Lease.close c := rfl
  unfold converse Exchange.execute
  simp only [PoolDirectory.source]
  simp only [StateT.run_bind, StateT.run_get, pure_bind, bind_assoc, hx, if_true,
    StateT.run_monadLift, monadLift_self]
  simp only [Lease.roundTrip_run, hnow, hclose, Lease.close_run, bind_assoc, pure_bind]
  congr 1
  funext started
  congr 1
  funext r
  obtain ⟨response, k'⟩ := r
  cases response with
  | error e => simp [Lease.close_run_none]
  | ok d =>
      simp [Lease.close_run_none]
      rfl

-- On a stream connection, to talk to the server is an exchange on the stream.
theorem converse_eq {c : Connector m κ} {stream : ByteStream σ} {carry : StreamConnection σ → κ}
    (h : c.channel.Carries stream carry) {x : Exchange} (hx : x.closeAfterwards = true)
    (place : Nat) (address : ServerAddress) (k : StreamConnection σ) :
    converse (PoolDirectory.source c) x ⟨place, address, some (carry k)⟩ =
      ((do
        let started ← (c.channel.now : m Span)
        let _ ← PoolDirectory.onPool place fun entry =>
          Pool.release (c.manager entry.address) (carry (x.talk stream k).2)
        match (x.talk stream k).1 with
        | .error e => return .error e
        | .ok d =>
          let ended ← (c.channel.now : m Span)
          return Exchange.judge
            ⟨x.message.command, address, d, ⟨ended.nanoseconds - started.nanoseconds⟩⟩) :
        PoolDirectory.Action m κ (Except CommandError CommandResult)) := by
  rw [converse_run c hx]
  simp only [Exchange.roundTrip_carries h, monadLift_pure, pure_bind]

-- A call draws a number for its request before it asks for a connection.
theorem prepare_run (source : Source m κ) (routing : Routing) (preference : ReadPreference)
    (decoder : Decoder Document) (build : Int32 → MessageSettings → RequestMessage) (s : Session) :
    (prepare source routing preference decoder build).run s =
      match s.select routing preference with
      | .error e => pure (.error e, s)
      | .ok server => do
        match ← source.connect server with
        | .error e => return (.error e, { s with ids := s.ids.draw.2 })
        | .ok k =>
          return (.ok (⟨build s.ids.draw.1 (.ofServer server), s.registry, decoder, true⟩, k),
            { s with ids := s.ids.draw.2 }) := by
  unfold prepare drawId
  simp only [StateT.run_bind, StateT.run_get, pure_bind]
  cases s.select routing preference with
  | error e => rfl
  | ok server =>
      simp only [StateT.run_bind, StateT.run_modifyGet, pure_bind, StateT.run_monadLift,
        monadLift_self, bind_assoc]
      congr 1
      funext outcome
      cases outcome with
      | error e => rfl
      | ok k => rfl

end

variable {ω σ : Type} (p : Outside ω σ)

theorem channel_carries : p.connector.channel.Carries (Recorded.stream p.stream) id := by
  constructor
  · intro bytes k
    rfl
  · intro limit k
    rfl
  · intro k
    rfl

-- What a pool gets back of a connection.
def kept (k : Line σ) : List (Line σ) :=
  if k.isOpen then [k] else []

theorem converse_circulates {x : Exchange} (hx : x.closeAfterwards = true) (place : Nat)
    (address : ServerAddress) (k : Line σ) :
    Circulates PoolDirectory.idle (kept (x.talk (Recorded.stream p.stream) k).2)
      (converse (PoolDirectory.source p.connector) x ⟨place, address, some k⟩) fun _ => [] := by
  have hconverse := converse_eq (channel_carries p) hx place address k
  rw [id, id] at hconverse
  rw [hconverse]
  apply circulates_bind (PoolDirectory.now_circulates p _)
  intro started
  apply circulates_bind (PoolDirectory.onPool_circulates place fun entry =>
    Pool.release_circulates p entry.address (x.talk (Recorded.stream p.stream) k).2)
  intro released
  have hnothing : released.elim [] (fun _ => ([] : List (Line σ))) = [] := by
    cases released with
    | none => rfl
    | some outcome => rfl
  rw [hnothing]
  cases (x.talk (Recorded.stream p.stream) k).1 with
  | error e => exact circulates_lose rfl
  | ok d =>
      apply circulates_bind (PoolDirectory.now_circulates p [])
      intro ended
      exact circulates_lose rfl

-- What a call tells of the response to its request.
inductive Reports (x : Exchange) : Except CommandError Document →
    Except CommandError CommandResult → Prop where
  | failed (e : CommandError) : Reports x (.error e) (.error e)
  | judged (d : Document) (server : ServerAddress) (elapsed : Span) :
      Reports x (.ok d) (Exchange.judge ⟨x.message.command, server, d, elapsed⟩)

theorem converse_reports {x : Exchange} (hx : x.closeAfterwards = true) (place : Nat)
    (address : ServerAddress) (k : Line σ) :
    Returns (Reports x (x.talk (Recorded.stream p.stream) k).1)
      (converse (PoolDirectory.source p.connector) x ⟨place, address, some k⟩) := by
  have hconverse := converse_eq (channel_carries p) hx place address k
  rw [id, id] at hconverse
  rw [hconverse]
  apply returns_bind
  intro started
  apply returns_bind
  intro released
  cases (x.talk (Recorded.stream p.stream) k).1 with
  | error e => exact returns_pure (.failed e)
  | ok d =>
      apply returns_bind
      intro ended
      exact returns_pure (.judged d address _)

-- What comes out of a session with a call that has got a connection.
def borrowed (prepared : Except CommandError (Exchange × Lease (Line σ)) × Session) :
    List (Line σ) :=
  prepared.1.toOption.elim [] fun call => call.2.lines

-- A call that is to talk to a server, reads as its registry says, and hands its connection back.
structure Ready (x : Exchange) (l : Lease (Line σ)) : Prop where
  reads : x.decoder = x.registry.decodeDocument
  handsBack : x.closeAfterwards = true
  onLoan : ∃ k, l = ⟨l.place, l.address, some k⟩

variable (routing : Routing) (preference : ReadPreference) (decoder : Decoder Document)
  (build : Int32 → MessageSettings → RequestMessage) (s : Session)

theorem prepare_circulates :
    Circulates PoolDirectory.idle []
      ((prepare (PoolDirectory.source p.connector) routing preference decoder build).run s)
      borrowed := by
  rw [prepare_run]
  cases s.select routing preference with
  | error e => exact circulates_pure _ borrowed
  | ok server =>
      apply circulates_bind (PoolDirectory.connect_circulates p server)
      intro outcome
      cases outcome with
      | error e => exact circulates_pure _ borrowed
      | ok l => exact circulates_pure _ borrowed

theorem prepare_ready :
    Returns (fun prepared => ∀ x l, prepared.1 = .ok (x, l) → Ready x l)
      ((prepare (PoolDirectory.source p.connector) routing preference s.registry.decodeDocument
        build).run s) := by
  rw [prepare_run]
  cases s.select routing preference with
  | error e =>
      apply returns_pure
      intro x l h
      cases h
  | ok server =>
      refine returns_bind_of (PoolDirectory.connect_onLoan p server) fun outcome houtcome => ?_
      cases outcome with
      | error e =>
          apply returns_pure
          intro x l h
          cases h
      | ok l =>
          apply returns_pure
          intro x l' h
          cases h
          exact ⟨rfl, rfl, houtcome l rfl⟩

end Session

end DocWire
