import DocWire.Proofs.Command.Success
import DocWire.Proofs.Session.Call

namespace DocWire

-- What a call brings into a session, in which documents are read as the registry says.
structure Call where
  routing : Routing
  preference : ReadPreference
  build : Int32 → MessageSettings → RequestMessage

namespace Call

variable {m : Type → Type} [Monad m] {κ : Type}

def execute (call : Call) (source : Source m κ) :
    Session.Action m (Except CommandError CommandResult) := do
  let decoder := (← get).registry.decodeDocument
  Session.execute source call.routing call.preference decoder call.build

def ofCommand (database : String) (command : Document) (routing : Routing)
    (preference : ReadPreference) : Call where
  routing := routing
  preference := preference
  build id settings := RequestMessage.ofCommand id database command settings none

def ofModification {α : Type} (f : FindAndModify α) (encoder : Encoder α) (database : String)
    (command : Document) : Call where
  routing := .requiresPrimary
  preference := .primary
  build := f.message encoder database command

theorem executeCommand_eq (source : Source m κ) (database : String) (command : Document)
    (routing : Routing) (preference : ReadPreference) :
    Session.executeCommand source database command routing preference =
      (ofCommand database command routing preference).execute source :=
  rfl

-- To find and modify is a call whose result is read once more.
theorem findAndModify_eq [LawfulMonad m] {α : Type} (f : FindAndModify α) (source : Source m κ)
    (database : String) (encoder : Encoder α) (decoder : Decoder α) (s : Session) :
    (f.execute source database encoder decoder).run s =
      match f.toDocument with
      | .error fault => pure (.error (.invalidCommand fault), s)
      | .ok command => do
        match ← ((ofModification f encoder database command).execute source).run s with
        | (.error e, after) => return (.error e, after)
        | (.ok result, after) =>
          return (FindAndModify.readValue s.registry decoder result.response, after) := by
  unfold FindAndModify.execute
  cases f.toDocument with
  | error fault => rfl
  | ok command =>
      unfold execute
      simp only [StateT.run_bind, StateT.run_get, pure_bind]
      congr 1
      funext outcome
      obtain ⟨result, after⟩ := outcome
      cases result with
      | error e => rfl
      | ok result => rfl

end Call

namespace Session

variable {ω κ : Type}

theorem execute_call (source : Source (PoolDirectory.Action (StateM ω) κ) (Lease κ)) (call : Call)
    (s : Session) :
    call.execute source s =
      execute source call.routing call.preference s.registry.decodeDocument call.build s :=
  rfl

-- A call is prepared, and then talks to its server if it has got a connection.
theorem execute_state (c : Connector (StateM ω) κ) (call : Call) (decoder : Decoder Document)
    (s : Session) (d : PoolDirectory κ) (w : ω) :
    execute (PoolDirectory.source c) call.routing call.preference decoder call.build s d w =
      match prepare (PoolDirectory.source c) call.routing call.preference decoder call.build
          s d w with
      | (((.error e, s'), d'), w') => (((.error e, s'), d'), w')
      | (((.ok (x, l), s'), d'), w') =>
        match converse (PoolDirectory.source c) x l d' w' with
        | ((result, d''), w'') => (((result, s'), d''), w'') := by
  rw [execute, bind_states]
  rcases prepare (PoolDirectory.source c) call.routing call.preference decoder call.build s d w with
    ⟨⟨⟨outcome, s'⟩, d'⟩, w'⟩
  cases outcome with
  | error e => rfl
  | ok prepared => rfl

end Session

-- A client with the calls that are under way, each with the connection that it has got.
structure Client (ω σ : Type) where
  session : Session
  directory : PoolDirectory (Line σ)
  world : World ω
  calls : List (Exchange × Lease (Line σ))

def Client.start {ω σ : Type} (session : Session) (config : PoolConfig) (outside : ω) :
    Client ω σ where
  session := session
  directory := .ofConfig config
  world := ⟨outside, 0⟩
  calls := []

-- What can happen to a client: it hears of other servers, calls begin and end in any order, and
-- its pools are closed.
inductive Move where
  | update (cluster : Cluster)
  | begin (call : Call)
  | finish (place : Nat)
  | close

-- What can be seen of that: a call that gets no connection, one that is lent one, and one that
-- ends, with its lease before and after its round trip.
inductive Event (σ : Type) where
  | refused (e : CommandError)
  | lent (x : Exchange) (l : Lease (Line σ))
  | ended (x : Exchange) (before after : Lease (Line σ))
      (result : Except CommandError CommandResult)

-- How a call has ended, or that it has not.
def Event.result? {σ : Type} : Event σ → Option (Except CommandError CommandResult)
  | .refused e => some (.error e)
  | .lent _ _ => none
  | .ended _ _ _ result => some result

namespace Client

variable {ω σ : Type}

def begin (p : Outside ω σ) (call : Call) (s : Client ω σ) : Option (Event σ) × Client ω σ :=
  match Session.prepare (PoolDirectory.source p.connector) call.routing call.preference
      s.session.registry.decodeDocument call.build s.session s.directory s.world with
  | (((.error e, session), directory), world) =>
    (some (.refused e), ⟨session, directory, world, s.calls⟩)
  | (((.ok (x, l), session), directory), world) =>
    (some (.lent x l), ⟨session, directory, world, s.calls ++ [(x, l)]⟩)

def finish (p : Outside ω σ) (place : Nat) (s : Client ω σ) : Option (Event σ) × Client ω σ :=
  match s.calls[place]? with
  | none => (none, s)
  | some (x, l) =>
    let spent := ((x.roundTrip (Lease.channel p.connector)).run l s.directory s.world).1.1.2
    match Session.converse (PoolDirectory.source p.connector) x l s.directory s.world with
    | ((result, directory), world) =>
      (some (.ended x l spent result), ⟨s.session, directory, world, s.calls.eraseIdx place⟩)

def update (cluster : Cluster) (s : Client ω σ) : Client ω σ :=
  { s with session := ((Session.updateTopology cluster : Session.Action Id Unit).run s.session).2 }

def close (p : Outside ω σ) (s : Client ω σ) : Client ω σ :=
  match PoolDirectory.close p.connector s.directory s.world with
  | (((), directory), world) => { s with directory := directory, world := world }

def step (p : Outside ω σ) : Move → Client ω σ → Option (Event σ) × Client ω σ
  | .update cluster, s => (none, s.update cluster)
  | .begin call, s => s.begin p call
  | .finish place, s => s.finish p place
  | .close, s => (none, s.close p)

def run (p : Outside ω σ) : List Move → Client ω σ → List (Event σ) × Client ω σ
  | [], s => ([], s)
  | move :: rest, s =>
    match step p move s with
    | (event, middle) =>
      match run p rest middle with
      | (later, last) => (event.toList ++ later, last)

-- To begin a call and to finish it at once is to execute it.
theorem run_alone (p : Outside ω σ) (call : Call) (s : Client ω σ) :
    match call.execute (PoolDirectory.source p.connector) s.session s.directory s.world with
    | (((result, session), directory), world) =>
      (run p [.begin call, .finish s.calls.length] s).2 = ⟨session, directory, world, s.calls⟩ ∧
        ((run p [.begin call, .finish s.calls.length] s).1.getLast?.bind Event.result?) =
          some result := by
  rw [Session.execute_call, Session.execute_state]
  simp only [run, step, begin]
  rcases Session.prepare (PoolDirectory.source p.connector) call.routing call.preference
    s.session.registry.decodeDocument call.build s.session s.directory s.world with
    ⟨⟨⟨outcome, session⟩, directory⟩, world⟩
  cases outcome with
  | error e =>
      have hnone : s.calls[s.calls.length]? = none := List.getElem?_eq_none (Nat.le_refl _)
      simp only [finish, hnone, true_and]
      rfl
  | ok borrowed =>
      obtain ⟨x, l⟩ := borrowed
      have hlast : (s.calls ++ [(x, l)])[s.calls.length]? = some (x, l) :=
        List.getElem?_concat_length
      have hrest : (s.calls ++ [(x, l)]).eraseIdx s.calls.length = s.calls := by
        rw [List.eraseIdx_append_of_length_le (Nat.le_refl _), Nat.sub_self]
        exact List.append_nil _
      simp only [finish, hlast, hrest]
      rcases Session.converse (PoolDirectory.source p.connector) x l directory world with
        ⟨⟨result, directory'⟩, world'⟩
      exact ⟨rfl, rfl⟩

end Client

end DocWire
