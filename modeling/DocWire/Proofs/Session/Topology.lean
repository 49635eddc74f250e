import DocWire.Proofs.Message.Fitting
import DocWire.Proofs.Session.Journal
import DocWire.Proofs.Session.Run

namespace DocWire

namespace Cluster

-- The server that a command is to go to. One that must reach the primary goes to the first that is
-- listed as such, whatever the preference, and never to another.
structure Chooses (c : Cluster) (routing : Routing) (preference : ReadPreference)
    (server : ServerDescription) : Prop where
  selected : c.select routing preference = .ok server
  primary : routing = .requiresPrimary → server.role = .primary ∧
    c.servers.find? (fun other => other.role = .primary) = some server

end Cluster

-- How a connection to a server is used for a message within the limits of the server. The message is
-- sent if it fits them and not otherwise, and without it the command fails; a reply that is larger
-- than the messages of the server is refused, and the connection is given up.
structure ServerDescription.Bounds (server : ServerDescription) (message : RequestMessage)
    (registry : Registry) (uses : List Use) (failure : Option CommandError) : Prop where
  sent : ∀ bytes, (∃ outcome, .sent bytes outcome ∈ uses) ↔
    ∃ text, message.Fits registry (.ofServer server) text ∧ bytes = message.framed text
  unsent : (∀ text, ¬message.Fits registry (.ofServer server) text) → ∃ e, failure = some e
  asked : ∀ limit outcome, .received limit outcome ∈ uses → limit = server.maxMessageSize
  refused : ∀ limit reply, .received limit (.ok reply) ∈ uses →
    server.maxMessageSize < reply.size → .invalidated ∈ uses ∧
      failure = some (if reply.size < MessageHeader.size then
        .invalidReply (.shortHeader reply.size)
        else .oversizedMessage reply.size server.maxMessageSize)

-- A use that is no failure up to some point is in bounds whatever comes after that.
theorem ServerDescription.Bounds.later {server : ServerDescription} {message : RequestMessage}
    {registry : Registry} {uses : List Use} (h : server.Bounds message registry uses none)
    (failure : Option CommandError) : server.Bounds message registry uses failure where
  sent := h.sent
  unsent := by
    intro hnone
    obtain ⟨e, he⟩ := h.unsent hnone
    cases he
  asked := h.asked
  refused := by
    intro limit reply hreceived hlarge
    cases (h.refused limit reply hreceived hlarge).2

-- What is done with a session: it hears of other servers, and it runs commands.
inductive Task : Type 1 where
  | update (cluster : Cluster)
  | execute (call : Call) (decoder : Decoder Document)
  | executeCommand (database : String) (command : Document) (routing : Routing)
      (preference : ReadPreference)
  | modify {α : Type} (f : FindAndModify α) (database : String) (encoder : Encoder α)
      (decoder : Decoder α)

namespace Task

-- The message of a command, under a number and settings.
def message? (id : Int32) (settings : MessageSettings) : Task → Option RequestMessage
  | .update _ => none
  | .execute call _ => some (call.build id settings)
  | .executeCommand database command _ _ => some (.ofCommand id database command settings none)
  | .modify f database encoder _ =>
    match f.toDocument with
    | .error _ => none
    | .ok command => some (f.message encoder database command id settings)

-- A message that a caller builds need not take the limits that it is given. All others do.
def Limited : Task → Prop
  | .execute call _ => ∀ id settings, (call.build id settings).settings = settings
  | _ => True

-- Why a command cannot be put into words.
def fault? : Task → Option CommandFault
  | .modify f _ _ _ =>
    match f.toDocument with
    | .error fault => some fault
    | .ok _ => none
  | _ => none

section

variable {m : Type → Type} [Monad m] {κ : Type}

-- Does one thing, and tells why it has failed if it has.
def run (source : Source m κ) : Task → Session.Action m (Option CommandError)
  | .update cluster => do
    Session.updateTopology cluster
    return none
  | .execute call decoder => do
    return failure? (← Session.execute source call.routing call.preference decoder call.build)
  | .executeCommand database command routing preference => do
    return failure? (← Session.executeCommand source database command routing preference)
  | .modify f database encoder decoder => do
    return failure? (← f.execute source database encoder decoder)

end

-- What comes of a command where these servers are known. Unless it cannot be put into words, it
-- asks once for a connection to the server that is chosen for it. Without one it fails as the source
-- says; with one it is put into a message for this server, uses the connection within the limits of
-- this server, and hands it back.
inductive Heeds (registry : Registry) (c : Cluster) (routing : Routing)
    (preference : ReadPreference) (task : Task) : Option CommandError → List Contact → Prop where
  | unworded {fault : CommandFault} (hfault : task.fault? = some fault) :
      Heeds registry c routing preference task (some (.invalidCommand fault)) []
  | unselected {e : SelectionError} (hnone : c.select routing preference = .error e) :
      Heeds registry c routing preference task (some (.selection e)) []
  | unconnected {server : ServerDescription} {e : CommandError}
      (hserver : c.Chooses routing preference server) :
      Heeds registry c routing preference task (some e) [.asked server (some e)]
  | exchanged {server : ServerDescription} {id : Int32} {message : RequestMessage} {uses : List Use}
      {failure : Option CommandError} (hserver : c.Chooses routing preference server)
      (hmessage : task.message? id (.ofServer server) = some message)
      (hbounds : task.Limited → server.Bounds message registry uses failure) :
      Heeds registry c routing preference task failure
        (.asked server none :: (uses.map .used ++ [.released]))

theorem Heeds.later {registry : Registry} {c : Cluster} {routing : Routing}
    {preference : ReadPreference} {task : Task} {contacts : List Contact}
    (h : Heeds registry c routing preference task none contacts) (failure : Option CommandError) :
    Heeds registry c routing preference task failure contacts := by
  cases h with
  | exchanged hserver hmessage hbounds =>
      exact .exchanged hserver hmessage fun h => (hbounds h).later failure

section

variable {ω κ : Type} (source : Source (StateM ω) κ)

end

end Task

end DocWire
