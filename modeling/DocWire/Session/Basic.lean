import DocWire.Command.Exchange
import DocWire.Connection.Source
import DocWire.Message.RequestId

namespace DocWire

-- What commands are run with, besides a source of connections: the codecs, the servers as last
-- heard of, and the numbers for requests.
structure Session where
  registry : Registry
  cluster : Cluster
  ids : RequestIds

namespace Session

variable {m : Type → Type} [Monad m] {κ : Type}

abbrev Action (m : Type → Type) := StateT Session m

def drawId : Action m Int32 :=
  modifyGet fun s => ((s.ids.draw).1, { s with ids := (s.ids.draw).2 })

-- Later commands go by this snapshot of the servers.
def updateTopology (cluster : Cluster) : Action m Unit :=
  modify fun s => { s with cluster := cluster }

def select (s : Session) (routing : Routing) (preference : ReadPreference) :
    Except CommandError ServerDescription :=
  match s.cluster.select routing preference with
  | .ok server => .ok server
  | .error e => .error (.selection e)

-- Runs an exchange on a connection, which is released whatever comes of it.
def converse (source : Source m κ) (x : Exchange) (k : κ) :
    m (Except CommandError CommandResult) := do
  let (result, k) ← (x.execute source.channel).run k
  source.release k
  return result

-- Selects a server, builds the message for its limits under a number of its own, and takes a
-- connection to that server.
def prepare (source : Source m κ) (routing : Routing) (preference : ReadPreference)
    (decoder : Decoder Document) (build : Int32 → MessageSettings → RequestMessage) :
    Action m (Except CommandError (Exchange × κ)) := do
  let s ← get
  match s.select routing preference with
  | .error e => return .error e
  | .ok server =>
    let message := build (← drawId) (.ofServer server)
    match ← (source.connect server : m (Except CommandError κ)) with
    | .error e => return .error e
    | .ok k => return .ok (⟨message, s.registry, decoder, true⟩, k)

-- Runs a command on a connection to the server that is selected for it.
def execute (source : Source m κ) (routing : Routing) (preference : ReadPreference)
    (decoder : Decoder Document) (build : Int32 → MessageSettings → RequestMessage) :
    Action m (Except CommandError CommandResult) := do
  match ← prepare source routing preference decoder build with
  | .error e => return .error e
  | .ok (x, k) => (converse source x k : m (Except CommandError CommandResult))

-- Runs a command that is a plain document.
def executeCommand (source : Source m κ) (database : String) (command : Document)
    (routing : Routing) (preference : ReadPreference) :
    Action m (Except CommandError CommandResult) := do
  let decoder := (← get).registry.decodeDocument
  execute source routing preference decoder fun id settings =>
    RequestMessage.ofCommand id database command settings none

end Session

end DocWire
