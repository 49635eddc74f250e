import DocWire.Number.Span
import DocWire.Server.Address

namespace DocWire

-- The part that a server plays. `other` stands for arbiters, hidden members and servers not yet
-- known.
inductive ServerRole where
  | primary
  | secondary
  | other
deriving DecidableEq

-- What is known of a server.
structure ServerDescription where
  address : ServerAddress
  role : ServerRole
  maxDocumentSize : Nat
  maxMessageSize : Nat
  maxWireVersion : Int32
  roundTrip : Span
deriving DecidableEq

def defaultMaxDocumentSize : Nat := 16 * 1024 * 1024

def defaultMaxMessageSize : Nat := 48 * 1000 * 1000

-- A server of which only the role is known.
def ServerDescription.ofRole (address : ServerAddress) (role : ServerRole) : ServerDescription where
  address := address
  role := role
  maxDocumentSize := defaultMaxDocumentSize
  maxMessageSize := defaultMaxMessageSize
  maxWireVersion := 0
  roundTrip := ⟨0⟩

-- The servers known at one moment, as they were listed.
structure Cluster where
  servers : List ServerDescription
deriving DecidableEq

namespace Cluster

def empty : Cluster := ⟨[]⟩

def primaries (c : Cluster) : List ServerDescription :=
  c.servers.filter fun s => s.role = .primary

def secondaries (c : Cluster) : List ServerDescription :=
  c.servers.filter fun s => s.role = .secondary

-- Two servers can both be listed as primary while one takes over from the other: the first counts.
def primary (c : Cluster) : List ServerDescription :=
  c.primaries.take 1

-- The servers that a readable command may go to.
def preferred (c : Cluster) : ReadPreference → List ServerDescription
  | .primary => c.primary
  | .primaryPreferred => if c.primary.isEmpty then c.secondaries else c.primary
  | .secondary => c.secondaries
  | .secondaryPreferred => if c.secondaries.isEmpty then c.primary else c.secondaries
  | .nearest => c.servers.filter fun s => s.role = .primary || s.role = .secondary

-- The servers that a command may go to; only a readable one heeds the preference.
def eligible (c : Cluster) (routing : Routing) (preference : ReadPreference) :
    List ServerDescription :=
  match routing with
  | .requiresPrimary => c.primary
  | .readable => c.preferred preference

-- The first of the servers that answer fastest.
def fastest : List ServerDescription → Option ServerDescription
  | [] => none
  | s :: rest =>
    match fastest rest with
    | none => some s
    | some t => if t.roundTrip.nanoseconds < s.roundTrip.nanoseconds then some t else some s

-- The server that a command is sent to.
def select (c : Cluster) (routing : Routing) (preference : ReadPreference) :
    Except SelectionError ServerDescription :=
  match fastest (c.eligible routing preference) with
  | some server => .ok server
  | none => .error (.noServer routing preference)

end Cluster

end DocWire
