import DocWire.Proofs.Command.Effects
import DocWire.Proofs.Session.Call

namespace DocWire

def failure? {α : Type} : Except CommandError α → Option CommandError
  | .ok _ => none
  | .error e => some e

-- A contact of a session with its source: it asks for a connection to a server, for which there may
-- be none, it uses the connection that it has got, and it hands it back.
inductive Contact where
  | asked (server : ServerDescription) (failure : Option CommandError)
  | used (use : Use)
  | released

-- Bytes that have been sent on a connection.
def Sends (contacts : List Contact) (bytes : ByteArray) : Prop :=
  ∃ outcome, .used (.sent bytes outcome) ∈ contacts

-- What there is outside of a session, with the contacts up to now.
structure Journal (ω : Type) where
  outside : ω
  contacts : List Contact

namespace Journal

variable {ω α : Type}

-- A run with a journal that ends like the run without it.
def after (j : Journal ω) (contacts : List Contact) (plain : α × ω) : α × Journal ω :=
  (plain.1, ⟨plain.2, j.contacts ++ contacts⟩)

end Journal

variable {ω κ : Type}

namespace Logged

variable {α : Type}

-- The journal that tells of the uses of a logged connection, behind other contacts.
def journal (contacts : List Contact) (l : Logged κ) (w : ω) : Journal ω :=
  ⟨w, contacts ++ l.uses.map .used⟩

-- A run on a logged connection, as it goes where a journal is kept instead.
def told (contacts : List Contact) (run : (α × Logged κ) × ω) : (α × κ) × Journal ω :=
  ((run.1.1, run.1.2.connection), run.1.2.journal contacts run.2)

end Logged

namespace Exchange

variable (x : Exchange) (channel : Channel (StateM ω) κ) (contacts : List Contact)

end Exchange

namespace Session

-- What a command of a session makes of its source. It asks for a connection to the server that is
-- selected, once. If there is none, it fails for the same reason, and else it uses the connection as
-- an exchange does, and hands it back.
inductive Contacts (s : Session) (routing : Routing) (preference : ReadPreference)
    (decoder : Decoder Document) (build : Int32 → MessageSettings → RequestMessage) :
    Except CommandError CommandResult → List Contact → Prop where
  | unselected {e : SelectionError} (hnone : s.cluster.select routing preference = .error e) :
      Contacts s routing preference decoder build (.error (.selection e)) []
  | unconnected {server : ServerDescription} {e : CommandError}
      (hserver : s.cluster.select routing preference = .ok server) :
      Contacts s routing preference decoder build (.error e) [.asked server (some e)]
  | exchanged {server : ServerDescription} {uses : List Use}
      {result : Except CommandError CommandResult}
      (hserver : s.cluster.select routing preference = .ok server)
      (heffects : Exchange.Effects
        ⟨build s.ids.draw.1 (.ofServer server), s.registry, decoder, true⟩ uses result) :
      Contacts s routing preference decoder build result
        (.asked server none :: (uses.map .used ++ [.released]))

variable (source : Source (StateM ω) κ) (routing : Routing) (preference : ReadPreference)
  (decoder : Decoder Document) (build : Int32 → MessageSettings → RequestMessage) (s : Session)

end Session

namespace FindAndModify

variable {α : Type}

end FindAndModify

end DocWire
