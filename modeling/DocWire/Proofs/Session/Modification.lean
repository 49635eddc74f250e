import DocWire.Proofs.Message.Fitting
import DocWire.Proofs.Message.Payload
import DocWire.Proofs.Session.Journal
import DocWire.Proofs.Wire.Storable

namespace DocWire

open Outcome Wire

-- What update operators are written as: all names are those of operators, and there is one at least.
def Document.Operators (d : Document) : Prop :=
  d.keys ≠ [] ∧ ∀ name ∈ d.keys, name.toList.head? = some '$'

namespace RequestMessage

open Writing

variable {r : RequestMessage} {registry : Registry}

end RequestMessage

namespace FindAndModify

section

variable {α : Type} (f : FindAndModify α)

-- A field that is there if its value is given.
def given (key : String) : Option Document → List (String × Value)
  | some d => [(key, .document d)]
  | none => []

-- What a command says whatever the modification is.
def commonFields : List (String × Value) :=
  [("findandmodify", .string f.collection), ("query", .document f.filter)] ++
    given "fields" f.projection ++ given "sort" f.sort

-- What it says of a document that is written, be it a replacement or made of operators.
def writtenFields (v : Value) : List (String × Value) :=
  [("update", v), ("new", .boolean f.returnNew), ("upsert", .boolean f.upsert)]

end

-- The command that is meant.
def wording (f : FindAndModify Document) : Document :=
  match f.modification with
  | .remove => ⟨f.commonFields ++ [("remove", .boolean true)]⟩
  | .replace d => ⟨f.commonFields ++ f.writtenFields (.document d)⟩
  | .update d => ⟨f.commonFields ++ f.writtenFields (.document d)⟩

-- A replacement has to be a document that can be stored, and an update has to be made of operators,
-- so that neither can be taken for the other.
def Permitted (f : FindAndModify Document) : Prop :=
  match f.modification with
  | .remove => True
  | .replace d => d.Storable
  | .update d => d.Operators

-- No document of it has a name twice.
structure WellFormed (f : FindAndModify Document) : Prop where
  filter : f.filter.WellFormed
  projection : ∀ d, f.projection = some d → d.WellFormed
  sort : ∀ d, f.sort = some d → d.WellFormed
  replacement : ∀ d, f.modification = .replace d → d.WellFormed
  operators : ∀ d, f.modification = .update d → d.WellFormed

section

variable {α : Type} (f : FindAndModify α)

end

-- A modification that can be told to the primary: it is permitted, and its command fits.
def Deliverable (f : FindAndModify Document) (database : String) (cluster : Cluster) : Prop :=
  f.Permitted ∧ ∃ server text, cluster.select .requiresPrimary .primary = .ok server ∧
    Sendable (database ++ ".$cmd") f.wording (.ofServer server) text

-- What comes of a modification. All that is sent of it is a query of just the command that is
-- meant, and it is sent on every connection that is got for it; where nothing is sent, it fails.
structure Tells (f : FindAndModify Document) (database : String) (s : Session)
    (result : Except CommandError (Option Document)) (contacts : List Contact) : Prop where
  faithful : ∀ bytes, Sends contacts bytes → f.Deliverable database s.cluster ∧
    ∃ (length : Int32) (r : Reader), length.toInt = bytes.size ∧ r.position = bytes.size ∧
      Query.read (Reader.ofBytes bytes) =
        .ok ⟨⟨length, s.ids.draw.1, 0, 2004⟩, 0, database ++ ".$cmd", 0, -1, f.wording⟩ r
  complete : f.Deliverable database s.cluster → ∀ server, .asked server none ∈ contacts →
    ∃ bytes, Sends contacts bytes
  refused : ¬f.Deliverable database s.cluster → (∀ bytes, ¬Sends contacts bytes) ∧
    ∃ e, result = .error e
  unsent : (∀ bytes, ¬Sends contacts bytes) → ∃ e, result = .error e

section

variable {f : FindAndModify Document} {database : String} {s : Session}
  {result : Except CommandError (Option Document)} {contacts : List Contact}

end

end FindAndModify

end DocWire
