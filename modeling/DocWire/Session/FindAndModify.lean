import DocWire.Session.Basic

namespace DocWire

-- What becomes of the document that was found: it goes, a new one takes its place, or update
-- operators are applied to it.
inductive Modification (α : Type) where
  | remove
  | replace (replacement : α)
  | update (operators : Document)

-- Finds one document and modifies it, and gives it back as it was or as it is. `upsert` inserts
-- when nothing is found.
structure FindAndModify (α : Type) where
  collection : String
  filter : Document
  projection : Option Document
  sort : Option Document
  upsert : Bool
  returnNew : Bool
  modification : Modification α

namespace FindAndModify

variable {m : Type → Type} [Monad m] {α κ : Type}

def ofModification (collection : String) (filter : Document) (modification : Modification α) :
    FindAndModify α where
  collection := collection
  filter := filter
  projection := none
  sort := none
  upsert := false
  returnNew := false
  modification := modification

-- The field that holds the update operators or the replacement.
def updateKey : String := "update"

def insertSome (key : String) (value : Option Document) (d : Document) : Document :=
  match value with
  | some inner => d.insert key (.document inner)
  | none => d

def isOperator (name : String) : Bool :=
  name.toList.head? = some '$'

-- An update consists of operators alone; with anything else in it, it would be a replacement.
def checkUpdate (update : Document) : Except CommandFault Unit :=
  if update.isEmpty then .error .emptyUpdate
  else
    match update.keys.find? fun name => !isOperator name with
    | some name => .error (.notOperator name)
    | none => .ok ()

-- What the command says of every modification.
def common (f : FindAndModify α) : Document :=
  insertSome "sort" f.sort
    (insertSome "fields" f.projection
      (Document.ofList [("findandmodify", .string f.collection), ("query", .document f.filter)]))

def withFlags (f : FindAndModify α) (d : Document) : Document :=
  (d.insert "new" (.boolean f.returnNew)).insert "upsert" (.boolean f.upsert)

-- The command. A replacement is written by an encoder of its own, and null keeps its place.
def toDocument (f : FindAndModify α) : Except CommandFault Document :=
  match f.modification with
  | .remove => .ok (f.common.insert "remove" (.boolean true))
  | .replace _ => .ok (f.withFlags (f.common.insert updateKey .null))
  | .update operators =>
    match checkUpdate operators with
    | .ok () => .ok (f.withFlags (f.common.insert updateKey (.document operators)))
    | .error fault => .error fault

def message (f : FindAndModify α) (encoder : Encoder α) (database : String) (command : Document)
    (id : Int32) (settings : MessageSettings) : RequestMessage :=
  match f.modification with
  | .replace replacement =>
    .ofPayload id database command updateKey (encoder replacement) settings
  | _ => .ofCommand id database command settings none

-- The document that was found, as the caller reads it; there may be none.
def readValue (registry : Registry) (decoder : Decoder α) (response : Document) :
    Except CommandError (Option α) :=
  match response.get? "value" with
  | none => .ok none
  | some .null => .ok none
  | some (.document d) =>
    match registry.toBytes d with
    | .error e => .error (.codec e)
    | .ok bytes =>
      match decoder (Reader.ofBytes bytes) with
      | .ok a _ => .ok (some a)
      | .error e _ => .error (.codec e)
  | some other => .error (.invalidReply (.notDocument other))

-- Runs the command on the primary.
def execute (f : FindAndModify α) (source : Source m κ) (database : String) (encoder : Encoder α)
    (decoder : Decoder α) : Session.Action m (Except CommandError (Option α)) := do
  match f.toDocument with
  | .error fault => return .error (.invalidCommand fault)
  | .ok command =>
    let registry := (← get).registry
    match ← Session.execute source .requiresPrimary .primary registry.decodeDocument
        (f.message encoder database command) with
    | .error e => return .error e
    | .ok result => return readValue registry decoder result.response

end FindAndModify

end DocWire
