import DocWire.Codec.Encode
import DocWire.Message.Framing
import DocWire.Message.Settings

namespace DocWire

-- How the document of a request is written: in one pass, by the registry or an encoder of its own,
-- or with one field `key` whose contents a caller writes.
inductive RequestBody where
  | whole (encoder : Option (Encoder Document))
  | withPayload (key : String) (payload : Writing Unit)

-- A command on its way to a server.
structure RequestMessage where
  id : Int32
  space : String
  command : Document
  settings : MessageSettings
  body : RequestBody

namespace RequestMessage

-- The name under which a database takes commands.
def commandSpace (database : String) : String :=
  database ++ ".$cmd"

def ofCommand (id : Int32) (database : String) (command : Document) (settings : MessageSettings)
    (encoder : Option (Encoder Document)) : RequestMessage :=
  ⟨id, commandSpace database, command, settings, .whole encoder⟩

-- A command whose field `key` holds a payload. It stands where the command has such a field, and
-- behind all fields if it has none.
def ofPayload (id : Int32) (database : String) (command : Document) (key : String)
    (payload : Writing Unit) (settings : MessageSettings) : RequestMessage :=
  ⟨id, commandSpace database, command, settings, .withPayload key payload⟩

def key? (r : RequestMessage) : Option String :=
  match r.body with
  | .whole _ => none
  | .withPayload key _ => some key

-- Fields with the payload in the place of each one that is named `key`.
def writeFields (registry : Registry) (key : String) (payload : Writing Unit) :
    List (String × Value) → Writing Unit
  | [] => return ()
  | (name, v) :: rest => do
    .write (.name name)
    if name = key then payload else registry.encode (.value v)
    writeFields registry key payload rest

def writeWithPayload (registry : Registry) (command : Document) (key : String)
    (payload : Writing Unit) : Writing Unit :=
  .document do
    writeFields registry key payload command.fields
    if command.contains key then return ()
    else
      .write (.name key)
      payload

def writeDocument (r : RequestMessage) (registry : Registry) : Writing Unit :=
  match r.body with
  | .whole none => registry.encodeDocument r.command
  | .whole (some encoder) => encoder r.command
  | .withPayload key payload => writeWithPayload registry r.command key payload

-- The name of the addressee ends with a zero byte, and so must not hold one.
def spaceBytes (r : RequestMessage) : Framing Unit :=
  if Writer.hasZeroByte r.space then throw (.invalidNamespace r.space)
  else Framing.append (r.space.toUTF8 ++ [0].toByteArray)

-- What follows the header: flags, the addressee, how many documents to skip and how many to
-- return, and the command.
def writeBody (r : RequestMessage) (registry : Registry) : Framing Unit := do
  Framing.append (Word.int32 0)
  r.spaceBytes
  Framing.append (Word.int32 0 ++ Word.int32 (-1))
  let start := (← get).size
  Framing.write (r.writeDocument registry)
  let size := (← get).size - start
  if r.settings.maxDocumentSize < size then
    modify fun buffer => buffer.extract 0 start
    throw (.oversizedDocument size r.settings.maxDocumentSize)

def header (r : RequestMessage) : MessageHeader := ⟨0, r.id, 0, OpCode.query.code⟩

-- Appends the message to a buffer, which stays as it is if that fails.
def encode (r : RequestMessage) (registry : Registry) : Framing Unit :=
  Framing.message r.header r.settings.maxMessageSize (r.writeBody registry)

end RequestMessage

end DocWire
