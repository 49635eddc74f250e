import DocWire.Bytes.Word
import DocWire.Codec.Error

namespace DocWire

inductive Container where
  | document
  | array
deriving DecidableEq

-- A document or array that is still open: where its size will stand, and the index of its next
-- item.
structure Frame where
  start : Nat
  container : Container
  index : Nat
deriving DecidableEq

-- Appends elements to a buffer. The frames are listed from the innermost; `name` is the name
-- given for the next element.
structure Writer where
  buffer : ByteArray
  frames : List Frame
  name : Option String
deriving DecidableEq

-- What a writer can be asked to do.
inductive Token where
  | name (name : String)
  | startDocument
  | endDocument
  | startArray
  | endArray
  | double (d : Double)
  | string (s : String)
  | binary (b : Binary)
  | objectId (id : ObjectId)
  | boolean (b : Bool)
  | dateTime (t : DateTime)
  | null
  | int32 (n : Int32)
  | int64 (n : Int64)
deriving DecidableEq

namespace Writer

abbrev Action := EStateM CodecError Writer

def onBuffer (buffer : ByteArray) : Writer := ⟨buffer, [], none⟩

def position (w : Writer) : Nat :=
  w.buffer.size

def append (bytes : ByteArray) : Action Unit :=
  modify fun w => { w with buffer := w.buffer ++ bytes }

def hasZeroByte (name : String) : Bool :=
  name.toUTF8.data.contains 0

-- The name for the next element: what was set last in a document, the running index in an array.
-- Either way a name that was set is used up.
def takeName : Action String := fun w =>
  match w.frames with
  | [] => .error (.misuse .outsideDocument) w
  | ⟨start, .array, index⟩ :: outer =>
    .ok (toString index) { w with frames := ⟨start, .array, index + 1⟩ :: outer, name := none }
  | ⟨_, .document, _⟩ :: _ =>
    match w.name with
    | some name => .ok name { w with name := none }
    | none => .error (.misuse .missingName) w

def header (tag : Tag) : Action Unit := do
  let name ← takeName
  if hasZeroByte name then
    throw (.invalidName name .zeroByte)
  else
    append ([tag.code].toByteArray ++ name.toUTF8 ++ [0].toByteArray)

-- A length as the word that stands in front of what it measures.
def lengthWord (length : Nat) : Except CodecError Int32 :=
  if length ≤ Word.maxLength then .ok (Int32.ofNat length)
  else .error (.invalidDocument (.tooLong length))

def appendLength (length : Nat) : Action Unit := do
  match lengthWord length with
  | .ok word => append (Word.int32 word)
  | .error e => throw e

-- The size of a document comes first but is known last: a zero stands in for it meanwhile.
def openFrame (container : Container) : Action Unit := fun w =>
  if maxNesting ≤ w.frames.length then .error (.invalidDocument .tooDeep) w
  else
    .ok () { w with
      buffer := w.buffer ++ Word.int32 0
      frames := ⟨w.buffer.size, container, 0⟩ :: w.frames }

-- Puts a word over the four bytes at `start`.
def patch (buffer : ByteArray) (start : Nat) (word : ByteArray) : ByteArray :=
  buffer.extract 0 start ++ word ++ buffer.extract (start + 4) buffer.size

-- Ends the innermost frame. One of the other kind is dropped without its size.
def closeFrame (container : Container) : Action Unit := fun w =>
  match w.frames with
  | [] => .error (.misuse .unopenedEnd) w
  | frame :: outer =>
    if frame.container = container then
      let buffer := w.buffer ++ [0].toByteArray
      match lengthWord (buffer.size - frame.start) with
      | .ok size =>
        .ok () { w with buffer := patch buffer frame.start (Word.int32 size), frames := outer }
      | .error e => .error e { w with buffer := buffer, frames := outer }
    else .error (.misuse .unopenedEnd) { w with frames := outer }

def apply : Token → Action Unit
  | .name name => modify fun w => { w with name := some name }
  | .startDocument => do
    let w ← get
    if w.frames.isEmpty then openFrame .document
    else
      header .document
      openFrame .document
  | .endDocument => closeFrame .document
  | .startArray => do
    header .array
    openFrame .array
  | .endArray => closeFrame .array
  | .double d => do
    header .double
    append (Word.uint64 d.bits)
  | .string s => do
    header .string
    appendLength (s.toUTF8.size + 1)
    append (s.toUTF8 ++ [0].toByteArray)
  | .binary b => do
    header .binary
    appendLength b.bytes.size
    append ([b.subtype].toByteArray ++ b.bytes)
  | .objectId id => do
    header .objectId
    append id.toBytes
  | .boolean b => do
    header .boolean
    append [if b then 1 else 0].toByteArray
  | .dateTime t => do
    header .dateTime
    append (Word.int64 t.milliseconds)
  | .null => header .null
  | .int32 n => do
    header .int32
    append (Word.int32 n)
  | .int64 n => do
    header .int64
    append (Word.int64 n)

end Writer

end DocWire
