import DocWire.Codec.Registry

namespace DocWire

-- Reads the payload of a scalar type.
def Scalar.read : Scalar → Reader.Action Value
  | .int32 => return .int32 (← Reader.int32)
  | .int64 => return .int64 (← Reader.int64)
  | .double => return .double (← Reader.double)
  | .boolean => return .boolean (← Reader.boolean)
  | .string => return .string (← Reader.string)
  | .literal => return .string (← Reader.string)
  | .binary => return .binary (← Reader.binary)
  | .objectId => return .objectId (← Reader.objectId)
  | .dateTime => return .dateTime (← Reader.dateTime)

namespace Registry

-- The codec for the payload announced last; with none announced, a document is expected.
def currentCodec (r : Registry) : Reader.Action Codec := do
  match r.resolveTag ((← get).current.getD .document) with
  | .ok codec => return codec
  | .error e => throw e

mutual

-- Reads with a codec in at most `steps` steps, one for each element and each passing on. A codec
-- that passes its work back to itself uses up any number of them.
def readWith (r : Registry) (steps : Nat) (codec : Codec) : Reader.Action Value :=
  match steps, codec with
  | _, .scalar s => s.read
  | _, .null => do
    Reader.null
    return .null
  | _, .custom _ decode => decode
  | 0, _ => throw .endless
  | steps + 1, .value => do
    readWith r steps (← r.currentCodec)
  | steps + 1, .document _ => readDocument r steps
  | steps + 1, .map => readDocument r steps
  | steps + 1, .sequence => readArray r steps
  | steps + 1, .array => readArray r steps
termination_by structural steps

def readDocument (r : Registry) (steps : Nat) : Reader.Action Value :=
  match steps with
  | 0 => throw .endless
  | steps + 1 => do
    Reader.start
    let d ← readFields r steps .empty
    Reader.finish
    return .document d
termination_by structural steps

def readArray (r : Registry) (steps : Nat) : Reader.Action Value :=
  match steps with
  | 0 => throw .endless
  | steps + 1 => do
    Reader.start
    let items ← readItems r steps
    Reader.finish
    return .array items
termination_by structural steps

-- The fields up to the end of the document, put behind those of `d`.
def readFields (r : Registry) (steps : Nat) (d : Document) : Reader.Action Document :=
  match steps with
  | 0 => throw .endless
  | steps + 1 => do
    match ← Reader.tag with
    | none => return d
    | some _ =>
      let name ← Reader.name
      let v ← readWith r steps (← r.currentCodec)
      readFields r steps (d.insert name v)
termination_by structural steps

-- The items up to the end of the array; their names are not looked at.
def readItems (r : Registry) (steps : Nat) : Reader.Action (List Value) :=
  match steps with
  | 0 => throw .endless
  | steps + 1 => do
    match ← Reader.tag with
    | none => return []
    | some _ =>
      let _ ← Reader.name
      let v ← readWith r steps (← r.currentCodec)
      return v :: (← readItems r steps)
termination_by structural steps

end

-- Enough steps for whatever the unread bytes hold: an element takes a byte at least, and each
-- may be passed on before it is read.
def steps (r : Reader) : Nat :=
  4 * r.remaining + 8

-- Reads with a codec from where the reader stands.
def decodeWith (r : Registry) (codec : Codec) : Reader.Action Value := do
  readWith r (steps (← get)) codec

-- Reads the payload announced last, or a document.
def decodeValue (r : Registry) : Reader.Action Value := do
  r.decodeWith (← r.currentCodec)

def decodeDocument (r : Registry) : Decoder Document := do
  match r.resolve .document with
  | .error e => throw e
  | .ok codec =>
    match ← r.decodeWith codec with
    | .document d => return d
    | other => throw (.invalidDocument (.notDocument other))

end Registry

end DocWire
