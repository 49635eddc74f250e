import DocWire.Codec.Registry

namespace DocWire

namespace Writing

-- Elements between the two ends of a document.
def document (fields : Writing Unit) : Writing Unit := do
  write .startDocument
  fields
  write .endDocument

-- Items between the two ends of an array.
def array (items : Writing Unit) : Writing Unit := do
  write .startArray
  items
  write .endArray

end Writing

-- The token of a scalar, if it is one of the given type.
def Scalar.token? : Scalar → Datum → Option Token
  | .int32, .int32 n => some (.int32 n)
  | .int64, .int64 n => some (.int64 n)
  | .double, .double d => some (.double d)
  | .boolean, .boolean b => some (.boolean b)
  | .string, .string s => some (.string s)
  | .literal, .literal s => some (.string s)
  | .binary, .binary b => some (.binary b)
  | .objectId, .objectId id => some (.objectId id)
  | .dateTime, .dateTime t => some (.dateTime t)
  | _, _ => none

namespace Codec

-- Why a codec cannot write data of a type: it serves another one, or misses the parts it needs.
def refusal (codec : Codec) (kind : Kind) : CodecError :=
  match codec with
  | .scalar s => .typeMismatch (.scalar s) kind
  | .document _ => .typeMismatch .document kind
  | .value => .typeMismatch .value kind
  | .map => .invalidDocument (.noChildren kind .entries)
  | .array => .invalidDocument (.noChildren kind .arrayElements)
  | _ => .invalidDocument (.noChildren kind .elements)

-- Writes what the codec need not take apart, and refuses the rest.
def writeWhole (codec : Codec) (x : Datum) : Writing Unit :=
  match codec with
  | .null => .write .null
  | .custom encode _ => encode x
  | .scalar s =>
    match s.token? x with
    | some token => .write token
    | none => .fail (codec.refusal x.kind)
  | _ => .fail (codec.refusal x.kind)

end Codec

-- The token of a value that is a single element.
def Value.token? : Value → Option Token
  | .double d => some (.double d)
  | .string s => some (.string s)
  | .binary b => some (.binary b)
  | .objectId id => some (.objectId id)
  | .boolean b => some (.boolean b)
  | .dateTime t => some (.dateTime t)
  | .null => some .null
  | .int32 n => some (.int32 n)
  | .int64 n => some (.int64 n)
  | .document _ => none
  | .array _ => none

namespace Registry

-- Goes on with the codec for a type, or ends with the error that there is none.
def withCodec (r : Registry) (kind : Kind) (next : Codec → Writing Unit) : Writing Unit :=
  match r.resolve kind with
  | .ok codec => next codec
  | .error e => .fail e

mutual

-- Writes a value with a given codec; the codecs of its parts are found in the registry.
def writeValue (r : Registry) (codec : Codec) (v : Value) : Writing Unit :=
  match codec, v with
  | .value, .document d => r.withCodec .document fun inner => writeDocument r inner d
  | .value, .array items => r.withCodec (.list .value) fun
    | .sequence => .array (writeItems r items)
    | .array => .array (writeItems r items)
    | inner => inner.writeWhole (.elements (.list .value) (items.map .value))
  | .value, v =>
    match v.token? with
    | some token => .write token
    | none => .done ()
  | codec, v => codec.writeWhole (.value v)
termination_by structural v

def writeDocument (r : Registry) (codec : Codec) (d : Document) : Writing Unit :=
  match codec, d with
  | .document names, ⟨fields⟩ => .document (writeFields r names fields)
  | .map, ⟨fields⟩ => .document (writeFields r .any fields)
  | codec, d => codec.writeWhole (.document d)
termination_by structural d

def writeItems (r : Registry) (items : List Value) : Writing Unit :=
  match items with
  | [] => .done ()
  | v :: rest => do
    r.withCodec .value fun codec => writeValue r codec v
    writeItems r rest
termination_by structural items

def writeFields (r : Registry) (names : FieldNames) (fields : List (String × Value)) :
    Writing Unit :=
  match fields with
  | [] => .done ()
  | (name, v) :: rest => do
    .ofExcept (names.check name)
    .write (.name name)
    r.withCodec .value fun codec => writeValue r codec v
    writeFields r names rest
termination_by structural fields

end

mutual

-- Writes a datum with a given codec.
def writeDatum (r : Registry) (codec : Codec) (x : Datum) : Writing Unit :=
  match x with
  | .value v => r.writeValue codec v
  | .document d => r.writeDocument codec d
  | .elements kind items =>
    match codec with
    | .sequence => .array (writeElements r items)
    | .array => .array (writeElements r items)
    | codec => codec.writeWhole (.elements kind items)
  | .entries kind fields =>
    match codec with
    | .map => .document (writeEntries r fields)
    | codec => codec.writeWhole (.entries kind fields)
  | x => codec.writeWhole x
termination_by structural x

def writeElements (r : Registry) (items : List Datum) : Writing Unit :=
  match items with
  | [] => .done ()
  | x :: rest => do
    r.withCodec x.kind fun codec => writeDatum r codec x
    writeElements r rest
termination_by structural items

def writeEntries (r : Registry) (fields : List (String × Datum)) : Writing Unit :=
  match fields with
  | [] => .done ()
  | (name, x) :: rest => do
    .write (.name name)
    r.withCodec x.kind fun codec => writeDatum r codec x
    writeEntries r rest
termination_by structural fields

end

-- Writes a datum with the codec of its type.
def encode (r : Registry) : Encoder Datum := fun x =>
  r.withCodec x.kind fun codec => r.writeDatum codec x

def encodeDocument (r : Registry) : Encoder Document := fun d =>
  r.encode (.document d)

-- Writes a document whose own field names can be stored, which keeps operators out; the
-- documents inside it may be named freely.
def encodeStorable (r : Registry) : Encoder Document := fun d =>
  r.writeDocument (.document .storable) d

-- The bytes of a document that stands alone.
def toBytes (r : Registry) (d : Document) : Except CodecError ByteArray :=
  match (r.encodeDocument d).runOn ByteArray.empty with
  | (.ok (), bytes) => .ok bytes
  | (.error e, _) => .error e

end Registry

end DocWire
