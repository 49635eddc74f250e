import DocWire.Datum.Basic
import DocWire.Element.Reader
import DocWire.Element.Writing

namespace DocWire

-- Which names a document may give to its fields.
inductive FieldNames where
  | any
  | storable
deriving DecidableEq

def FieldNames.check (names : FieldNames) (name : String) : Except CodecError Unit :=
  match names with
  | .any => .ok ()
  | .storable =>
    if name.toList.head? = some '$' then .error (.invalidName name .leadingDollar)
    else if name.toList.contains '.' then .error (.invalidName name .dot)
    else .ok ()

-- A way to write data and to read values. `value` passes on what it is given to the codec of the
-- contents; `custom` is a pair that a caller brings along.
inductive Codec where
  | scalar (s : Scalar)
  | null
  | document (names : FieldNames)
  | map
  | sequence
  | array
  | value
  | custom (encode : Datum → Writing Unit) (decode : Reader.Action Value)

-- The codec of a type that is a scalar, whatever is registered.
def Codec.scalar? : Kind → Option Codec
  | .scalar s => some (.scalar s)
  | _ => none

-- Says which codec serves which type: those registered for exactly one type, and one for the
-- types that nothing else serves.
structure Registry where
  exactly : List (Kind × Codec)
  fallback : Option Codec

namespace Registry

def standard : Registry where
  exactly := [(.document, .document .any), (.value, .value)]
  fallback := none

-- Sets the codec for exactly one type, and tells whether there was one.
def register (r : Registry) (kind : Kind) (codec : Codec) : Bool × Registry :=
  ((r.exactly.lookup kind).isSome,
    { r with exactly := (kind, codec) :: r.exactly.filter fun entry => entry.1 ≠ kind })

-- Sets the codec of last resort, and tells whether there was one.
def registerFallback (r : Registry) (codec : Codec) : Bool × Registry :=
  (r.fallback.isSome, { r with fallback := some codec })

-- The codec for a type. Scalars and arrays are fixed; what is registered for exactly this type
-- comes before what its shape allows, and the fallback comes last.
def resolve (r : Registry) (kind : Kind) : Except CodecError Codec :=
  match kind with
  | .scalar s => .ok (.scalar s)
  | kind =>
    if kind.shape = .array then .ok .array
    else
      match r.exactly.lookup kind with
      | some codec => .ok codec
      | none =>
        match kind.shape, r.fallback with
        | .sequence, _ => .ok .sequence
        | .mapping, _ => .ok .map
        | _, some codec => .ok codec
        | _, none => .error (.unresolved kind)

-- The codec for a datum that may be absent.
def resolveDatum (r : Registry) : Option Datum → Except CodecError Codec
  | some x => r.resolve x.kind
  | none => .ok .null

-- The codec that reads the payload of an element.
def resolveTag (r : Registry) : Tag → Except CodecError Codec
  | .double => r.resolve (.scalar .double)
  | .string => r.resolve (.scalar .string)
  | .document => r.resolve .document
  | .array => r.resolve (.list .value)
  | .binary => r.resolve (.scalar .binary)
  | .objectId => r.resolve (.scalar .objectId)
  | .boolean => r.resolve (.scalar .boolean)
  | .dateTime => r.resolve (.scalar .dateTime)
  | .null => .ok .null
  | .int32 => r.resolve (.scalar .int32)
  | .int64 => r.resolve (.scalar .int64)

end Registry

end DocWire
