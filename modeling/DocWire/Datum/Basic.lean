import DocWire.Datum.Kind
import DocWire.Document.Basic

namespace DocWire

-- A typed value on its way to the wire. One that is not a scalar, a `Value` or a `Document`
-- shows its elements, or its entries, or nothing of itself.
inductive Datum where
  | int32 (n : Int32)
  | int64 (n : Int64)
  | double (d : Double)
  | boolean (b : Bool)
  | string (s : String)
  | literal (s : String)
  | binary (b : Binary)
  | objectId (id : ObjectId)
  | dateTime (t : DateTime)
  | value (v : Value)
  | document (d : Document)
  | elements (kind : Kind) (items : List Datum)
  | entries (kind : Kind) (fields : List (String × Datum))
  | bare (kind : Kind)
deriving Inhabited

namespace Datum

def kind : Datum → Kind
  | .int32 _ => .scalar .int32
  | .int64 _ => .scalar .int64
  | .double _ => .scalar .double
  | .boolean _ => .scalar .boolean
  | .string _ => .scalar .string
  | .literal _ => .scalar .literal
  | .binary _ => .scalar .binary
  | .objectId _ => .scalar .objectId
  | .dateTime _ => .scalar .dateTime
  | .value _ => .value
  | .document _ => .document
  | .elements kind _ => kind
  | .entries kind _ => kind
  | .bare kind => kind

def elements? : Datum → Option (List Datum)
  | .elements _ items => some items
  | _ => none

def entries? : Datum → Option (List (String × Datum))
  | .entries _ fields => some fields
  | .document d => some (d.fields.map fun field => (field.1, .value field.2))
  | _ => none

-- Puts an entry at its place by name; of two with one name the later stays.
def insertSorted (key : String) (item : Datum) : List (String × Datum) → List (String × Datum)
  | [] => [(key, item)]
  | (k, other) :: rest =>
    if key < k then (key, item) :: (k, other) :: rest
    else if key = k then (key, item) :: rest
    else (k, other) :: insertSorted key item rest

-- A map that keeps its entries by name.
def sortedMap (element : Kind) (fields : List (String × Datum)) : Datum :=
  .entries (.sortedMap element)
    (fields.foldl (fun sorted field => insertSorted field.1 field.2 sorted) [])

end Datum

end DocWire
