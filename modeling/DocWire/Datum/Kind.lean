namespace DocWire

-- How a type can be taken apart.
inductive Shape where
  | scalar
  | array
  | sequence
  | mapping
  | object
deriving DecidableEq, Inhabited

def Shape.name : Shape → String
  | .scalar => "Scalar"
  | .array => "Array"
  | .sequence => "Sequence"
  | .mapping => "Mapping"
  | .object => "Object"

-- The types that fill exactly one element. A literal is text that was written into the program.
inductive Scalar where
  | int32
  | int64
  | double
  | boolean
  | string
  | literal
  | binary
  | objectId
  | dateTime
deriving DecidableEq, Inhabited

def Scalar.name : Scalar → String
  | .int32 => "Int32"
  | .int64 => "Int64"
  | .double => "Double"
  | .boolean => "Boolean"
  | .string => "String"
  | .literal => "Literal"
  | .binary => "Binary"
  | .objectId => "ObjectId"
  | .dateTime => "DateTime"

-- The type of a datum. Two types are the same only if they are built in the same way, so a list
-- and a queue of the same elements differ. `named` is a type that a caller brings along.
inductive Kind where
  | scalar (s : Scalar)
  | value
  | document
  | array (element : Kind) (size : Nat)
  | list (element : Kind)
  | queue (element : Kind)
  | sortedMap (element : Kind)
  | hashedMap (element : Kind)
  | named (name : String) (shape : Shape)
deriving DecidableEq, Inhabited

-- A name for a type that shows how it is built.
def Kind.name : Kind → String
  | .scalar s => s.name
  | .value => "Value"
  | .document => "Document"
  | .array element size => "Array " ++ toString size ++ " (" ++ element.name ++ ")"
  | .list element => "List (" ++ element.name ++ ")"
  | .queue element => "Queue (" ++ element.name ++ ")"
  | .sortedMap element => "SortedMap (" ++ element.name ++ ")"
  | .hashedMap element => "HashedMap (" ++ element.name ++ ")"
  | .named name _ => name

def Kind.shape : Kind → Shape
  | .scalar _ => .scalar
  | .value => .object
  | .document => .mapping
  | .array _ _ => .array
  | .list _ => .sequence
  | .queue _ => .sequence
  | .sortedMap _ => .mapping
  | .hashedMap _ => .mapping
  | .named _ shape => shape

end DocWire
