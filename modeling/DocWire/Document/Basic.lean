import DocWire.Number.Double

namespace DocWire

-- Bytes are told apart by their contents.
instance decidableEqBytes : DecidableEq ByteArray := ByteArray.instDecidableEq

-- Opaque bytes with the byte that says what they are for.
structure Binary where
  subtype : UInt8
  bytes : ByteArray
deriving DecidableEq, Inhabited

structure ObjectId where
  bytes : Vector UInt8 12
deriving DecidableEq

namespace ObjectId

-- The first twelve bytes, with zeros for those that are missing.
def ofBytes (bytes : ByteArray) : ObjectId :=
  ⟨Vector.ofFn fun i => bytes.data.toList.getD i 0⟩

def toBytes (id : ObjectId) : ByteArray :=
  ⟨id.bytes.toArray⟩

@[simp] theorem size_toBytes (id : ObjectId) : id.toBytes.size = 12 :=
  id.bytes.size_toArray

@[simp] theorem ofBytes_toBytes (id : ObjectId) : ofBytes id.toBytes = id := by
  obtain ⟨bytes⟩ := id
  simp only [ofBytes, toBytes, mk.injEq]
  ext i hi
  simp [List.getD_eq_getElem?_getD]

end ObjectId

-- Milliseconds since the start of 1970.
structure DateTime where
  milliseconds : Int64
deriving DecidableEq, Inhabited

mutual

-- What a field can hold.
inductive Value where
  | double (d : Double)
  | string (s : String)
  | document (d : Document)
  | array (items : List Value)
  | binary (b : Binary)
  | objectId (id : ObjectId)
  | boolean (b : Bool)
  | dateTime (t : DateTime)
  | null
  | int32 (n : Int32)
  | int64 (n : Int64)

-- Named values in the order in which they are written.
structure Document where
  fields : List (String × Value)

end

instance : Inhabited Value := ⟨.null⟩

instance : Inhabited Document := ⟨⟨[]⟩⟩

namespace Document

def empty : Document := ⟨[]⟩

def size (d : Document) : Nat :=
  d.fields.length

def isEmpty (d : Document) : Bool :=
  d.fields.isEmpty

def keys (d : Document) : List String :=
  d.fields.map (·.1)

def firstKey? (d : Document) : Option String :=
  d.fields.head?.map (·.1)

def get? (d : Document) (key : String) : Option Value :=
  d.fields.lookup key

def contains (d : Document) (key : String) : Bool :=
  (d.get? key).isSome

def getDocument? (d : Document) (key : String) : Option Document :=
  match d.get? key with
  | some (.document inner) => some inner
  | _ => none

def getString? (d : Document) (key : String) : Option String :=
  match d.get? key with
  | some (.string s) => some s
  | _ => none

-- Puts a value in the place of the field of that name, or behind all fields.
def putField (key : String) (value : Value) : List (String × Value) → List (String × Value)
  | [] => [(key, value)]
  | (k, v) :: rest => if k = key then (key, value) :: rest else (k, v) :: putField key value rest

-- Leaves out the first field of that name.
def dropField (key : String) : List (String × Value) → List (String × Value)
  | [] => []
  | (k, v) :: rest => if k = key then rest else (k, v) :: dropField key rest

-- A field that is already there keeps its position and changes its value.
def insert (d : Document) (key : String) (value : Value) : Document :=
  ⟨putField key value d.fields⟩

def erase (d : Document) (key : String) : Document :=
  ⟨dropField key d.fields⟩

-- `putField`, with the value that had to make room.
def exchangeField (key : String) (value : Value) :
    List (String × Value) → Option Value × List (String × Value)
  | [] => (none, [(key, value)])
  | (k, v) :: rest =>
    if k = key then (some v, (key, value) :: rest)
    else
      let (old, fields) := exchangeField key value rest
      (old, (k, v) :: fields)

-- `dropField`, with the value that is taken out.
def takeField (key : String) : List (String × Value) → Option Value × List (String × Value)
  | [] => (none, [])
  | (k, v) :: rest =>
    if k = key then (some v, rest)
    else
      let (old, fields) := takeField key rest
      (old, (k, v) :: fields)

-- Puts a value under a name, and gives back the one that was there.
def replace (d : Document) (key : String) (value : Value) : Option Value × Document :=
  let (old, fields) := exchangeField key value d.fields
  (old, ⟨fields⟩)

-- Takes out the field of a name, and gives back its value.
def remove (d : Document) (key : String) : Option Value × Document :=
  let (old, fields) := takeField key d.fields
  (old, ⟨fields⟩)

def ofList (fields : List (String × Value)) : Document :=
  fields.foldl (fun d field => d.insert field.1 field.2) empty

end Document

end DocWire
