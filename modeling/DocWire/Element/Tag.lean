namespace DocWire

-- The payloads an element can carry.
inductive Tag where
  | double
  | string
  | document
  | array
  | binary
  | objectId
  | boolean
  | dateTime
  | null
  | int32
  | int64
deriving DecidableEq

namespace Tag

-- The byte that stands in front of an element.
def code : Tag → UInt8
  | .double => 0x01
  | .string => 0x02
  | .document => 0x03
  | .array => 0x04
  | .binary => 0x05
  | .objectId => 0x07
  | .boolean => 0x08
  | .dateTime => 0x09
  | .null => 0x0A
  | .int32 => 0x10
  | .int64 => 0x12

def all : List Tag :=
  [.double, .string, .document, .array, .binary, .objectId, .boolean, .dateTime, .null, .int32,
    .int64]

def ofCode? (code : UInt8) : Option Tag :=
  all.find? fun t => t.code = code

@[simp] theorem ofCode?_code (t : Tag) : ofCode? t.code = some t := by
  cases t <;> decide

-- No two bytes stand for the same payload.
theorem code_of_ofCode? {code : UInt8} {t : Tag} (h : ofCode? code = some t) : t.code = code := by
  simpa using List.find?_some h

theorem code_ne_zero (t : Tag) : t.code ≠ 0 := by
  cases t <;> decide

def name : Tag → String
  | .double => "Double"
  | .string => "String"
  | .document => "Document"
  | .array => "Array"
  | .binary => "Binary"
  | .objectId => "ObjectId"
  | .boolean => "Boolean"
  | .dateTime => "DateTime"
  | .null => "Null"
  | .int32 => "Int32"
  | .int64 => "Int64"

end Tag

end DocWire
