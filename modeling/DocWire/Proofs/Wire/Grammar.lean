import DocWire.Element.Reader
import DocWire.Element.Writer
import DocWire.Proofs.Document.Fields

namespace DocWire.Wire

-- A body between the size of the whole and the zero byte that ends it.
def framed (size : Int32) (body : ByteArray) : ByteArray :=
  Word.int32 size ++ body ++ [0].toByteArray

-- A name is told apart from what follows it by a zero byte.
def terminated (name : String) : ByteArray :=
  name.toUTF8 ++ [0].toByteArray

-- What stands in front of the payload of an element: its tag and its name.
def announced (tag : Tag) (name : String) : ByteArray :=
  [tag.code].toByteArray ++ terminated name

mutual

-- The bytes that stand for a value under the tag of its kind, where documents and arrays may still
-- nest `levels` deep. The size in front of a document counts all of its bytes, that in front of a
-- string counts its terminator, and that in front of opaque bytes counts neither itself nor the
-- subtype.
inductive Payload : Nat → Tag → ByteArray → Value → Prop where
  | double {levels : Nat} (d : Double) : Payload levels .double (Word.uint64 d.bits) (.double d)
  | string {levels : Nat} (s : String) (size : Int32) (hsize : size.toInt = s.toUTF8.size + 1) :
      Payload levels .string (Word.int32 size ++ terminated s) (.string s)
  | document {levels : Nat} {body : ByteArray} {fields : List (String × Value)} (size : Int32)
      (hsize : size.toInt = body.size + 5) (hbody : Fields levels body fields) :
      Payload (levels + 1) .document (framed size body) (.document (.denoted fields))
  | array {levels : Nat} {body : ByteArray} {fields : List (String × Value)} (size : Int32)
      (hsize : size.toInt = body.size + 5) (hbody : Fields levels body fields) :
      Payload (levels + 1) .array (framed size body) (.array (fields.map (·.2)))
  | binary {levels : Nat} (b : Binary) (size : Int32) (hsize : size.toInt = b.bytes.size) :
      Payload levels .binary (Word.int32 size ++ ([b.subtype].toByteArray ++ b.bytes)) (.binary b)
  | objectId {levels : Nat} (id : ObjectId) : Payload levels .objectId id.toBytes (.objectId id)
  | boolean {levels : Nat} (b : Bool) :
      Payload levels .boolean [if b then 1 else 0].toByteArray (.boolean b)
  | dateTime {levels : Nat} (t : DateTime) :
      Payload levels .dateTime (Word.int64 t.milliseconds) (.dateTime t)
  | null {levels : Nat} : Payload levels .null ByteArray.empty .null
  | int32 {levels : Nat} (n : Int32) : Payload levels .int32 (Word.int32 n) (.int32 n)
  | int64 {levels : Nat} (n : Int64) : Payload levels .int64 (Word.int64 n) (.int64 n)

-- Elements one after the other: each is announced and followed by the payload of its tag.
inductive Fields : Nat → ByteArray → List (String × Value) → Prop where
  | nil {levels : Nat} : Fields levels ByteArray.empty []
  | cons {levels : Nat} {tag : Tag} {name : String} {payload rest : ByteArray} {v : Value}
      {fields : List (String × Value)} (hname : Writer.hasZeroByte name = false)
      (hpayload : Payload levels tag payload v) (hrest : Fields levels rest fields) :
      Fields levels (announced tag name ++ (payload ++ rest)) ((name, v) :: fields)

end

-- The bytes of a document that stands alone.
def IsDocument (text : ByteArray) (d : Document) : Prop :=
  Payload maxNesting .document text (.document d)

@[simp] theorem size_framed (size : Int32) (body : ByteArray) :
    (framed size body).size = body.size + 5 := by
  simp only [framed, ByteArray.size_append, Word.size_int32, List.size_toByteArray,
    List.length_singleton]
  omega

@[simp] theorem size_terminated (name : String) :
    (terminated name).size = name.toUTF8.size + 1 := by
  simp [terminated]

@[simp] theorem size_announced (tag : Tag) (name : String) :
    (announced tag name).size = name.toUTF8.size + 2 := by
  simp only [announced, ByteArray.size_append, List.size_toByteArray, List.length_singleton,
    size_terminated]
  omega

end DocWire.Wire
