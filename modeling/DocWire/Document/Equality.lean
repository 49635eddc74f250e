import DocWire.Document.Basic

namespace DocWire

mutual

-- Equality of contents: numbers compare as numbers, arrays item by item, and documents by the
-- values under each name, whatever the order of the fields.
def Value.equals : Value → Value → Bool
  | .double a, .double b => a.equals b
  | .string a, .string b => a = b
  | .document a, .document b => a.equals b
  | .array as, .array bs => itemsEqual as bs
  | .binary a, .binary b => a = b
  | .objectId a, .objectId b => a = b
  | .boolean a, .boolean b => a = b
  | .dateTime a, .dateTime b => a = b
  | .null, .null => true
  | .int32 a, .int32 b => a = b
  | .int64 a, .int64 b => a = b
  | _, _ => false
termination_by structural a => a

-- As many fields, and every field on the left has its equal on the right.
def Document.equals : Document → Document → Bool
  | ⟨fields⟩, other => fields.length = other.size && fieldsFound fields other
termination_by structural a => a

def itemsEqual : List Value → List Value → Bool
  | [], [] => true
  | a :: as, b :: bs => a.equals b && itemsEqual as bs
  | _, _ => false
termination_by structural as => as

def fieldsFound : List (String × Value) → Document → Bool
  | [], _ => true
  | (key, value) :: rest, other =>
    (match other.get? key with
      | some found => value.equals found
      | none => false) && fieldsFound rest other
termination_by structural fields => fields

end

end DocWire
