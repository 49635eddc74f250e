import DocWire.Document.Basic
import DocWire.Number.Shortest
import DocWire.Text.Hex

namespace DocWire

def ObjectId.render (id : ObjectId) : String :=
  Text.hexBytes id.bytes.toList

mutual

-- The text of a value in messages for people; strings stand in quotes as they are.
def Value.render : Value → String
  | .double d => d.render
  | .string s => "\"" ++ s ++ "\""
  | .document d => d.render
  | .array items => "[" ++ renderItems items ++ "]"
  | .binary b => "Binary(" ++ toString b.subtype ++ ", " ++ toString b.bytes.size ++ " bytes)"
  | .objectId id => "ObjectId(\"" ++ id.render ++ "\")"
  | .boolean b => if b then "true" else "false"
  | .dateTime t => "Date(" ++ toString t.milliseconds ++ ")"
  | .null => "null"
  | .int32 n => toString n
  | .int64 n => "NumberLong(" ++ toString n ++ ")"
termination_by structural v => v

-- Fields are set off by blanks inside the braces; an empty document has none.
def Document.render : Document → String
  | ⟨fields⟩ => "\x7b" ++ renderFields fields ++ (if fields.isEmpty then "\x7d" else " \x7d")
termination_by structural d => d

def renderItems : List Value → String
  | [] => ""
  | [item] => item.render
  | item :: rest => item.render ++ ", " ++ renderItems rest
termination_by structural items => items

def renderFields : List (String × Value) → String
  | [] => ""
  | [(key, value)] => " \"" ++ key ++ "\": " ++ value.render
  | (key, value) :: rest => " \"" ++ key ++ "\": " ++ value.render ++ "," ++ renderFields rest
termination_by structural fields => fields

end

end DocWire
