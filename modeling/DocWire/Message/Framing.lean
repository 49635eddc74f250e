import DocWire.Command.Error
import DocWire.Element.Writing
import DocWire.Message.Header

namespace DocWire

-- Appends to a buffer that may hold other messages already.
abbrev Framing := EStateM CommandError ByteArray

namespace Framing

-- Takes back what was appended if the whole fails.
def atomically {α : Type} (x : Framing α) : Framing α := fun buffer =>
  match x buffer with
  | .ok a appended => .ok a appended
  | .error e appended => .error e (appended.extract 0 buffer.size)

def append (bytes : ByteArray) : Framing Unit :=
  modify fun buffer => buffer ++ bytes

-- Appends what a fresh writer writes.
def write (x : Writing Unit) : Framing Unit := fun buffer =>
  match x.runOn buffer with
  | (.ok (), written) => .ok () written
  | (.error e, written) => .error (.codec e) written

-- Appends a message that begins with `header`, and puts its length there once it is known.
-- `limit` is the size that it must not exceed, and a length must fit its word in any case.
def message (header : MessageHeader) (limit : Nat) (body : Framing Unit) : Framing Unit :=
  atomically do
    let start := (← get).size
    append header.toBytes
    body
    let length := (← get).size - start
    if limit < length ∨ Word.maxLength < length then
      throw (.oversizedMessage length limit)
    else
      modify fun buffer => Writer.patch buffer start (Word.int32 (Int32.ofNat length))

end Framing

end DocWire
