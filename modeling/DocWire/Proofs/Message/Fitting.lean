import DocWire.Proofs.Message.Query

namespace DocWire

open Outcome Wire

namespace RequestMessage

-- What stands in front of the document of a request as long as the length is not known.
def lead (r : RequestMessage) : ByteArray :=
  r.header.toBytes ++
    (Word.int32 0 ++ (terminated r.space ++ (Word.int32 0 ++ Word.int32 (-1))))

-- A request whose document is written as `text` and is neither too large a document nor too large a
-- message. How it is written may depend on where it is to stand.
structure Fits (r : RequestMessage) (registry : Registry) (settings : MessageSettings)
    (text : ByteArray) : Prop where
  clean : Char.ofNat 0 ∉ r.space.toList
  written : (r.writeDocument registry).runOn r.lead = (.ok (), r.lead ++ text)
  document : text.size ≤ settings.maxDocumentSize
  message : Query.size r.space text.size ≤ settings.maxMessageSize
  word : Query.size r.space text.size ≤ Word.maxLength

-- The bytes of a request with this document.
def framed (r : RequestMessage) (text : ByteArray) : ByteArray :=
  (MessageHeader.mk (Int32.ofNat (Query.size r.space text.size)) r.id 0
    OpCode.query.code).toBytes ++ Query.body r.space text

variable {r : RequestMessage} {registry : Registry}

end RequestMessage

end DocWire
