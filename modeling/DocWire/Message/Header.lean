import DocWire.Bytes.Word

namespace DocWire

-- What a message is for.
inductive OpCode where
  | reply
  | query
deriving DecidableEq

namespace OpCode

def code : OpCode → Int32
  | .reply => 1
  | .query => 2004

def all : List OpCode := [.reply, .query]

def ofCode? (code : Int32) : Option OpCode :=
  all.find? fun op => op.code = code

def name : OpCode → String
  | .reply => "Reply"
  | .query => "Query"

end OpCode

-- The four words in front of every message.
structure MessageHeader where
  length : Int32
  requestId : Int32
  responseTo : Int32
  opCode : Int32
deriving DecidableEq

namespace MessageHeader

def size : Nat := 16

def toBytes (h : MessageHeader) : ByteArray :=
  Word.int32 h.length ++ Word.int32 h.requestId ++ Word.int32 h.responseTo ++ Word.int32 h.opCode

-- The word that stands at an offset.
def wordAt (bytes : ByteArray) (offset : Nat) : Int32 :=
  Word.toInt32 (bytes.extract offset (offset + 4))

def ofBytes? (bytes : ByteArray) : Option MessageHeader :=
  if bytes.size < size then none
  else some ⟨wordAt bytes 0, wordAt bytes 4, wordAt bytes 8, wordAt bytes 12⟩

end MessageHeader

end DocWire
