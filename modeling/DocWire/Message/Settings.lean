import DocWire.Server.Cluster

namespace DocWire

-- The limits a request must keep to, and the newest wire version that its server speaks, or zero.
structure MessageSettings where
  maxDocumentSize : Nat
  maxMessageSize : Nat
  maxWireVersion : Int32
deriving DecidableEq

namespace MessageSettings

def standard : MessageSettings := ⟨defaultMaxDocumentSize, defaultMaxMessageSize, 0⟩

-- The limits of the server a request is sent to.
def ofServer (s : ServerDescription) : MessageSettings :=
  ⟨s.maxDocumentSize, s.maxMessageSize, s.maxWireVersion⟩

end MessageSettings

-- What a reply must answer, and how large it may be.
structure ReplySettings where
  responseTo : Int32
  maxMessageSize : Nat
deriving DecidableEq

end DocWire
