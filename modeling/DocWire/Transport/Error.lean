import DocWire.Server.Address

namespace DocWire

-- The kinds of trouble that a byte stream tells apart.
inductive IoKind where
  | interrupted
  | brokenPipe
  | connectionReset
  | wouldBlock
  | timedOut
  | unexpectedEof
  | other
deriving DecidableEq

def IoKind.name : IoKind → String
  | .interrupted => "Interrupted"
  | .brokenPipe => "BrokenPipe"
  | .connectionReset => "ConnectionReset"
  | .wouldBlock => "WouldBlock"
  | .timedOut => "TimedOut"
  | .unexpectedEof => "UnexpectedEof"
  | .other => "Other"

-- Trouble with a byte stream: it ends too early, takes no more bytes, holds no text, or fails in
-- its own way.
inductive IoError where
  | shortRead
  | shortWrite
  | notText
  | device (kind : IoKind) (text : String)
deriving DecidableEq

namespace IoError

def message : IoError → String
  | .shortRead => "failed to fill whole buffer"
  | .shortWrite => "failed to write whole buffer"
  | .notText => "stream did not contain valid UTF-8"
  | .device _ text => text

-- The text with the kind of trouble in front; one that the device described shows it as its own.
def detail : IoError → String
  | .shortRead => plain "UnexpectedEof" IoError.shortRead.message
  | .shortWrite => plain "WriteZero" IoError.shortWrite.message
  | .notText => plain "InvalidData" IoError.notText.message
  | .device kind text =>
    "Custom \x7b kind: " ++ kind.name ++ ", error: \"" ++ text ++ "\" \x7d"
where
  plain (kind text : String) : String :=
    "Error \x7b kind: " ++ kind ++ ", message: \"" ++ text ++ "\" \x7d"

def isInterruption : IoError → Bool
  | .device .interrupted _ => true
  | _ => false

end IoError

-- Why a message could not be moved.
inductive TransportError where
  | lengthUnread (cause : IoError)
  | io (cause : IoError)
  | closed (address : ServerAddress)
  | oversizedReply (size max : Nat)
  | invalidLength (length : Int32)
deriving DecidableEq

def TransportError.message : TransportError → String
  | .lengthUnread cause =>
    "failed to decode message length: Io \x7b inner: " ++ cause.detail ++ ", additional: 4 \x7d"
  | .io cause => "Transport IO Error: " ++ cause.message
  | .closed address => "connection to " ++ address.render ++ " is closed"
  | .oversizedReply size max =>
    "reply of " ++ toString size ++ " bytes exceeds the " ++ toString max ++ " byte limit"
  | .invalidLength length =>
    "reply declares an invalid length of " ++ toString length ++ " bytes"

end DocWire
