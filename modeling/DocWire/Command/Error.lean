import DocWire.Codec.Error
import DocWire.Command.Result
import DocWire.Pool.Basic
import DocWire.Transport.Error

namespace DocWire

-- Why bytes are not the reply that they should be.
inductive ReplyFault where
  | shortHeader (size : Nat)
  | wrongLength (declared : Int32) (received : Nat)
  | shortFields
  | documentLength (length : Int32) (remaining : Nat)
  | documentCount (declared : Int32) (carried : Nat)
  | tooManyDocuments
  | notDocument (value : Value)

def ReplyFault.message : ReplyFault → String
  | .shortHeader size => toString size ++ " bytes is shorter than a message header"
  | .wrongLength declared received =>
    "header declares " ++ toString declared ++ " bytes but " ++ toString received ++
      " were received"
  | .shortFields => "reply is shorter than its fixed fields"
  | .documentLength length remaining =>
    "document length " ++ toString length ++ " is invalid with " ++ toString remaining ++
      " bytes remaining"
  | .documentCount declared carried =>
    "reply declares " ++ toString declared ++ " documents but carries " ++ toString carried
  | .tooManyDocuments => "too many documents for one reply"
  | .notDocument value => "findandmodify returned a non-document value: " ++ value.render

-- Why a command cannot be put into words.
inductive CommandFault where
  | emptyUpdate
  | notOperator (name : String)
deriving DecidableEq

def CommandFault.message : CommandFault → String
  | .emptyUpdate => "update document is empty"
  | .notOperator name => "update document must contain only operators, found '" ++ name ++ "'"

-- Why a pool of connections could not open one.
structure ConnectFault where
  address : ServerAddress
  cause : TransportError
deriving DecidableEq

def ConnectFault.message (fault : ConnectFault) : String :=
  "connecting to " ++ fault.address.render ++ ": " ++ fault.cause.message

-- Everything that can go wrong on the way from a command to its result.
inductive CommandError where
  | oversizedDocument (size max : Nat)
  | oversizedMessage (size max : Nat)
  | commandFailure (result : CommandResult)
  | queryFailure (document : Document)
  | responseMismatch (expected actual : Int32)
  | unexpectedOpCode (code : Int32)
  | invalidReply (fault : ReplyFault)
  | emptyReply
  | invalidNamespace (name : String)
  | invalidCommand (fault : CommandFault)
  | codec (e : CodecError)
  | selection (e : SelectionError)
  | pool (e : PoolError ConnectFault)
  | transport (e : TransportError)

def CommandError.message (naming : Kind → String) : CommandError → String
  | .oversizedDocument size max =>
    "document of " ++ toString size ++ " bytes exceeds the server limit of " ++ toString max ++
      " bytes"
  | .oversizedMessage size max =>
    "message of " ++ toString size ++ " bytes exceeds the server limit of " ++ toString max ++
      " bytes"
  | .commandFailure result => result.failureMessage
  | .queryFailure document => "query failed: " ++ document.render
  | .responseMismatch expected actual =>
    "reply answers request " ++ toString actual ++ ", expected " ++ toString expected
  | .unexpectedOpCode code => "unexpected op code " ++ toString code
  | .invalidReply fault => "invalid reply: " ++ fault.message
  | .emptyReply => "reply carried no documents"
  | .invalidNamespace name => "invalid namespace '" ++ name ++ "'"
  | .invalidCommand fault => "invalid command: " ++ fault.message
  | .codec e => e.message naming
  | .selection e => e.message
  | .pool e => e.message ConnectFault.message
  | .transport e => e.message

end DocWire
