import DocWire.Codec.Decode
import DocWire.Message.Reply
import DocWire.Message.Request
import DocWire.Transport.Channel

namespace DocWire

-- One request and its reply on a connection. The request is sent once; whether to try again is for
-- the caller to say.
structure Exchange where
  message : RequestMessage
  registry : Registry
  decoder : Decoder Document
  closeAfterwards : Bool

-- After these errors the connection stands between two messages. After all others it may hold
-- unread bytes, or the reply to another request.
def CommandError.leavesInStep : CommandError → Bool
  | .queryFailure _ => true
  | .emptyReply => true
  | _ => false

namespace Exchange

variable {m : Type → Type} [Monad m] {κ : Type}

-- The bytes of the request, or why there are none.
def request (x : Exchange) : Except CommandError ByteArray :=
  match x.message.encode x.registry ByteArray.empty with
  | .ok _ bytes => .ok bytes
  | .error e _ => .error e

def replySettings (x : Exchange) : ReplySettings :=
  ⟨x.message.id, x.message.settings.maxMessageSize⟩

-- The result document in the bytes of a reply.
def readReply (x : Exchange) (bytes : ByteArray) : Except CommandError Document :=
  match ReplyMessage.decode x.decoder x.replySettings bytes with
  | .error e => .error e
  | .ok reply =>
    match reply.first? with
    | some d => .ok d
    | none => .error .emptyReply

-- Sends the request and reads its reply.
def converse (x : Exchange) (channel : Channel m κ) (bytes : ByteArray) :
    StateT κ m (Except CommandError Document) := do
  match ← channel.send bytes with
  | .error e => return .error (.transport e)
  | .ok () =>
    match ← channel.receive x.replySettings.maxMessageSize with
    | .error e => return .error (.transport e)
    | .ok reply => return x.readReply reply

-- Gives up the connection when it is out of step after an error.
def settle (channel : Channel m κ) : Except CommandError Document → StateT κ m Unit
  | .ok _ => return ()
  | .error e => if e.leavesInStep then return () else channel.invalidate

-- A request that cannot be written never touches the connection.
def roundTrip (x : Exchange) (channel : Channel m κ) :
    StateT κ m (Except CommandError Document) := do
  match x.request with
  | .error e => return .error e
  | .ok bytes =>
    let response ← x.converse channel bytes
    settle channel response
    return response

-- The result of a response, which is a failure unless the server reports success.
def judge (result : CommandResult) : Except CommandError CommandResult :=
  if result.isOk then .ok result else .error (.commandFailure result)

-- Runs the command, and in the end closes the connection if asked to, whatever came of it.
def execute (x : Exchange) (channel : Channel m κ) :
    StateT κ m (Except CommandError CommandResult) := do
  let started ← channel.now
  let server := channel.address (← get)
  let response ← x.roundTrip channel
  if x.closeAfterwards then channel.close
  match response with
  | .error e => return .error e
  | .ok d =>
    let ended ← channel.now
    return judge ⟨x.message.command, server, d, ⟨ended.nanoseconds - started.nanoseconds⟩⟩

end Exchange

end DocWire
