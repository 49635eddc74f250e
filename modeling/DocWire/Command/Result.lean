import DocWire.Document.Display
import DocWire.Document.Equality
import DocWire.Document.Number
import DocWire.Number.Span
import DocWire.Server.Address

namespace DocWire

-- What a server answered to a command.
structure CommandResult where
  command : Document
  server : ServerAddress
  response : Document
  elapsed : Span

namespace CommandResult

-- A server reports success by an `ok` that is one, as a number or as a boolean.
def isOk (r : CommandResult) : Bool :=
  match (r.response.get? "ok").bind Value.asDouble? with
  | some d => d.equals Double.one
  | none => false

def errorMessage? (r : CommandResult) : Option String :=
  r.response.getString? "errmsg"

def errorCode? (r : CommandResult) : Option Int64 :=
  (r.response.get? "code").bind Value.asInt?

-- The response and how long it took.
def render (r : CommandResult) : String :=
  r.response.render ++ " (" ++ r.elapsed.render ++ ")"

-- The text that tells of a failure.
def failureMessage (r : CommandResult) : String :=
  "command failed on " ++ r.server.render ++ ": " ++ r.errorMessage?.getD "no error message"

end CommandResult

end DocWire
