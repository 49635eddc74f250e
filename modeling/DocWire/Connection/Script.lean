import DocWire.Connection.Source
import DocWire.Message.Header

namespace DocWire

-- What happens to scripted connections, each of which goes by its number.
inductive ScriptEvent where
  | refused (address : ServerAddress)
  | opened (number : Nat) (address : ServerAddress)
  | sent (number : Nat) (bytes : ByteArray)
  | sendFailed (number : Nat)
  | sendClosed (number : Nat)
  | received (number limit : Nat)
  | receiveClosed (number : Nat)
  | closed (number : Nat)
deriving DecidableEq

-- What connections meet with, in order: the fate of what is sent, and the reply to what was
-- asked, given the number of the last request. Both end in an error at times.
structure Script where
  sends : List (Option (ServerAddress → TransportError))
  replies : List (Int32 → ServerAddress → Except TransportError ByteArray)
  refuses : List String
  opened : Nat
  lastRequest : Int32
  events : List ScriptEvent

structure ScriptedConnection where
  number : Nat
  address : ServerAddress
  isOpen : Bool
deriving DecidableEq

namespace Script

abbrev Action := StateM Script

-- The trouble that a script makes.
def fault (kind : IoKind) : IoError := .device kind "scripted fault"

def record (event : ScriptEvent) : Action Unit :=
  modify fun s => { s with events := s.events ++ [event] }

-- Takes the events that were not taken before.
def takeEvents : Action (List ScriptEvent) :=
  modifyGet fun s => (s.events, { s with events := [] })

def nextSend : Action (Option (ServerAddress → TransportError)) :=
  modifyGet fun s => (s.sends.head?.join, { s with sends := s.sends.drop 1 })

-- The next reply; when there is none left, receiving fails.
def nextReply (address : ServerAddress) : Action (Except TransportError ByteArray) :=
  modifyGet fun s =>
    (match s.replies with
      | reply :: _ => reply s.lastRequest address
      | [] => .error (.io (fault .other)), { s with replies := s.replies.drop 1 })

-- Remembers the number of a request; what is too short for a header has none.
def remember (bytes : ByteArray) : Action Unit :=
  match MessageHeader.ofBytes? bytes with
  | some h => modify fun s => { s with lastRequest := h.requestId }
  | none => return ()

def send (bytes : ByteArray) (c : ScriptedConnection) : Action (Except TransportError Unit) := do
  if c.isOpen then
    match ← nextSend with
    | some failure =>
      record (.sendFailed c.number)
      return .error (failure c.address)
    | none =>
      record (.sent c.number bytes)
      remember bytes
      return .ok ()
  else
    record (.sendClosed c.number)
    return .error (.closed c.address)

def receive (limit : Nat) (c : ScriptedConnection) :
    Action (Except TransportError ByteArray) := do
  if c.isOpen then
    record (.received c.number limit)
    nextReply c.address
  else
    record (.receiveClosed c.number)
    return .error (.closed c.address)

-- Closing a closed connection is an event too.
def close (c : ScriptedConnection) : Action ScriptedConnection := do
  record (.closed c.number)
  return { c with isOpen := false }

def connect (address : ServerAddress) : Action (Except TransportError ScriptedConnection) := do
  let s ← get
  if s.refuses.contains address.render then
    record (.refused address)
    return .error (.io (fault .other))
  else
    set { s with opened := s.opened + 1 }
    record (.opened s.opened address)
    return .ok ⟨s.opened, address, true⟩

def channel : Channel Action ScriptedConnection where
  address c := c.address
  isOpen c := c.isOpen
  send bytes c := return (← send bytes c, c)
  receive limit c := return (← receive limit c, c)
  close c := return ((), ← close c)
  invalidate c := return ((), ← close c)
  now := return ⟨0⟩

def connector : Connector Action ScriptedConnection := ⟨channel, connect⟩

end Script

end DocWire
