import DocWire.Connection.Lease
import DocWire.Session.Basic
import DocWire.Shell.Options
import DocWire.Shell.Prompt
import DocWire.Transport.Stream
import Std.Async.DNS
import Std.Async.TCP

namespace DocWire

-- The outcome of an effect, with what the system reports in place of an exception.
def attempting {α : Type} (x : IO α) : IO (Except IoError α) := do
  try
    return .ok (← x)
  catch e =>
    return .error (.device .other e.toString)

structure SocketConnection where
  address : ServerAddress
  socket : Std.Async.TCP.Socket.Client
  isOpen : Bool

namespace SocketConnection

-- Receives until `count` more bytes have come.
partial def receiveExactly (socket : Std.Async.TCP.Socket.Client) (count : Nat)
    (bytes : ByteArray) : IO (Except IoError ByteArray) := do
  if count = 0 then return .ok bytes
  else
    match ← attempting (socket.recv? count.toUInt64).block with
    | .error e => return .error e
    | .ok none => return .error .shortRead
    | .ok (some more) => receiveExactly socket (count - more.size) (bytes ++ more)

def receiveMessage (socket : Std.Async.TCP.Socket.Client) (limit : Nat) :
    IO (Except TransportError ByteArray) := do
  match ← receiveExactly socket 4 ByteArray.empty with
  | .error e => return .error (.lengthUnread e)
  | .ok word =>
    match messageSize limit (Word.toInt32 word) with
    | .error e => return .error e
    | .ok size => return (← receiveExactly socket (size - 4) word).mapError .io

def sendMessage (socket : Std.Async.TCP.Socket.Client) (bytes : ByteArray) :
    IO (Except TransportError Unit) :=
  return (← attempting (socket.send bytes).block).mapError .io

-- Uses an open connection, which a failure closes.
def guarded {α : Type} (use : Std.Async.TCP.Socket.Client → IO (Except TransportError α)) :
    StateT SocketConnection IO (Except TransportError α) := fun c => do
  if c.isOpen then
    match ← use c.socket with
    | .ok a => return (.ok a, c)
    | .error e => return (.error e, { c with isOpen := false })
  else return (.error (.closed c.address), c)

def close : StateT SocketConnection IO Unit := fun c => do
  if c.isOpen then
    let _ ← attempting c.socket.shutdown.block
  return ((), { c with isOpen := false })

def channel : Channel IO SocketConnection where
  address c := c.address
  isOpen c := c.isOpen
  send bytes := guarded fun socket => sendMessage socket bytes
  receive limit := guarded fun socket => receiveMessage socket limit
  close := close
  invalidate := close
  now := return ⟨← IO.monoNanosNow⟩

def endpoint (ip : Std.Net.IPAddr) (port : UInt16) : Std.Net.SocketAddress :=
  match ip with
  | .v4 a => .v4 ⟨a, port⟩
  | .v6 a => .v6 ⟨a, port⟩

-- Connects to the first of some endpoints that answers.
def connectFirst (address : ServerAddress) :
    List Std.Net.IPAddr → IO Std.Async.TCP.Socket.Client
  | [] => throw (IO.userError ("could not resolve " ++ address.render))
  | [ip] => dial ip
  | ip :: rest => do
    try
      dial ip
    catch _ =>
      connectFirst address rest
where
  dial (ip : Std.Net.IPAddr) : IO Std.Async.TCP.Socket.Client := do
    let socket ← Std.Async.TCP.Socket.Client.mk
    (socket.connect (endpoint ip address.port)).block
    socket.noDelay
    return socket

def connect (address : ServerAddress) : IO (Except TransportError SocketConnection) := do
  let socket ← attempting do
    let ips ← (Std.Async.DNS.getAddrInfo address.host (toString address.port.toNat)).block
    connectFirst address ips.toList
  return (socket.mapError .io).map fun socket => ⟨address, socket, true⟩

def connector : Connector IO SocketConnection := ⟨channel, connect⟩

end SocketConnection

namespace Shell

abbrev Action := Session.Action (PoolDirectory.Action IO SocketConnection)

partial def readLine (input : IO.FS.Stream) (line : ByteArray) : IO ByteArray := do
  let byte ← input.read 1
  if byte.isEmpty then return line
  else if byte = [10].toByteArray then return line ++ byte
  else readLine input (line ++ byte)

def terminal (input output : IO.FS.Stream) : Terminal IO where
  put bytes := attempting do
    output.write bytes
    output.flush
  line := readLine input ByteArray.empty

-- Runs a command and tells what came of it.
def answer (command : ShellCommand) (database : String) (d : Document) : Action Unit := do
  let (routing, preference) := command.routing
  let source := PoolDirectory.source SocketConnection.connector
  match ← Session.executeCommand source database d routing preference with
  | .ok result => IO.println result.render
  | .error (.commandFailure result) =>
    IO.eprintln ("command failed: " ++ result.response.render)
  | .error e => IO.eprintln ("error: " ++ e.message Kind.name)

def showPools : Action Unit := do
  let d ← (get : PoolDirectory.Action IO SocketConnection (PoolDirectory SocketConnection))
  for s in d.stats do
    IO.println s.render

-- Serves commands until one is to leave.
partial def serve (t : Terminal IO) : Action Unit := do
  match ← (t.prompt : IO (Except ShellError ShellCommand)) with
  | .error e =>
    IO.eprintln ("error: " ++ e.message)
    serve t
  | .ok .exit => return ()
  | .ok .poolStats =>
    showPools
    serve t
  | .ok command =>
    match command.request? with
    | some (database, d) => answer command database d
    | none => return ()
    serve t

def run (o : ShellOptions) : IO Unit := do
  let t := terminal (← IO.getStdin) (← IO.getStdout)
  let play : PoolDirectory.Action IO SocketConnection Unit := do
    let _ ← (serve t).run ⟨.standard, o.cluster, .first⟩
    PoolDirectory.close SocketConnection.connector
  let _ ← play.run (.ofConfig o.poolConfig)

end Shell

end DocWire

def main (args : List String) : IO UInt32 := do
  match DocWire.ShellOptions.parse args with
  | .error e =>
    IO.eprintln ("error: " ++ e.message)
    IO.eprintln DocWire.ShellOptions.usage
    return 2
  | .ok options =>
    DocWire.Shell.run options
    return 0
