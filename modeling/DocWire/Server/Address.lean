import DocWire.Server.Routing
import DocWire.Text.Blank
import DocWire.Text.Decimal

namespace DocWire

structure ServerAddress where
  host : String
  port : UInt16
deriving DecidableEq

namespace ServerAddress

def defaultPort : UInt16 := 27017

def render (a : ServerAddress) : String :=
  a.host ++ ":" ++ toString a.port.toNat

-- The order by host, then by port.
def precedes (a b : ServerAddress) : Bool :=
  a.host < b.host || (a.host = b.host && a.port ≤ b.port)

def sort (addresses : List ServerAddress) : List ServerAddress :=
  addresses.mergeSort precedes

-- What stands behind the last colon is the port, so that a host may hold colons itself; without
-- any colon the port is the default.
def parseTrimmed (text : List Char) : Option ServerAddress :=
  match Text.splitLast ':' text with
  | some ([], _) => none
  | some (host, port) =>
    (Text.unsigned 65536 port).map fun n => ⟨String.ofList host, UInt16.ofNat n⟩
  | none => if text.isEmpty then none else some ⟨String.ofList text, defaultPort⟩

-- Reads an address, whatever blanks stand around it.
def parse (text : String) : Except SelectionError ServerAddress :=
  let trimmed := Text.trim text.toList
  match parseTrimmed trimmed with
  | some address => .ok address
  | none => .error (.invalidAddress (String.ofList trimmed))

end ServerAddress

end DocWire
