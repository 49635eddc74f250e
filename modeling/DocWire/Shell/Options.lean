import DocWire.Pool.Basic
import DocWire.Server.Cluster

namespace DocWire

-- What a shell is started with: the server to talk to, how many connections to it there may be,
-- and how many milliseconds a command waits for one.
structure ShellOptions where
  address : ServerAddress
  poolSize : Nat
  maxWait : Option Nat
deriving DecidableEq

inductive OptionError where
  | unexpected (word : String)
  | missing (option : String)
  | invalid (option value : String)
deriving DecidableEq

def OptionError.message : OptionError → String
  | .unexpected word => "unexpected argument '" ++ word ++ "'"
  | .missing option => "a value is required for '" ++ option ++ "'"
  | .invalid option value => "invalid value '" ++ value ++ "' for '" ++ option ++ "'"

namespace ShellOptions

def standard : ShellOptions where
  address := ⟨"localhost", ServerAddress.defaultPort⟩
  poolSize := 4
  maxWait := none

def usage : String :=
  "usage: docwire [--address HOST:PORT] [--pool-size COUNT] [--max-wait-ms MILLISECONDS]"

def number (option value : String) : Except OptionError Nat :=
  match Text.unsigned UInt64.size value.toList with
  | some n => .ok n
  | none => .error (.invalid option value)

-- Sets one option, if there is one of that name and the value suits it.
def set (o : ShellOptions) (option value : String) : Except OptionError ShellOptions :=
  match option with
  | "--address" =>
    match ServerAddress.parse value with
    | .ok address => .ok { o with address := address }
    | .error _ => .error (.invalid option value)
  | "--pool-size" => (number option value).map fun n => { o with poolSize := n }
  | "--max-wait-ms" => (number option value).map fun n => { o with maxWait := some n }
  | _ => .error (.unexpected option)

-- Reads options, each of which is followed by its value.
def parseFrom (o : ShellOptions) : List String → Except OptionError ShellOptions
  | [] => .ok o
  | [option] => .error (.missing option)
  | option :: value :: rest =>
    match o.set option value with
    | .ok changed => parseFrom changed rest
    | .error e => .error e

def parse : List String → Except OptionError ShellOptions :=
  parseFrom standard

-- A shell keeps as many connections as it may have.
def poolConfig (o : ShellOptions) : PoolConfig where
  name := "shell"
  minSize := 0
  maxIdle := some o.poolSize
  maxTotal := some o.poolSize
  maxWait := o.maxWait.map fun milliseconds => Span.ofMicroseconds (milliseconds * 1000)

-- A server that stands alone is the primary.
def cluster (o : ShellOptions) : Cluster :=
  ⟨[ServerDescription.ofRole o.address .primary]⟩

end ShellOptions

end DocWire
