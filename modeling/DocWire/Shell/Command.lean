import DocWire.Document.Basic
import DocWire.Server.Routing
import DocWire.Text.Blank
import DocWire.Transport.Error

namespace DocWire

-- What a user can ask for: to leave, to see the pools, to ping a server, or to run a command by
-- its name against a database.
inductive ShellCommand where
  | exit
  | poolStats
  | ping
  | run (database : String) (command : Document) (preference : Option ReadPreference)

inductive ShellError where
  | unrecognized (line : String)
  | usage
  | preference (e : SelectionError)
  | io (cause : IoError)

def ShellError.message : ShellError → String
  | .unrecognized line => "unrecognized command '" ++ line ++ "'"
  | .usage => "usage: run <database> <command> [readPreference]"
  | .preference e => e.message
  | .io cause => "shell IO error: " ++ cause.message

namespace ShellCommand

-- A command with a read preference may go to any server that this allows, and all others go to
-- the primary.
def routing : ShellCommand → Routing × ReadPreference
  | .run _ _ (some preference) => (.readable, preference)
  | _ => (.requiresPrimary, .primary)

-- The database and the command to run on it, if that is what the user asks for.
def request? : ShellCommand → Option (String × Document)
  | .ping => some ("admin", Document.ofList [("ping", .int32 1)])
  | .run database command _ => some (database, command)
  | _ => none

def runOf (database name : String) (preference : Option ReadPreference) : ShellCommand :=
  .run database (Document.ofList [(name, .int32 1)]) preference

-- The arguments of a command to run. A preference that there is not is told before there being too
-- many words.
def parseRun : List String → Except ShellError ShellCommand
  | [database, name] => .ok (runOf database name none)
  | database :: name :: preference :: rest =>
    match ReadPreference.parse preference with
    | .error e => .error (.preference e)
    | .ok p => if rest.isEmpty then .ok (runOf database name (some p)) else .error .usage
  | _ => .error .usage

-- Reads a line by its first word.
def parse (line : String) : Except ShellError ShellCommand :=
  match (Text.words line.toList).map String.ofList with
  | ".exit" :: _ => .ok .exit
  | ".pool" :: _ => .ok .poolStats
  | "ping" :: _ => .ok .ping
  | "run" :: arguments => parseRun arguments
  | _ => .error (.unrecognized (String.ofList (Text.trim line.toList)))

end ShellCommand

end DocWire
