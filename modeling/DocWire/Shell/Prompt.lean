import DocWire.Bytes.Utf8
import DocWire.Shell.Command

namespace DocWire

-- Where a user types: `put` shows bytes, and `line` takes the bytes up to and with the next line
-- feed, or what is left of the input, which is nothing at its end.
structure Terminal (m : Type → Type) where
  put : ByteArray → m (Except IoError Unit)
  line : m ByteArray

namespace Terminal

variable {m : Type → Type} [Monad m]

def promptText : String := "> "

-- The command in the bytes of a line. The end of the input is a wish to leave.
def readLine (bytes : ByteArray) : Except ShellError ShellCommand :=
  if bytes.size = 0 then .ok .exit
  else
    match Utf8.read bytes with
    | .error _ => .error (.io .notText)
    | .ok text => ShellCommand.parse (String.ofList (Text.trimEnd text.toList))

-- Asks for one command. A prompt that cannot be shown leaves the input as it is.
def prompt (t : Terminal m) : m (Except ShellError ShellCommand) := do
  match ← t.put promptText.toUTF8 with
  | .error e => return .error (.io e)
  | .ok () => return readLine (← t.line)

end Terminal

end DocWire
