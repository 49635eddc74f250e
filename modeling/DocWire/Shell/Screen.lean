import DocWire.Shell.Prompt

namespace DocWire

-- A terminal in memory: what is still to be read, and what was shown. It takes no more bytes
-- than `limit`.
structure Screen where
  input : List UInt8
  output : ByteArray
  limit : Option Nat

namespace Screen

-- The bytes up to and with the first line feed, and the rest.
def splitLine : List UInt8 → List UInt8 × List UInt8
  | [] => ([], [])
  | byte :: rest =>
    if byte = 10 then ([byte], rest) else (byte :: (splitLine rest).1, (splitLine rest).2)

def full (s : Screen) (bytes : ByteArray) : Bool :=
  match s.limit with
  | some most => most < s.output.size + bytes.size
  | none => false

def put (fault : IoError) (bytes : ByteArray) (s : Screen) : Except IoError Unit × Screen :=
  if s.full bytes then (.error fault, s) else (.ok (), { s with output := s.output ++ bytes })

def line (s : Screen) : ByteArray × Screen :=
  (⟨(splitLine s.input).1.toArray⟩, { s with input := (splitLine s.input).2 })

-- A terminal that reports `fault` when it is full.
def terminal (fault : IoError) : Terminal (StateM Screen) where
  put := put fault
  line := line

-- Asks for commands until one is to leave, `count` times at most, and lists with each how much
-- input it left.
def prompts (t : Terminal (StateM Screen)) :
    Nat → StateM Screen (List (Except ShellError ShellCommand × Nat))
  | 0 => return []
  | count + 1 => do
    let command ← t.prompt
    let left := (← get).input.length
    match command with
    | .ok .exit => return [(command, left)]
    | _ => return (command, left) :: (← prompts t count)

end Screen

end DocWire
