namespace DocWire.Text

def isDigit (c : Char) : Bool :=
  '0' ≤ c && c ≤ '9'

-- The number that digits denote, the most significant first, after those read into `n`.
def digitsFrom (n : Nat) : List Char → Option Nat
  | [] => some n
  | c :: rest => if isDigit c then digitsFrom (10 * n + (c.toNat - '0'.toNat)) rest else none

-- Reads one digit or more, and nothing else.
def digits : List Char → Option Nat
  | [] => none
  | cs => digitsFrom 0 cs

-- Reads an unsigned number below `bound`. A plus may stand in front, and any number of zeros.
def unsigned (bound : Nat) (cs : List Char) : Option Nat :=
  let n := match cs with
    | '+' :: rest => digits rest
    | cs => digits cs
  n.filter (· < bound)

-- Splits a text around the last occurrence of a character.
def splitLast (mark : Char) : List Char → Option (List Char × List Char)
  | [] => none
  | c :: rest =>
    match splitLast mark rest with
    | some (before, after) => some (c :: before, after)
    | none => if c = mark then some ([], rest) else none

end DocWire.Text
