namespace DocWire.Text

def hexDigit (n : Nat) : Char :=
  if n < 10 then Char.ofNat ('0'.toNat + n) else Char.ofNat ('a'.toNat + (n - 10))

-- Two lowercase digits.
def hexByte (byte : UInt8) : String :=
  String.ofList [hexDigit (byte.toNat / 16), hexDigit (byte.toNat % 16)]

def hexBytes (bytes : List UInt8) : String :=
  String.join (bytes.map hexByte)

-- The value of a lowercase digit.
def hexValue (c : Char) : Nat :=
  if c ≤ '9' then c.toNat - '0'.toNat else c.toNat - 'a'.toNat + 10

-- The bytes that pairs of lowercase digits stand for.
def bytesOfHex : List Char → List UInt8
  | high :: low :: rest => UInt8.ofNat (16 * hexValue high + hexValue low) :: bytesOfHex rest
  | _ => []

end DocWire.Text
