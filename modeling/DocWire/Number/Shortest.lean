import DocWire.Number.Double

namespace DocWire.Shortest

-- The number `digits * 10 ^ exponent`.
structure Decimal where
  digits : Nat
  exponent : Int
deriving DecidableEq

-- The reals that round to a given binary number, over a common denominator; the ends belong to
-- them when the significand is even.
structure Interval where
  low : Nat
  value : Nat
  high : Nat
  denominator : Nat
  closed : Bool

-- The neighbours of `significand * 2 ^ exponent` are half as far away below a power of two,
-- unless the number is among the smallest.
def Interval.around (significand : Nat) (exponent : Int) : Interval where
  low :=
    if significand = Double.leadingBit ∧ -1074 < exponent then
      (4 * significand - 1) <<< (exponent - 2).toNat
    else (4 * significand - 2) <<< (exponent - 2).toNat
  value := (4 * significand) <<< (exponent - 2).toNat
  high := (4 * significand + 2) <<< (exponent - 2).toNat
  denominator := 1 <<< (2 - exponent).toNat
  closed := significand % 2 = 0

-- Whether `digits` steps of the grid lie in the interval, a step being `step` of the units in
-- which the interval is given.
def Interval.contains (i : Interval) (digits step : Nat) : Bool :=
  if i.closed then i.low ≤ digits * step && digits * step ≤ i.high
  else i.low < digits * step && digits * step < i.high

-- The interval in units that also count the grid `10 ^ exponent`, and the length of its step.
def Interval.onGrid (i : Interval) (exponent : Int) : Interval × Nat :=
  let scale := Nat.pow 10 (-exponent).toNat
  ({ i with low := i.low * scale, value := i.value * scale, high := i.high * scale },
    i.denominator * Nat.pow 10 exponent.toNat)

-- Of the two grid points next to the value, the one that reads back; the nearer if both do, and
-- the larger on a tie.
def Interval.pick (i : Interval) (exponent : Int) : Option Decimal :=
  let (scaled, step) := i.onGrid exponent
  let below := scaled.value / step
  let above := below + 1
  match scaled.contains below step, scaled.contains above step with
  | true, true =>
    if above * step - scaled.value ≤ scaled.value - below * step then some ⟨above, exponent⟩
    else some ⟨below, exponent⟩
  | true, false => some ⟨below, exponent⟩
  | false, true => some ⟨above, exponent⟩
  | false, false => none

-- Refines the grid tenfold until it meets the interval.
def Interval.search (i : Interval) : Nat → Int → Decimal
  | 0, exponent => ⟨i.value / i.denominator, exponent⟩
  | tries + 1, exponent =>
    match i.pick exponent with
    | some decimal => decimal
    | none => i.search tries (exponent - 1)

-- The fewest decimal digits that read back as `significand * 2 ^ exponent`, for a nonzero
-- significand. The first grid lies above the number by its count of bits, and seventeen digits
-- always suffice.
def decimal (significand : Nat) (exponent : Int) : Decimal :=
  let bits : Int := significand.log2 + 1 + exponent
  (Interval.around significand exponent).search 25 (bits * 30103 / 100000 + 2)

def zeros (count : Nat) : String :=
  String.ofList (List.replicate count '0')

-- Positional notation: no exponent, and no point in a whole number.
def Decimal.render (d : Decimal) : String :=
  let digits := toString d.digits
  if 0 ≤ d.exponent then digits ++ zeros d.exponent.toNat
  else
    let places := (-d.exponent).toNat
    if places < digits.length then
      let cut := digits.length - places
      String.ofList (digits.toList.take cut) ++ "." ++ String.ofList (digits.toList.drop cut)
    else "0." ++ zeros (places - digits.length) ++ digits

def sign (negative : Bool) : String :=
  if negative then "-" else ""

end DocWire.Shortest

namespace DocWire

-- The text of a number: as few digits as read back, and the sign of a negative zero.
def Double.render (d : Double) : String :=
  match d.denotation with
  | .nan => "NaN"
  | .infinite negative => Shortest.sign negative ++ "inf"
  | .finite negative significand exponent =>
    if significand = 0 then Shortest.sign negative ++ "0"
    else Shortest.sign negative ++ (Shortest.decimal significand exponent).render

end DocWire
