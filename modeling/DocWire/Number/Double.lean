namespace DocWire

-- A binary64 number, kept as its bits so that every pattern survives untouched.
structure Double where
  bits : UInt64
deriving DecidableEq, Inhabited

namespace Double

-- What a bit pattern stands for: `significand * 2 ^ exponent` with a sign, an infinity, or no
-- number at all.
inductive Denotation where
  | finite (negative : Bool) (significand : Nat) (exponent : Int)
  | infinite (negative : Bool)
  | nan
deriving DecidableEq

def signBit : Nat := 0x8000000000000000

-- The leading bit of a significand, which is not stored.
def leadingBit : Nat := 0x10000000000000

def isNegative (d : Double) : Bool :=
  signBit ≤ d.bits.toNat

-- The eleven exponent bits as they stand.
def biasedExponent (d : Double) : Nat :=
  d.bits.toNat / leadingBit % 2048

def fraction (d : Double) : Nat :=
  d.bits.toNat % leadingBit

def denotation (d : Double) : Denotation :=
  if d.biasedExponent = 2047 then
    if d.fraction = 0 then .infinite d.isNegative else .nan
  else if d.biasedExponent = 0 then .finite d.isNegative d.fraction (-1074)
  else .finite d.isNegative (leadingBit + d.fraction) ((d.biasedExponent : Int) - 1075)

def isNaN (d : Double) : Bool :=
  d.denotation = .nan

def isZero (d : Double) : Bool :=
  d.bits.toNat % signBit = 0

-- Numeric equality: nothing equals a NaN, and the two zeros are one number.
def equals (a b : Double) : Bool :=
  !a.isNaN && !b.isNaN && (a.bits = b.bits || (a.isZero && b.isZero))

-- The exact value when it is a whole number.
def whole? (d : Double) : Option Int :=
  match d.denotation with
  | .finite negative significand exponent =>
    let magnitude : Option Nat :=
      if 0 ≤ exponent then some (significand <<< exponent.toNat)
      else
        let units := 1 <<< (-exponent).toNat
        if significand % units = 0 then some (significand / units) else none
    magnitude.map fun n => if negative then -(n : Int) else n
  | _ => none

-- `n / 2 ^ shift`, a half going to the even neighbour.
def roundShift (n shift : Nat) : Nat :=
  let unit := 1 <<< shift
  let quotient := n / unit
  let rest := n % unit
  if unit < 2 * rest ∨ (unit = 2 * rest ∧ quotient % 2 = 1) then quotient + 1 else quotient

-- The nearest number to a natural number below `2 ^ 1023`, a tie going to the even significand.
-- Rounding up to `2 ^ 53` carries into the exponent bits, which is what the sum does.
def ofNat (n : Nat) : Double :=
  if n = 0 then ⟨0⟩
  else
    let top := n.log2
    let significand := if top ≤ 52 then n <<< (52 - top) else roundShift n (top - 52)
    ⟨UInt64.ofNat ((top + 1023) * leadingBit + (significand - leadingBit))⟩

def ofInt (n : Int) : Double :=
  if n < 0 then ⟨(ofNat n.natAbs).bits ||| 0x8000000000000000⟩ else ofNat n.natAbs

def zero : Double := ⟨0⟩

def one : Double := ⟨0x3FF0000000000000⟩

end Double

end DocWire
