import DocWire.Document.Basic

namespace DocWire

-- The nearest 64-bit integer.
def saturate (n : Int) : Int64 :=
  if n < Int64.minValue.toInt then Int64.minValue
  else if Int64.maxValue.toInt < n then Int64.maxValue
  else Int64.ofInt n

namespace Value

-- A value as a floating-point number; a boolean counts as zero or one.
def asDouble? : Value → Option Double
  | .double d => some d
  | .int32 n => some (Double.ofInt n.toInt)
  | .int64 n => some (Double.ofInt n.toInt)
  | .boolean b => some (if b then Double.one else Double.zero)
  | _ => none

-- A value as an integer; a whole number beyond the range of integers becomes the nearest one.
def asInt? : Value → Option Int64
  | .int32 n => some n.toInt64
  | .int64 n => some n
  | .double d => d.whole?.map saturate
  | _ => none

def isNull : Value → Bool
  | .null => true
  | _ => false

end Value

end DocWire
