namespace DocWire

-- A length of time in nanoseconds.
structure Span where
  nanoseconds : Nat
deriving DecidableEq, Inhabited

namespace Span

def ofMicroseconds (n : Nat) : Span := ⟨n * 1000⟩

def microseconds (s : Span) : Nat := s.nanoseconds / 1000

-- The longest span whose seconds fit 64 bits.
def longest : Span := ⟨Nat.pow 2 64 * 1000000000 - 1⟩

-- The time at which a wait ends that begins at `now`, unless no clock gets that far: the seconds of
-- a clock fit 63 bits.
def deadline? (now wait : Span) : Option Span :=
  if now.nanoseconds + wait.nanoseconds < Nat.pow 2 63 * 1000000000 then
    some ⟨now.nanoseconds + wait.nanoseconds⟩
  else none

-- The digits after the point of `rest / 10 ^ places`, without the zeros at their end.
def fractionDigits (places rest : Nat) : List Char :=
  let digits := (toString rest).toList
  let padded := List.replicate (places - digits.length) '0' ++ digits
  (padded.reverse.dropWhile (· = '0')).reverse

def decimal (places n : Nat) : String :=
  let unit := Nat.pow 10 places
  let whole := toString (n / unit)
  match fractionDigits places (n % unit) with
  | [] => whole
  | digits => whole ++ "." ++ String.ofList digits

-- The largest unit of which there is at least one, with as many places as it takes.
def render (s : Span) : String :=
  if 1000000000 ≤ s.nanoseconds then decimal 9 s.nanoseconds ++ "s"
  else if 1000000 ≤ s.nanoseconds then decimal 6 s.nanoseconds ++ "ms"
  else if 1000 ≤ s.nanoseconds then decimal 3 s.nanoseconds ++ "µs"
  else toString s.nanoseconds ++ "ns"

end Span

end DocWire
