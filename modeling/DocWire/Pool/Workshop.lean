import DocWire.Pool.Lending

namespace DocWire

-- A thing to be pooled, which goes by its number.
structure Widget where
  number : Nat
  sound : Bool
deriving DecidableEq

-- Makes widgets, except in some attempts, and keeps count of those that it made and of those that
-- came to their end.
structure Workshop where
  refusals : List Nat
  attempts : Nat
  made : Nat
  cleaned : List Nat
deriving DecidableEq

-- An attempt that made nothing.
structure RefusedAttempt where
  attempt : Nat
deriving DecidableEq

def RefusedAttempt.message (r : RefusedAttempt) : String :=
  "refused attempt " ++ toString r.attempt

namespace Workshop

abbrev Action := StateM Workshop

def refusing (attempts : List Nat) : Workshop := ⟨attempts, 0, 0, []⟩

def make (w : Workshop) : Except RefusedAttempt Widget × Workshop :=
  if w.refusals.contains w.attempts then
    (.error ⟨w.attempts⟩, { w with attempts := w.attempts + 1 })
  else (.ok ⟨w.made, true⟩, { w with attempts := w.attempts + 1, made := w.made + 1 })

-- Pools the widgets of a workshop. Those that are not sound cannot be used again.
def manager : Manager Action Widget RefusedAttempt where
  create := make
  validate r := return r.sound
  cleanup r := modify fun w => { w with cleaned := w.cleaned ++ [r.number] }

end Workshop

end DocWire
