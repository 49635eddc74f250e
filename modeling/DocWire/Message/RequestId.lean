namespace DocWire

-- The number that the next request gets.
structure RequestIds where
  next : Int32
deriving DecidableEq

namespace RequestIds

def first : RequestIds := ⟨1⟩

-- Takes a number and leaves its successor, which after the greatest is the least.
def draw (ids : RequestIds) : Int32 × RequestIds :=
  (ids.next, ⟨ids.next + 1⟩)

end RequestIds

end DocWire
