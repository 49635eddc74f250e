import DocWire.Transport.Error
import DocWire.Number.Span

namespace DocWire

-- How connections of a kind are used: each is an exclusive way to one server, and moves whole
-- messages. `receive` is given the size that no reply may exceed, `invalidate` gives up a
-- connection whose next bytes cannot be trusted, and `now` reads a clock.
structure Channel (m : Type → Type) (κ : Type) where
  address : κ → ServerAddress
  isOpen : κ → Bool
  send : ByteArray → StateT κ m (Except TransportError Unit)
  receive : Nat → StateT κ m (Except TransportError ByteArray)
  close : StateT κ m Unit
  invalidate : StateT κ m Unit
  now : m Span

end DocWire
