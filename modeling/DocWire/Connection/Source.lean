import DocWire.Command.Error
import DocWire.Pool.Lending
import DocWire.Server.Cluster
import DocWire.Transport.Channel

namespace DocWire

-- Opens new connections of a kind.
structure Connector (m : Type → Type) (κ : Type) where
  channel : Channel m κ
  connect : ServerAddress → m (Except TransportError κ)

-- Where the connection for a command comes from. `release` is for connections that nobody uses any
-- more.
structure Source (m : Type → Type) (κ : Type) where
  channel : Channel m κ
  connect : ServerDescription → m (Except CommandError κ)
  release : κ → m Unit

namespace Connector

variable {m : Type → Type} [Monad m] {κ : Type}

-- A new connection for every command.
def source (c : Connector m κ) : Source m κ where
  channel := c.channel
  connect server := do
    match ← c.connect server.address with
    | .ok k => return .ok k
    | .error e => return .error (.transport e)
  release _ := return ()

-- Pools connections to one address: those that are open can be used again, and the others are
-- closed once more to be sure.
def manager (c : Connector m κ) (address : ServerAddress) : Manager m κ ConnectFault where
  create := do
    match ← (c.connect address : m (Except TransportError κ)) with
    | .ok k => return k
    | .error e => throw ⟨address, e⟩
  validate k := return c.channel.isOpen k
  cleanup k := do
    let _ ← c.channel.close.run k
    return ()

end Connector

end DocWire
