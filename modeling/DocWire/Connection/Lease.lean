import DocWire.Connection.Directory

namespace DocWire

-- A connection on loan from the pool at a place, until it is handed back.
structure Lease (κ : Type) where
  place : Nat
  address : ServerAddress
  connection : Option κ

namespace Lease

variable {m : Type → Type} [Monad m] {κ : Type}

abbrev Action (m : Type → Type) (κ : Type) := StateT (Lease κ) (PoolDirectory.Action m κ)

-- Uses the connection, or gives `otherwise` when it has been handed back.
def onConnection {α : Type} (use : StateT κ m α) (otherwise : α) : Action m κ α := do
  let l ← get
  match l.connection with
  | none => return otherwise
  | some k =>
    let (a, k) ← (use.run k : m (α × κ))
    set { l with connection := some k }
    return a

-- Hands the connection back to its pool in one of two ways, at most once.
def handBack (back : Manager m κ ConnectFault → κ → Pool.Action m κ (Except PoolFault Wake))
    (c : Connector m κ) : Action m κ Unit := do
  let l ← get
  match l.connection with
  | none => return ()
  | some k =>
    set ({ l with connection := none } : Lease κ)
    let _ ← (PoolDirectory.onPool l.place fun entry => back (c.manager entry.address) k :
      PoolDirectory.Action m κ (Option (Except PoolFault Wake)))
    return ()

-- Hands the connection back for reuse, for which the pool wants it open.
def close (c : Connector m κ) : Action m κ Unit :=
  handBack Pool.release c

-- Hands the connection back so that it is not used again.
def discard (c : Connector m κ) : Action m κ Unit :=
  handBack Pool.remove c

-- Leases as a channel. To give one up closes the connection under it, which the pool then does
-- not keep.
def channel (c : Connector m κ) : Channel (PoolDirectory.Action m κ) (Lease κ) where
  address l := l.address
  isOpen l := l.connection.any c.channel.isOpen
  send bytes := do
    onConnection (c.channel.send bytes) (.error (.closed (← get).address))
  receive limit := do
    onConnection (c.channel.receive limit) (.error (.closed (← get).address))
  close := close c
  invalidate := onConnection c.channel.invalidate ()
  now := (c.channel.now : m Span)

end Lease

namespace PoolDirectory

variable {m : Type → Type} [Monad m] {κ : Type}

-- Borrows a connection to an address from its pool.
def lease (c : Connector m κ) (address : ServerAddress) :
    Action m κ (Except (PoolError ConnectFault) (Lease κ)) := do
  match ← poolFor c address with
  | .error e => return .error e
  | .ok place =>
    let now ← (c.channel.now : m Span)
    match ← onPool place fun _ => Pool.acquire (c.manager address) now with
    | some (.ok k) => return .ok ⟨place, address, some k⟩
    | some (.error e) => return .error e
    | none => return .error (.closed ((← get).configFor address).name)

-- Leases as a source of connections. One that is released is handed back.
def source (c : Connector m κ) : Source (Action m κ) (Lease κ) where
  channel := Lease.channel c
  connect server := do
    match ← lease c server.address with
    | .ok l => return .ok l
    | .error e => return .error (.pool e)
  release l := do
    let _ ← (Lease.close c).run l
    return ()

end PoolDirectory

end DocWire
