import DocWire.Connection.Source

namespace DocWire

-- The pool of connections to one address.
structure AddressPool (κ : Type) where
  address : ServerAddress
  pool : Pool κ

-- One pool for each address in use, built when it is first asked for. Pools that were closed stay
-- for the sake of connections that are still to come back, and are found no more.
structure PoolDirectory (κ : Type) where
  config : PoolConfig
  pools : List (AddressPool κ)

-- How a pool is used.
structure PoolStats where
  address : ServerAddress
  idle : Nat
  active : Nat
  total : Nat
deriving DecidableEq

def PoolStats.render (s : PoolStats) : String :=
  s.address.render ++ ": " ++ toString s.idle ++ " idle, " ++ toString s.active ++ " active, " ++
    toString s.total ++ " total"

def AddressPool.stats {κ : Type} (entry : AddressPool κ) : PoolStats :=
  ⟨entry.address, entry.pool.idle.length, entry.pool.active, entry.pool.total⟩

namespace PoolDirectory

variable {m : Type → Type} [Monad m] {κ : Type}

abbrev Action (m : Type → Type) (κ : Type) := StateT (PoolDirectory κ) m

def ofConfig (config : PoolConfig) : PoolDirectory κ := ⟨config, []⟩

-- The place of the open pool for an address.
def find? (d : PoolDirectory κ) (address : ServerAddress) : Option Nat :=
  d.pools.findIdx? fun entry => entry.address = address && !entry.pool.closed

-- The settings of the pool for an address, whose name tells the address.
def configFor (d : PoolDirectory κ) (address : ServerAddress) : PoolConfig :=
  { d.config with name := d.config.name ++ "-" ++ address.render }

def add (d : PoolDirectory κ) (address : ServerAddress) (pool : Pool κ) : PoolDirectory κ :=
  { d with pools := d.pools ++ [⟨address, pool⟩] }

-- Works on the pool at a place, if there is one.
def onPool {α : Type} (place : Nat) (use : AddressPool κ → Pool.Action m κ α) :
    Action m κ (Option α) := do
  let d ← get
  match d.pools[place]? with
  | none => return none
  | some entry =>
    let (a, pool) ← ((use entry).run entry.pool : m (α × Pool κ))
    set { d with pools := d.pools.set place { entry with pool := pool } }
    return some a

-- The place of the open pool for an address, after building one if need be. What was opened for
-- a pool that could not be built is forgotten.
def poolFor (c : Connector m κ) (address : ServerAddress) :
    Action m κ (Except (PoolError ConnectFault) Nat) := do
  let d ← get
  match d.find? address with
  | some place => return .ok place
  | none =>
    match ← (Pool.start (c.manager address) (d.configFor address) :
        m (Except (PoolError ConnectFault) (Pool κ))) with
    | .error e => return .error e
    | .ok pool =>
      set (d.add address pool)
      return .ok d.pools.length

-- The usage of each open pool, by address.
def stats (d : PoolDirectory κ) : List PoolStats :=
  ((d.pools.filter fun entry => !entry.pool.closed).map AddressPool.stats).mergeSort
    fun a b => a.address.precedes b.address

def closeEach (c : Connector m κ) : List (AddressPool κ) → m (List (AddressPool κ))
  | [] => return []
  | entry :: rest => do
    let (_, pool) ← (Pool.close (c.manager entry.address)).run entry.pool
    return { entry with pool := pool } :: (← closeEach c rest)

-- Closes every pool. Connections on loan are closed when they come back.
def close (c : Connector m κ) : Action m κ Unit := do
  let d ← get
  let pools ← (closeEach c d.pools : m (List (AddressPool κ)))
  set { d with pools := pools }

end PoolDirectory

end DocWire
