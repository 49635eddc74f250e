import DocWire.Number.Span

namespace DocWire

-- What a pool may hold. A limit that is absent does not bind, and without a longest wait a caller
-- waits for as long as it takes.
structure PoolConfig where
  name : String
  minSize : Nat
  maxIdle : Option Nat
  maxTotal : Option Nat
  maxWait : Option Span
deriving DecidableEq

def PoolConfig.unlimited : PoolConfig where
  name := "pool"
  minSize := 0
  maxIdle := none
  maxTotal := none
  maxWait := none

-- Why a pool lends nothing. A pool that miscounted once interrupts everybody who comes to wait
-- for it; `endless` is a wait without a limit while nobody is there to end it, and `overflow` the
-- end of whoever would wait until a time that no clock gets to.
inductive PoolError (ε : Type) where
  | exhausted (name : String) (waited : Span)
  | interrupted (name : String)
  | closed (name : String)
  | create (reason : ε)
  | endless (name : String)
  | overflow

def PoolError.message {ε : Type} (reasoned : ε → String) : PoolError ε → String
  | .exhausted name waited =>
    "pool '" ++ name ++ "' exhausted; no instance became available within " ++ waited.render
  | .interrupted name => "wait on pool '" ++ name ++ "' was interrupted"
  | .closed name => "pool '" ++ name ++ "' is closed"
  | .create reason => "failed to create pooled instance: " ++ reasoned reason
  | .endless name => "wait on pool '" ++ name ++ "' has no end"
  | .overflow => "overflow when adding duration to instant"

-- More instances came back than were ever counted.
inductive PoolFault where
  | overdrawn
deriving DecidableEq

-- Whom a change of the pool wakes among those who wait for it.
inductive Wake where
  | nobody
  | one
  | everybody
deriving DecidableEq

-- The idle instances in the order in which they came back, and the count of all instances that
-- are idle, on loan or being created. A pool is `broken` once its count was to fall below zero.
structure Pool (ρ : Type) where
  config : PoolConfig
  idle : List ρ
  total : Nat
  closed : Bool
  broken : Bool

-- What a pool decides for one who asks: an instance, leave to create one, a refusal, or a wait.
inductive Grant (ρ ε : Type) where
  | reuse (r : ρ)
  | create
  | refuse (e : PoolError ε)
  | wait

namespace Pool

variable {ρ ε : Type}

def ofIdle (config : PoolConfig) (idle : List ρ) : Pool ρ where
  config := config
  idle := idle
  total := idle.length
  closed := false
  broken := false

-- The instances that are not idle.
def active (p : Pool ρ) : Nat :=
  p.total - p.idle.length

def mayGrow (p : Pool ρ) : Bool :=
  match p.config.maxTotal with
  | some most => p.total < most
  | none => true

def mayKeep (p : Pool ρ) : Bool :=
  match p.config.maxIdle with
  | some most => p.idle.length < most
  | none => true

-- Decides on a request. Leave to create takes the place of the new instance at once, so that
-- nobody else can have it.
def request (p : Pool ρ) : Grant ρ ε × Pool ρ :=
  if p.broken then (.refuse (.interrupted p.config.name), p)
  else if p.closed then (.refuse (.closed p.config.name), p)
  else
    match p.idle with
    | r :: rest => (.reuse r, { p with idle := rest })
    | [] => if p.mayGrow then (.create, { p with total := p.total + 1 }) else (.wait, p)

-- Counts that many instances less.
def lower (p : Pool ρ) (count : Nat) : Except PoolFault (Pool ρ) :=
  if count ≤ p.total then .ok { p with total := p.total - count } else .error .overdrawn

-- Keeps an instance that came back, behind those that are idle already.
def keep (p : Pool ρ) (r : ρ) : Pool ρ :=
  { p with idle := p.idle ++ [r] }

-- A closed pool without its idle instances, which are still counted.
def shut (p : Pool ρ) : Pool ρ :=
  { p with idle := [], closed := true }

end Pool

end DocWire
