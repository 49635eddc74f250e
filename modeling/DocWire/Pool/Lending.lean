import DocWire.Pool.Basic

namespace DocWire

-- How instances are made, checked when they come back, and disposed of.
structure Manager (m : Type → Type) (ρ ε : Type) where
  create : ExceptT ε m ρ
  validate : ρ → m Bool
  cleanup : ρ → m Unit

-- The outcome of one attempt to borrow. A failed creation frees its place for somebody else.
inductive Attempt (ρ ε : Type) where
  | lent (r : ρ)
  | refused (e : PoolError ε) (wake : Wake)
  | wait

namespace Pool

variable {m : Type → Type} [Monad m] {ρ ε : Type}

abbrev Action (m : Type → Type) (ρ : Type) := StateT (Pool ρ) m

-- Creates a number of instances, one after the other, until one cannot be made.
def createMany (manager : Manager m ρ ε) : Nat → ExceptT ε m (List ρ)
  | 0 => return []
  | count + 1 => do
    let r ← manager.create
    return r :: (← createMany manager count)

-- A new pool with the instances it starts with.
def start (manager : Manager m ρ ε) (config : PoolConfig) : m (Except (PoolError ε) (Pool ρ)) := do
  match ← (createMany manager config.minSize).run with
  | .ok idle => return .ok (ofIdle config idle)
  | .error reason => return .error (.create reason)

-- Marks the pool as broken for good.
def breakDown (fault : PoolFault) : Action m ρ (Except PoolFault Wake) := do
  modify fun p => { p with broken := true }
  return .error fault

-- Gives back the place of an instance that could not be created.
def abandon (reason : ε) : Action m ρ (Attempt ρ ε) := do
  match (← get).lower 1 with
  | .ok p =>
    set p
    return .refused (.create reason) .one
  | .error fault =>
    let _ ← breakDown fault
    return .refused (.create reason) .nobody

-- Tries to borrow, without waiting.
def attempt (manager : Manager m ρ ε) : Action m ρ (Attempt ρ ε) := do
  match ← modifyGet request with
  | .reuse r => return .lent r
  | .refuse e => return .refused e .nobody
  | .wait => return .wait
  | .create =>
    match ← (manager.create.run : m (Except ε ρ)) with
    | .ok r => return .lent r
    | .error reason => abandon reason

-- Borrows while nobody else is at work, so that a wait only ends by its limit.
def borrow (manager : Manager m ρ ε) (limit : Option Span) :
    Action m ρ (Except (PoolError ε) ρ) := do
  match ← attempt manager with
  | .lent r => return .ok r
  | .refused e _ => return .error e
  | .wait =>
    let name := (← get).config.name
    match limit with
    | some span => return .error (.exhausted name span)
    | none => return .error (.endless name)

-- Whether there is an end to reckon with for a wait that begins at `now`. One without a limit needs
-- none.
def endsInTime (now : Span) (limit : Option Span) : Bool :=
  limit.all fun wait => (now.deadline? wait).isSome

-- Borrows at a time. The end of the wait is reckoned before the pool is looked at, also for one who
-- then need not wait.
def acquireWithin (manager : Manager m ρ ε) (now : Span) (limit : Option Span) :
    Action m ρ (Except (PoolError ε) ρ) :=
  if endsInTime now limit then borrow manager limit else return .error .overflow

-- Borrows, waiting as long as the pool is set to.
def acquire (manager : Manager m ρ ε) (now : Span) : Action m ρ (Except (PoolError ε) ρ) := do
  acquireWithin manager now (← get).config.maxWait

-- Takes back an instance that must not be used again.
def remove (manager : Manager m ρ ε) (r : ρ) : Action m ρ (Except PoolFault Wake) := do
  match (← get).lower 1 with
  | .ok p =>
    set p
    manager.cleanup r
    return .ok .one
  | .error fault => breakDown fault

-- Takes back an instance, and keeps it for reuse if it is sound and there is room.
def release (manager : Manager m ρ ε) (r : ρ) : Action m ρ (Except PoolFault Wake) := do
  let valid ← manager.validate r
  let p ← get
  if valid && !p.closed && p.mayKeep then
    set (p.keep r)
    return .ok .one
  else remove manager r

def cleanupAll (manager : Manager m ρ ε) : List ρ → m Unit
  | [] => return ()
  | r :: rest => do
    manager.cleanup r
    cleanupAll manager rest

-- Ends the pool: idle instances are disposed of now, those on loan when they come back.
def close (manager : Manager m ρ ε) : Action m ρ (Except PoolFault Wake) := do
  let p ← get
  if p.closed then return .ok .nobody
  else
    set p.shut
    match p.shut.lower p.idle.length with
    | .ok shut =>
      set shut
      (cleanupAll manager p.idle : m Unit)
      return .ok .everybody
    | .error fault => breakDown fault

end Pool

end DocWire
