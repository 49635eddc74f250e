import DocWire.Proofs.Command.Effects

namespace DocWire

-- What can be asked of a connection.
inductive Demand where
  | send (bytes : ByteArray)
  | receive (limit : Nat)
  | invalidate
  | close

-- What was asked for.
def Use.demand : Use → Demand
  | .sent bytes _ => .send bytes
  | .received limit _ => .receive limit
  | .invalidated => .invalidate
  | .closed => .close

-- A message went out or came in as it should.
inductive Use.Succeeds : Use → Prop where
  | sent (bytes : ByteArray) : Succeeds (.sent bytes (.ok ()))
  | received (limit : Nat) (bytes : ByteArray) : Succeeds (.received limit (.ok bytes))

-- All that a closed connection answers to anything.
inductive Use.Refused (address : ServerAddress) : Use → Prop where
  | sent (bytes : ByteArray) : Refused address (.sent bytes (.error (.closed address)))
  | received (limit : Nat) : Refused address (.received limit (.error (.closed address)))
  | invalidated : Refused address .invalidated
  | closed : Refused address .closed

namespace Channel

variable {m : Type → Type} [Monad m] {κ : Type}

-- Does what is asked for, and tells what came of it.
def meet (channel : Channel m κ) : Demand → StateT κ m Use
  | .send bytes => do
    let outcome ← channel.send bytes
    return .sent bytes outcome
  | .receive limit => do
    let outcome ← channel.receive limit
    return .received limit outcome
  | .invalidate => do
    channel.invalidate
    return .invalidated
  | .close => do
    channel.close
    return .closed

def meetAll (channel : Channel m κ) : List Demand → StateT κ m (List Use)
  | [] => return []
  | demand :: rest => do
    let use ← channel.meet demand
    let uses ← channel.meetAll rest
    return use :: uses

end Channel

namespace StreamConnection

variable {σ : Type}

-- The stream of an open connection is used, and the connection stays open if that went well.
theorem guarded_open {α : Type} (use : σ → Except TransportError α × σ) {c : StreamConnection σ}
    (h : c.isOpen = true) :
    c.guarded use =
      ((use c.stream).1, { c with stream := (use c.stream).2, isOpen := (use c.stream).1.isOk }) := by
  unfold guarded
  rw [if_pos h]
  rcases use c.stream with ⟨outcome, t⟩
  cases outcome with
  | ok a => simp only [h, Except.isOk, Except.toBool]
  | error e => rfl

theorem guarded_closed {α : Type} (use : σ → Except TransportError α × σ) {c : StreamConnection σ}
    (h : c.isOpen = false) : c.guarded use = (.error (.closed c.address), c) := by
  unfold guarded
  rw [if_neg (by rw [h]; exact Bool.false_ne_true)]

theorem close_closed {c : StreamConnection σ} (h : c.isOpen = false) : c.close = c := by
  obtain ⟨address, stream, isOpen⟩ := c
  cases h
  rfl

-- What a stream connection does on demand, whatever the monad that it is used in.
def meet (stream : ByteStream σ) (c : StreamConnection σ) : Demand → Use × StreamConnection σ
  | .send bytes => (.sent bytes (c.send stream bytes).1, (c.send stream bytes).2)
  | .receive limit => (.received limit (c.receive stream limit).1, (c.receive stream limit).2)
  | .invalidate => (.invalidated, c.close)
  | .close => (.closed, c.close)

def meetAll (stream : ByteStream σ) : List Demand → StreamConnection σ →
    List Use × StreamConnection σ
  | [], c => ([], c)
  | demand :: rest, c =>
    ((c.meet stream demand).1 :: (meetAll stream rest (c.meet stream demand).2).1,
      (meetAll stream rest (c.meet stream demand).2).2)

section

variable {m : Type → Type} [Monad m] [LawfulMonad m] (stream : ByteStream σ) (now : m Span)

theorem meet_run (demand : Demand) (c : StreamConnection σ) :
    ((channel stream now).meet demand).run c = pure (c.meet stream demand) := by
  cases demand with
  | send bytes => exact pure_bind (c.send stream bytes) _
  | receive limit => exact pure_bind (c.receive stream limit) _
  | invalidate => exact pure_bind ((), c.close) _
  | close => exact pure_bind ((), c.close) _

theorem meetAll_run (demands : List Demand) (c : StreamConnection σ) :
    ((channel stream now).meetAll demands).run c = pure (meetAll stream demands c) := by
  induction demands generalizing c with
  | nil => rfl
  | cons demand rest ih =>
      simp only [Channel.meetAll, StateT.run_bind, meet_run, ih, pure_bind, StateT.run_pure, meetAll]

end

end StreamConnection

end DocWire
