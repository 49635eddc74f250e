import DocWire.Element.Writer

namespace DocWire

-- A program that writes: it asks for one token after another, sees what became of each, may look
-- at where the buffer ends, and ends with a result or an error of its own. It reaches the buffer in
-- no other way.
inductive Writing (α : Type) where
  | done (a : α)
  | fail (e : CodecError)
  | ask (token : Token) (next : Except CodecError Unit → Writing α)
  | locate (next : Nat → Writing α)

namespace Writing

def bind {α β : Type} (x : Writing α) (f : α → Writing β) : Writing β :=
  match x with
  | .done a => f a
  | .fail e => .fail e
  | .ask token next => .ask token fun outcome => (next outcome).bind f
  | .locate next => .locate fun place => (next place).bind f

instance : Monad Writing where
  pure := .done
  bind := Writing.bind

theorem bind_done {α : Type} (x : Writing α) : x.bind .done = x := by
  induction x with
  | done a => rfl
  | fail e => rfl
  | ask token next ih => simp only [Writing.bind, ih]
  | locate next ih => simp only [Writing.bind, ih]

theorem bind_bind {α β γ : Type} (x : Writing α) (f : α → Writing β) (g : β → Writing γ) :
    (x.bind f).bind g = x.bind fun a => (f a).bind g := by
  induction x with
  | done a => rfl
  | fail e => rfl
  | ask token next ih => simp only [Writing.bind, ih]
  | locate next ih => simp only [Writing.bind, ih]

instance : LawfulMonad Writing :=
  .mk' _ (fun x => x.bind_done) (fun _ _ => rfl) (fun x f g => x.bind_bind f g)

-- Writes one token, and ends with its error if it is refused.
def write (token : Token) : Writing Unit :=
  .ask token fun
    | .ok () => .done ()
    | .error e => .fail e

def ofExcept {α : Type} : Except CodecError α → Writing α
  | .ok a => .done a
  | .error e => .fail e

-- Runs a program on a writer.
def run {α : Type} : Writing α → Writer.Action α
  | .done a => fun w => .ok a w
  | .fail e => fun w => .error e w
  | .ask token next => fun w =>
    match Writer.apply token w with
    | .ok () w => (next (.ok ())).run w
    | .error e w => (next (.error e)).run w
  | .locate next => fun w => (next w.position).run w

@[simp] theorem run_done {α : Type} (a : α) (w : Writer) : (done a).run w = .ok a w := rfl

@[simp] theorem run_fail {α : Type} (e : CodecError) (w : Writer) :
    (fail e : Writing α).run w = .error e w := rfl

@[simp] theorem run_write (token : Token) (w : Writer) :
    (write token).run w = Writer.apply token w := by
  simp only [write, run]
  split <;> simp_all

-- Running one program after another is running the second where the first ended.
@[simp] theorem run_bind {α β : Type} (x : Writing α) (f : α → Writing β) (w : Writer) :
    (x.bind f).run w = EStateM.bind x.run (fun a => (f a).run) w := by
  induction x generalizing w with
  | done a => rfl
  | fail e => rfl
  | ask token next ih =>
    simp only [Writing.bind, run, EStateM.bind]
    split <;> simp only [ih, EStateM.bind]
  | locate next ih =>
    simp only [Writing.bind, run, ih, EStateM.bind]

-- What a program leaves in a buffer, with its result.
def runOn {α : Type} (x : Writing α) (buffer : ByteArray) : Except CodecError α × ByteArray :=
  match x.run (Writer.onBuffer buffer) with
  | .ok a w => (.ok a, w.buffer)
  | .error e w => (.error e, w.buffer)

end Writing

-- How a value of one type is written.
abbrev Encoder (α : Type) := α → Writing Unit

end DocWire
