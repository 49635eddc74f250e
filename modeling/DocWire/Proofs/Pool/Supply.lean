import DocWire.Proofs.Connection.Lease
import DocWire.Proofs.Command.Conversation

namespace DocWire

-- What stands outside of a client: peers with any behaviour, which can be dialled, and a clock.
structure Outside (ω σ : Type) where
  stream : ByteStream σ
  dial : ServerAddress → ω → Except TransportError σ × ω
  clock : ω → Span × ω

-- The outside at one moment, with the count of the connections that have been opened.
structure World (ω : Type) where
  outside : ω
  opened : Nat

namespace Outside

variable {ω σ : Type}

-- Connections go by the order in which they were opened.
def connect (p : Outside ω σ) (address : ServerAddress) :
    StateM (World ω) (Except TransportError (Line σ)) := fun w =>
  match p.dial address w.outside with
  | (.ok s, o) => (.ok (.ofStream address ⟨w.opened, s, []⟩), ⟨o, w.opened + 1⟩)
  | (.error e, o) => (.error e, { w with outside := o })

def now (p : Outside ω σ) : StateM (World ω) Span := fun w =>
  ((p.clock w.outside).1, { w with outside := (p.clock w.outside).2 })

def connector (p : Outside ω σ) : Connector (StateM (World ω)) (Line σ) where
  channel := StreamConnection.channel (Recorded.stream p.stream) p.now
  connect := p.connect

end Outside

variable {ω σ : Type}

-- Connections that were opened in a row, beginning with a number, and that nobody has used.
structure Opened (number : Nat) (fresh : List (Line σ)) : Prop where
  numbers : fresh.map Line.number = List.range' number fresh.length
  unused : ∀ k ∈ fresh, k.isOpen = true ∧ k.motions = []

theorem Opened.nil (number : Nat) : Opened number ([] : List (Line σ)) := by
  refine ⟨rfl, fun k hk => ?_⟩
  cases hk

theorem Opened.append {number : Nat} {a b : List (Line σ)} (ha : Opened number a)
    (hb : Opened (number + a.length) b) : Opened number (a ++ b) := by
  refine ⟨?_, fun k hk => ?_⟩
  · rw [List.map_append, ha.numbers, hb.numbers, List.length_append, List.range'_append_1]
  · rcases List.mem_append.mp hk with h | h
    · exact ha.unused k h
    · exact hb.unused k h

-- The connections that are there before and those that are opened in the meantime are the ones that
-- are there afterwards and those that have been lost.
def Supplies (before : List (Line σ)) (opened : Nat) (after : List (Line σ)) (opened' : Nat) :
    Prop :=
  ∃ fresh lost, Opened opened fresh ∧ opened' = opened + fresh.length ∧
    (before ++ fresh).Perm (after ++ lost)

namespace Supplies

variable {before middle after rest : List (Line σ)} {opened opened' opened'' : Nat}

theorem of_perm (h : before.Perm (after ++ rest)) (opened : Nat) :
    Supplies before opened after opened := by
  refine ⟨[], rest, .nil opened, rfl, ?_⟩
  rw [List.append_nil]
  exact h

theorem refl (before : List (Line σ)) (opened : Nat) : Supplies before opened before opened :=
  of_perm (by rw [List.append_nil]) opened

theorem lose (before : List (Line σ)) (opened : Nat) : Supplies before opened [] opened :=
  of_perm (.refl ([] ++ before)) opened

theorem trans (h : Supplies before opened middle opened')
    (h' : Supplies middle opened' after opened'') : Supplies before opened after opened'' := by
  obtain ⟨first, gone, hfirst, rfl, hperm⟩ := h
  obtain ⟨second, more, hsecond, rfl, hperm'⟩ := h'
  refine ⟨first ++ second, more ++ gone, hfirst.append hsecond, ?_, ?_⟩
  · rw [List.length_append, Nat.add_assoc]
  · have hswap : (middle ++ gone ++ second).Perm (middle ++ second ++ gone) := by
      rw [List.append_assoc, List.append_assoc]
      exact List.perm_append_comm.append_left middle
    rw [← List.append_assoc, ← List.append_assoc]
    exact (hperm.append_right second).trans (hswap.trans (hperm'.append_right gone))

theorem append_right (h : Supplies before opened after opened') (rest : List (Line σ)) :
    Supplies (before ++ rest) opened (after ++ rest) opened' := by
  obtain ⟨fresh, lost, hfresh, hopened, hperm⟩ := h
  refine ⟨fresh, lost, hfresh, hopened, ?_⟩
  have hbefore : (before ++ rest ++ fresh).Perm (before ++ fresh ++ rest) := by
    rw [List.append_assoc, List.append_assoc]
    exact List.perm_append_comm.append_left before
  have hafter : (after ++ lost ++ rest).Perm (after ++ rest ++ lost) := by
    rw [List.append_assoc, List.append_assoc]
    exact List.perm_append_comm.append_left after
  exact hbefore.trans ((hperm.append_right rest).trans hafter)

theorem perm_left (h : Supplies before opened after opened') (hperm : middle.Perm before) :
    Supplies middle opened after opened' :=
  trans (of_perm (by rwa [List.append_nil]) opened) h

theorem perm_right (h : Supplies before opened middle opened') (hperm : middle.Perm after) :
    Supplies before opened after opened' :=
  h.trans (of_perm (by rwa [List.append_nil]) opened')

theorem append_left (h : Supplies before opened after opened') (rest : List (Line σ)) :
    Supplies (rest ++ before) opened (rest ++ after) opened' :=
  ((h.append_right rest).perm_left List.perm_append_comm).perm_right List.perm_append_comm

end Supplies

-- An action on a state that holds connections. Beside those, `given` go in and `out` come out with
-- the outcome; others appear only by being opened.
def Circulates {τ α : Type} (hold : τ → List (Line σ)) (given : List (Line σ))
    (x : StateT τ (StateM (World ω)) α) (out : α → List (Line σ)) : Prop :=
  ∀ t w, Supplies (hold t ++ given) w.opened (hold (x t w).1.2 ++ out (x t w).1.1) (x t w).2.opened

section

variable {τ α β : Type} {hold : τ → List (Line σ)} {given : List (Line σ)}

theorem circulates_pure (a : α) (out : α → List (Line σ)) :
    Circulates hold (out a) (pure a : StateT τ (StateM (World ω)) α) out :=
  fun _ w => .refl _ w.opened

-- What goes in can be lost.
theorem circulates_lose {a : α} {out : α → List (Line σ)} (h : out a = []) :
    Circulates hold given (pure a : StateT τ (StateM (World ω)) α) out := by
  intro t w
  change Supplies (hold t ++ given) w.opened (hold t ++ out a) w.opened
  rw [h, List.append_nil]
  exact .of_perm (.refl _) w.opened

-- A state that holds nothing can take the place of any other.
theorem circulates_set {t : τ} (h : hold t = []) :
    Circulates hold given (set t : StateT τ (StateM (World ω)) PUnit) fun _ => [] := by
  intro s w
  change Supplies (hold s ++ given) w.opened (hold t ++ []) w.opened
  rw [h]
  exact .lose _ w.opened

theorem circulates_bind {x : StateT τ (StateM (World ω)) α}
    {f : α → StateT τ (StateM (World ω)) β} {middle : α → List (Line σ)} {out : β → List (Line σ)}
    (hx : Circulates hold given x middle) (hf : ∀ a, Circulates hold (middle a) (f a) out) :
    Circulates hold given (x >>= f) out :=
  fun t w => (hx t w).trans (hf (x t w).1.1 (x t w).1.2 (x t w).2)

theorem circulates_get_bind {f : τ → StateT τ (StateM (World ω)) β} {out : β → List (Line σ)}
    (hf : ∀ t, Circulates hold given (f t) out) : Circulates hold given (get >>= f) out :=
  fun t w => hf t t w

-- What is read from the state still holds in the first step behind it.
theorem circulates_get_bind_at {f : τ → StateT τ (StateM (World ω)) β} {out : β → List (Line σ)}
    (hf : ∀ t w, Supplies (hold t ++ given) w.opened (hold (f t t w).1.2 ++ out (f t t w).1.1)
      (f t t w).2.opened) : Circulates hold given (get >>= f) out :=
  fun t w => hf t w

theorem circulates_lift {x : StateM (World ω) α} {out : α → List (Line σ)}
    (hx : ∀ w, Supplies given w.opened (out (x w).1) (x w).2.opened) :
    Circulates hold given (liftM x : StateT τ (StateM (World ω)) α) out :=
  fun t w => (hx w).append_left (hold t)

-- Every outcome that an action can have is of a kind.
def Returns (P : α → Prop) (x : StateT τ (StateM (World ω)) α) : Prop :=
  ∀ t w, P (x t w).1.1

theorem returns_pure {P : α → Prop} {a : α} (h : P a) :
    Returns P (pure a : StateT τ (StateM (World ω)) α) :=
  fun _ _ => h

theorem returns_bind {P : β → Prop} {x : StateT τ (StateM (World ω)) α}
    {f : α → StateT τ (StateM (World ω)) β} (hf : ∀ a, Returns P (f a)) : Returns P (x >>= f) :=
  fun t w => hf (x t w).1.1 (x t w).1.2 (x t w).2

theorem returns_bind_of {P : α → Prop} {Q : β → Prop} {x : StateT τ (StateM (World ω)) α}
    {f : α → StateT τ (StateM (World ω)) β} (hx : Returns P x) (hf : ∀ a, P a → Returns Q (f a)) :
    Returns Q (x >>= f) :=
  fun t w => hf (x t w).1.1 (hx t w) (x t w).1.2 (x t w).2

end

namespace Outside

-- A connection that is opened for a pool is new.
theorem create_supplies (p : Outside ω σ) (address : ServerAddress) (w : World ω) :
    Supplies [] w.opened ((p.connector.manager address).create.run w).1.toOption.toList
      ((p.connector.manager address).create.run w).2.opened := by
  have hconnect : p.connector.connect = p.connect := rfl
  rw [Connector.create_run, hconnect]
  unfold connect
  rcases p.dial address w.outside with ⟨outcome, o⟩
  cases outcome with
  | error e => exact .refl [] w.opened
  | ok s =>
      refine ⟨[.ofStream address ⟨w.opened, s, []⟩], [], ⟨rfl, fun k hk => ?_⟩, rfl, .refl _⟩
      rw [List.mem_singleton] at hk
      rw [hk]
      exact ⟨rfl, rfl⟩

end Outside

end DocWire
