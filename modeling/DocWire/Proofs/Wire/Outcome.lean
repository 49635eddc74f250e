import DocWire.Element.Writing

namespace DocWire.Outcome

variable {ε σ α β : Type}

-- The steps of an action that succeeds all succeed, each where the one before it ended.
theorem bind_eq_ok {x : EStateM ε σ α} {f : α → EStateM ε σ β} {s t : σ} {b : β} :
    (x >>= f) s = .ok b t ↔ ∃ a u, x s = .ok a u ∧ f a u = .ok b t := by
  simp only [bind, EStateM.bind]
  cases hx : x s with
  | ok a u =>
      constructor
      · intro h
        exact ⟨a, u, rfl, h⟩
      · rintro ⟨a, u, ⟨rfl, rfl⟩, h⟩
        exact h
  | error e u => simp

-- The first step decides where the second begins.
theorem bind_of_ok {x : EStateM ε σ α} {s t : σ} {a : α} (h : x s = .ok a t)
    (f : α → EStateM ε σ β) : (x >>= f) s = f a t := by
  simp only [bind, EStateM.bind, h]

theorem bind_of_error {x : EStateM ε σ α} {s t : σ} {e : ε} (h : x s = .error e t)
    (f : α → EStateM ε σ β) : (x >>= f) s = .error e t := by
  simp only [bind, EStateM.bind, h]

theorem except_bind_eq_ok {x : Except ε α} {f : α → Except ε β} {b : β} :
    (x >>= f) = .ok b ↔ ∃ a, x = .ok a ∧ f a = .ok b := by
  cases x with
  | ok a =>
      constructor
      · intro h
        exact ⟨a, rfl, h⟩
      · rintro ⟨_, ha, h⟩
        cases ha
        exact h
  | error e => simp [bind, Except.bind]

theorem except_bind_eq_error {x : Except ε α} {f : α → Except ε β} {e : ε} :
    (x >>= f) = .error e ↔ x = .error e ∨ ∃ a, x = .ok a ∧ f a = .error e := by
  cases x with
  | ok a =>
      constructor
      · intro h
        exact .inr ⟨a, rfl, h⟩
      · rintro (h | ⟨_, ha, h⟩)
        · cases h
        · cases ha
          exact h
  | error fault => simp [bind, Except.bind]

@[simp] theorem pure_eq_ok {a b : α} {s t : σ} :
    (pure a : EStateM ε σ α) s = .ok b t ↔ b = a ∧ t = s := by
  simp only [pure, EStateM.pure, EStateM.Result.ok.injEq]
  constructor
  · rintro ⟨rfl, rfl⟩
    exact ⟨rfl, rfl⟩
  · rintro ⟨rfl, rfl⟩
    exact ⟨rfl, rfl⟩

@[simp] theorem throw_ne_ok {e : ε} {b : α} {s t : σ} :
    ¬ (throw e : EStateM ε σ α) s = .ok b t := by
  intro h
  cases h

@[simp] theorem get_eq_ok {s t u : σ} :
    (get : EStateM ε σ σ) s = .ok t u ↔ s = t ∧ s = u := by
  constructor
  · intro h
    cases h
    exact ⟨rfl, rfl⟩
  · rintro ⟨rfl, rfl⟩
    rfl

theorem get_bind (f : σ → EStateM ε σ β) (s : σ) : (get >>= f) s = f s s :=
  rfl

@[simp] theorem modify_eq_ok {f : σ → σ} {s t : σ} {u : PUnit} :
    (modify f : EStateM ε σ PUnit) s = .ok u t ↔ t = f s := by
  constructor
  · intro h
    cases h
    rfl
  · rintro rfl
    rfl

-- The state that an action ends in, whether it succeeds or not.
def final : EStateM.Result ε σ α → σ
  | .ok _ s => s
  | .error _ s => s

-- What holds before an action holds behind it, whatever its outcome.
def Preserves (I : σ → Prop) (x : EStateM ε σ α) : Prop :=
  ∀ s, I s → I (final (x s))

variable {I : σ → Prop}

theorem Preserves.of_ok {x : EStateM ε σ α} {s t : σ} {a : α} (hx : Preserves I x) (hs : I s)
    (hrun : x s = .ok a t) : I t := by
  have hfinal := hx s hs
  rw [hrun] at hfinal
  exact hfinal

theorem preserves_pure (a : α) : Preserves I (pure a : EStateM ε σ α) :=
  fun _ h => h

theorem preserves_throw (e : ε) : Preserves I (throw e : EStateM ε σ α) :=
  fun _ h => h

theorem preserves_bind {x : EStateM ε σ α} {f : α → EStateM ε σ β} (hx : Preserves I x)
    (hf : ∀ a, Preserves I (f a)) : Preserves I (x >>= f) := by
  intro s hs
  have hmiddle := hx s hs
  cases hrun : x s with
  | ok a u =>
      rw [hrun] at hmiddle
      rw [bind_of_ok hrun]
      exact hf a u hmiddle
  | error e u =>
      rw [hrun] at hmiddle
      rw [bind_of_error hrun]
      exact hmiddle

-- What is known of the state can be used of what is read from it.
theorem preserves_get_bind {f : σ → EStateM ε σ β} (hf : ∀ s, I s → Preserves I (f s)) :
    Preserves I (get >>= f) :=
  fun s hs => hf s hs s hs

theorem preserves_modify {f : σ → σ} (h : ∀ s, I s → I (f s)) :
    Preserves I (modify f : EStateM ε σ PUnit) :=
  h

-- Every error that an action can end with is of a kind.
def Raises (P : ε → Prop) (x : EStateM ε σ α) : Prop :=
  ∀ s e t, x s = .error e t → P e

variable {P : ε → Prop}

theorem raises_pure (a : α) : Raises P (pure a : EStateM ε σ α) := by
  intro s e t h
  cases h

theorem raises_throw {e : ε} (h : P e) : Raises P (throw e : EStateM ε σ α) := by
  intro s e t hthrow
  cases hthrow
  exact h

theorem raises_get : Raises P (get : EStateM ε σ σ) := by
  intro s e t h
  cases h

theorem raises_modify (f : σ → σ) : Raises P (modify f : EStateM ε σ PUnit) := by
  intro s e t h
  cases h

theorem raises_bind {x : EStateM ε σ α} {f : α → EStateM ε σ β} (hx : Raises P x)
    (hf : ∀ a, Raises P (f a)) : Raises P (x >>= f) := by
  intro s e t h
  cases hrun : x s with
  | ok a u =>
      rw [bind_of_ok hrun] at h
      exact hf a u e t h
  | error fault u =>
      rw [bind_of_error hrun] at h
      cases h
      exact hx s e t hrun

end DocWire.Outcome
