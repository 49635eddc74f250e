namespace DocWire

-- How an action on a state runs, one step after the other.
section

variable {ω τ υ ε α β : Type}

theorem bind_world (x : StateM ω α) (f : α → StateM ω β) (w : ω) :
    (x >>= f) w = f (x w).1 (x w).2 :=
  rfl

theorem bind_state (x : StateT τ (StateM ω) α) (f : α → StateT τ (StateM ω) β) (t : τ) (w : ω) :
    (x >>= f) t w = f (x t w).1.1 (x t w).1.2 (x t w).2 :=
  rfl

theorem get_state (t : τ) (w : ω) : (get : StateT τ (StateM ω) τ) t w = ((t, t), w) :=
  rfl

theorem lift_state (x : StateM ω α) (t : τ) (w : ω) :
    (liftM x : StateT τ (StateM ω) α) t w = (((x w).1, t), (x w).2) :=
  rfl

-- The same with one more state around it.
theorem bind_states (x : StateT τ (StateT υ (StateM ω)) α)
    (f : α → StateT τ (StateT υ (StateM ω)) β) (t : τ) (u : υ) (w : ω) :
    (x >>= f) t u w = f (x t u w).1.1.1 (x t u w).1.1.2 (x t u w).1.2 (x t u w).2 :=
  rfl

-- An error ends an action that can fail.
theorem bind_except (x : ExceptT ε (StateM ω) α) (f : α → ExceptT ε (StateM ω) β) (w : ω) :
    (x >>= f).run w =
      match x.run w with
      | (.ok a, w') => (f a).run w'
      | (.error e, w') => (.error e, w') := by
  change (match x.run w with | (a, s) => ExceptT.bindCont f a s) = _
  rcases x.run w with ⟨outcome, w'⟩
  cases outcome with
  | ok a => rfl
  | error e => rfl

theorem lift_except (x : StateM ω α) (w : ω) :
    (liftM x : ExceptT ε (StateM ω) α).run w = (.ok (x w).1, (x w).2) :=
  rfl

end

end DocWire
