import DocWire.Pool.Lending
import DocWire.Proofs.Running

namespace DocWire

variable {ω ρ ε : Type}

namespace Pool

theorem mayGrow_iff (p : Pool ρ) :
    p.mayGrow = true ↔ ∀ most, p.config.maxTotal = some most → p.total < most := by
  unfold mayGrow
  cases p.config.maxTotal with
  | none => simp
  | some most => simp

theorem mayGrow_eq_false (p : Pool ρ) :
    p.mayGrow = false ↔ ∃ most, p.config.maxTotal = some most ∧ most ≤ p.total := by
  unfold mayGrow
  cases p.config.maxTotal with
  | none => simp
  | some most => simp

theorem mayKeep_iff (p : Pool ρ) :
    p.mayKeep = true ↔ ∀ most, p.config.maxIdle = some most → p.idle.length < most := by
  unfold mayKeep
  cases p.config.maxIdle with
  | none => simp
  | some most => simp

-- All that a request can come to.
inductive Grants (p : Pool ρ) : Grant ρ ε → Pool ρ → Prop where
  | interrupted (hbroken : p.broken = true) : Grants p (.refuse (.interrupted p.config.name)) p
  | closed (hbroken : p.broken = false) (hclosed : p.closed = true) :
      Grants p (.refuse (.closed p.config.name)) p
  | reuse {r : ρ} {rest : List ρ} (hbroken : p.broken = false) (hopen : p.closed = false)
      (hidle : p.idle = r :: rest) : Grants p (.reuse r) { p with idle := rest }
  | create (hbroken : p.broken = false) (hopen : p.closed = false) (hidle : p.idle = [])
      (hroom : p.mayGrow = true) : Grants p .create { p with total := p.total + 1 }
  | wait (hbroken : p.broken = false) (hopen : p.closed = false) (hidle : p.idle = [])
      (hfull : p.mayGrow = false) : Grants p .wait p

theorem request_grants {p p' : Pool ρ} {grant : Grant ρ ε} (h : p.request = (grant, p')) :
    p.Grants grant p' := by
  unfold request at h
  by_cases hbroken : p.broken = true
  · rw [if_pos hbroken] at h
    cases h
    exact .interrupted hbroken
  rw [if_neg hbroken] at h
  rw [Bool.not_eq_true] at hbroken
  by_cases hclosed : p.closed = true
  · rw [if_pos hclosed] at h
    cases h
    exact .closed hbroken hclosed
  rw [if_neg hclosed] at h
  rw [Bool.not_eq_true] at hclosed
  split at h
  · next r rest hidle =>
    cases h
    exact .reuse hbroken hclosed hidle
  · next hidle =>
    by_cases hroom : p.mayGrow = true
    · rw [if_pos hroom] at h
      cases h
      exact .create hbroken hclosed hidle hroom
    · rw [if_neg hroom] at h
      rw [Bool.not_eq_true] at hroom
      cases h
      exact .wait hbroken hclosed hidle hroom

-- What follows upon a request. Leave to create may take its time.
def fulfil {m : Type → Type} [Monad m] (manager : Manager m ρ ε) :
    Grant ρ ε → Action m ρ (Attempt ρ ε)
  | .reuse r => return .lent r
  | .refuse e => return .refused e .nobody
  | .wait => return .wait
  | .create => do
    match ← (manager.create.run : m (Except ε ρ)) with
    | .ok r => return .lent r
    | .error reason => abandon reason

-- The pool with one instance less.
def shrink (p : Pool ρ) : Pool ρ :=
  { p with total := p.total - 1 }

theorem lower_one {p : Pool ρ} (h : 1 ≤ p.total) : p.lower 1 = .ok p.shrink :=
  if_pos h

-- All that can come of borrowing while nobody else is at work. What came back first is lent first,
-- and something new is created only when nothing is idle and the pool may grow.
inductive Borrows (manager : Manager (StateM ω) ρ ε) (p : Pool ρ) (w : ω) :
    Except (PoolError ε) ρ → Pool ρ → ω → Prop where
  | reused {r : ρ} {rest : List ρ} (hopen : p.closed = false) (hidle : p.idle = r :: rest) :
      Borrows manager p w (.ok r) { p with idle := rest } w
  | created {r : ρ} {w' : ω} (hopen : p.closed = false) (hidle : p.idle = [])
      (hroom : p.mayGrow = true) (hcreate : manager.create.run w = (.ok r, w')) :
      Borrows manager p w (.ok r) { p with total := p.total + 1 } w'
  | failed {reason : ε} {w' : ω} (hidle : p.idle = []) (hroom : p.mayGrow = true)
      (hcreate : manager.create.run w = (.error reason, w')) :
      Borrows manager p w (.error (.create reason)) p w'
  | refused {e : PoolError ε} (he : ∀ reason, e ≠ .create reason) : Borrows manager p w (.error e) p w

section

variable (manager : Manager (StateM ω) ρ ε)

theorem createMany_succ_run (count : Nat) (w : ω) :
    (createMany manager (count + 1)).run w =
      match manager.create.run w with
      | (.error e, w') => (.error e, w')
      | (.ok r, w') =>
        match (createMany manager count).run w' with
        | (.error e, w'') => (.error e, w'')
        | (.ok rest, w'') => (.ok (r :: rest), w'') := by
  rw [createMany, bind_except]
  rcases manager.create.run w with ⟨outcome, w'⟩
  cases outcome with
  | error e => rfl
  | ok r =>
      dsimp only
      rw [bind_except]
      rcases (createMany manager count).run w' with ⟨outcome, w''⟩
      cases outcome with
      | error e => rfl
      | ok rest => rfl

theorem start_run (config : PoolConfig) (w : ω) :
    start manager config w =
      match (createMany manager config.minSize).run w with
      | (.ok idle, w') => (.ok (ofIdle config idle), w')
      | (.error e, w') => (.error (.create e), w') := by
  simp only [start, bind, StateT.bind]
  rcases (createMany manager config.minSize).run w with ⟨outcome, w'⟩
  cases outcome with
  | ok idle => rfl
  | error e => rfl

theorem fulfil_create_run (p : Pool ρ) (w : ω) :
    fulfil manager .create p w =
      match manager.create.run w with
      | (.ok r, w') => ((.lent r, p), w')
      | (.error reason, w') => (abandon reason : Action (StateM ω) ρ _) p w' := by
  rw [fulfil, bind_state, lift_state]
  rcases manager.create.run w with ⟨outcome, w'⟩
  cases outcome with
  | ok r => rfl
  | error reason => rfl

theorem abandon_run (reason : ε) {p : Pool ρ} (h : 1 ≤ p.total) (w : ω) :
    (abandon reason : Action (StateM ω) ρ (Attempt ρ ε)) p w =
      ((.refused (.create reason) .one, p.shrink), w) := by
  simp only [abandon, bind_state, get_state, lower_one h]
  rfl

theorem attempt_run (p : Pool ρ) (w : ω) : attempt manager p w =
    fulfil manager (p.request : Grant ρ ε × Pool ρ).1 (p.request : Grant ρ ε × Pool ρ).2 w :=
  rfl

theorem borrow_run (limit : Option Span) (p : Pool ρ) (w : ω) :
    borrow manager limit p w =
      match attempt manager p w with
      | ((.lent r, p'), w') => ((.ok r, p'), w')
      | ((.refused e _, p'), w') => ((.error e, p'), w')
      | ((.wait, p'), w') =>
        ((.error (limit.elim (.endless p'.config.name) (.exhausted p'.config.name)), p'), w') := by
  rw [borrow, bind_state]
  rcases attempt manager p w with ⟨⟨outcome, p'⟩, w'⟩
  cases outcome with
  | lent r => rfl
  | refused e wake => rfl
  | wait =>
      cases limit with
      | none => rfl
      | some span => rfl

theorem acquireWithin_of_endsInTime {now : Span} {limit : Option Span}
    (h : endsInTime now limit = true) : acquireWithin manager now limit = borrow manager limit :=
  if_pos h

-- Whoever would wait for too long does not get to the pool.
theorem acquireWithin_overflow {now : Span} {limit : Option Span}
    (h : endsInTime now limit = false) (p : Pool ρ) (w : ω) :
    acquireWithin manager now limit p w = ((.error .overflow, p), w) := by
  rw [acquireWithin, h]
  rfl

theorem borrow_borrows (limit : Option Span) (p : Pool ρ) (w : ω) :
    Borrows manager p w (borrow manager limit p w).1.1 (borrow manager limit p w).1.2
      (borrow manager limit p w).2 := by
  rw [borrow_run, attempt_run]
  rcases hrequest : (p.request : Grant ρ ε × Pool ρ) with ⟨grant, p'⟩
  cases request_grants hrequest with
  | interrupted hbroken => exact .refused nofun
  | closed hbroken hclosed => exact .refused nofun
  | reuse hbroken hopen hidle => exact .reused hopen hidle
  | wait hbroken hopen hidle hfull =>
      cases limit with
      | none => exact .refused nofun
      | some span => exact .refused nofun
  | create hbroken hopen hidle hroom =>
      dsimp only
      rw [fulfil_create_run]
      rcases hcreate : manager.create.run w with ⟨outcome, w'⟩
      cases outcome with
      | ok r => exact .created hopen hidle hroom hcreate
      | error reason =>
          dsimp only
          rw [abandon_run reason (Nat.le_add_left 1 p.total)]
          exact .failed hidle hroom hcreate

theorem acquireWithin_borrows (now : Span) (limit : Option Span) (p : Pool ρ) (w : ω) :
    Borrows manager p w (acquireWithin manager now limit p w).1.1
      (acquireWithin manager now limit p w).1.2 (acquireWithin manager now limit p w).2 := by
  cases h : endsInTime now limit with
  | true =>
      rw [acquireWithin_of_endsInTime manager h]
      exact borrow_borrows manager limit p w
  | false =>
      rw [acquireWithin_overflow manager h]
      exact .refused nofun

theorem remove_run {p : Pool ρ} (h : 1 ≤ p.total) (r : ρ) (w : ω) :
    remove manager r p w = ((.ok .one, p.shrink), (manager.cleanup r w).2) := by
  simp only [remove, bind_state, get_state, lower_one h]
  rfl

theorem release_run (r : ρ) (p : Pool ρ) (w : ω) :
    release manager r p w =
      match manager.validate r w with
      | (valid, w') =>
        if valid && !p.closed && p.mayKeep then ((.ok .one, p.keep r), w')
        else remove manager r p w' := by
  change _ = if (manager.validate r w).1 && !p.closed && p.mayKeep then
      ((.ok .one, p.keep r), (manager.validate r w).2)
    else remove manager r p (manager.validate r w).2
  rw [release, bind_state, lift_state, bind_state, get_state]
  by_cases hkept : ((manager.validate r w).1 && !p.closed && p.mayKeep) = true
  · rw [if_pos hkept, if_pos hkept]
    rfl
  · rw [if_neg hkept, if_neg hkept]

theorem cleanupAll_run (rs : List ρ) (w : ω) :
    cleanupAll manager rs w = ((), rs.foldl (fun w r => (manager.cleanup r w).2) w) := by
  induction rs generalizing w with
  | nil => rfl
  | cons r rest ih => exact ih (manager.cleanup r w).2

-- A pool that is closed loses what is idle in it.
theorem close_run {p : Pool ρ} (h : p.idle.length ≤ p.total) (w : ω) :
    close manager p w =
      if p.closed then ((.ok .nobody, p), w)
      else ((.ok .everybody, { p.shut with total := p.total - p.idle.length }),
        p.idle.foldl (fun w r => (manager.cleanup r w).2) w) := by
  rw [close, bind_state, get_state]
  by_cases hclosed : p.closed = true
  · rw [if_pos hclosed, if_pos hclosed]
    rfl
  · have hlower : p.shut.lower p.idle.length =
        .ok { p.shut with total := p.total - p.idle.length } := if_pos h
    rw [if_neg hclosed, if_neg hclosed, hlower]
    change ((Except.ok Wake.everybody, _), (cleanupAll manager p.idle w).2) = _
    rw [cleanupAll_run]

end

end Pool

end DocWire
