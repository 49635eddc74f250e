import DocWire.Proofs.Pool.Outcome
import DocWire.Proofs.Pool.Supply

namespace DocWire

variable {ω σ : Type}

-- The connection that an attempt to borrow brings.
def Attempt.brings {ρ ε : Type} : Attempt ρ ε → List ρ
  | .lent r => [r]
  | .refused _ _ => []
  | .wait => []

-- The connection that a pool grants out of those that are idle.
def Grant.brings {ρ ε : Type} : Grant ρ ε → List ρ
  | .reuse r => [r]
  | .create => []
  | .refuse _ => []
  | .wait => []

namespace Pool

section

variable {ρ ε : Type}

theorem lower_idle {pool pool' : Pool ρ} {count : Nat} (h : pool.lower count = .ok pool') :
    pool'.idle = pool.idle := by
  unfold lower at h
  split at h
  · cases h
    rfl
  · cases h

-- A pool grants what is idle, and that is idle no more.
theorem request_perm {pool pool' : Pool ρ} {grant : Grant ρ ε}
    (h : pool.request = (grant, pool')) : pool.idle.Perm (pool'.idle ++ grant.brings) := by
  cases request_grants h with
  | interrupted hbroken => exact .of_eq (List.append_nil _).symm
  | closed hbroken hclosed => exact .of_eq (List.append_nil _).symm
  | create hbroken hopen hidle hroom => exact .of_eq (List.append_nil _).symm
  | wait hbroken hopen hidle hfull => exact .of_eq (List.append_nil _).symm
  | @reuse r rest hbroken hopen hidle =>
      have hmoved : ([r] ++ rest).Perm (rest ++ [r]) := List.perm_append_comm
      rw [hidle]
      exact hmoved

end

variable (p : Outside ω σ) (address : ServerAddress)

theorem createMany_supplies (count : Nat) (w : World ω) :
    Supplies [] w.opened
      (((createMany (p.connector.manager address) count).run w).1.toOption.getD [])
      ((createMany (p.connector.manager address) count).run w).2.opened := by
  induction count generalizing w with
  | zero => exact .refl [] w.opened
  | succ count ih =>
      have hone := p.create_supplies address w
      rw [createMany_succ_run]
      rcases hcreate : (p.connector.manager address).create.run w with ⟨outcome, w'⟩
      rw [hcreate] at hone
      cases outcome with
      | error e => exact hone
      | ok k =>
          have hmany := ih w'
          dsimp only
          rcases hothers : (createMany (p.connector.manager address) count).run w' with
            ⟨outcome, w''⟩
          rw [hothers] at hmany
          have hboth := hone.trans (hmany.append_right [k])
          cases outcome with
          | error e => exact hboth.trans (.of_perm (.refl _) w''.opened)
          | ok others => exact hboth.perm_right List.perm_append_comm

theorem start_supplies (config : PoolConfig) (w : World ω) :
    Supplies [] w.opened
      ((start (p.connector.manager address) config w).1.toOption.elim [] Pool.idle)
      (start (p.connector.manager address) config w).2.opened := by
  have hmany := createMany_supplies p address config.minSize w
  rw [start_run]
  rcases hrun : (createMany (p.connector.manager address) config.minSize).run w with ⟨outcome, w'⟩
  rw [hrun] at hmany
  cases outcome with
  | ok idle => exact hmany
  | error e => exact hmany

theorem breakDown_circulates (fault : PoolFault) (given : List (Line σ)) :
    Circulates (ω := ω) Pool.idle given (breakDown fault) (fun _ => []) := by
  intro pool w
  change Supplies (pool.idle ++ given) w.opened (pool.idle ++ []) w.opened
  rw [List.append_nil]
  exact .of_perm (.refl _) w.opened

theorem abandon_circulates (reason : ConnectFault) :
    Circulates (ω := ω) (σ := σ) Pool.idle [] (abandon reason) Attempt.brings := by
  apply circulates_get_bind_at
  intro pool w
  cases hlower : pool.lower 1 with
  | ok pool' =>
      change Supplies (pool.idle ++ []) w.opened (pool'.idle ++ []) w.opened
      rw [lower_idle hlower]
      exact .refl _ _
  | error fault =>
      exact .refl _ _

theorem attempt_circulates :
    Circulates Pool.idle [] (attempt (p.connector.manager address)) Attempt.brings := by
  have hrequest : Circulates (ω := ω) (σ := σ) Pool.idle []
      (modifyGet request : Action _ _ (Grant _ ConnectFault)) Grant.brings := by
    intro pool w
    rw [List.append_nil]
    exact (Supplies.refl pool.idle w.opened).perm_right (request_perm rfl)
  apply circulates_bind hrequest
  intro grant
  cases grant with
  | reuse r => exact circulates_pure _ Attempt.brings
  | refuse e => exact circulates_pure _ Attempt.brings
  | wait => exact circulates_pure _ Attempt.brings
  | create =>
      have hcreate : Circulates Pool.idle []
          (liftM (p.connector.manager address).create.run : Action (StateM (World ω)) (Line σ) _)
          fun outcome => outcome.toOption.toList := circulates_lift (p.create_supplies address)
      apply circulates_bind hcreate
      intro outcome
      cases outcome with
      | ok r => exact circulates_pure _ Attempt.brings
      | error reason => exact abandon_circulates reason

theorem borrow_circulates (limit : Option Span) :
    Circulates Pool.idle [] (borrow (p.connector.manager address) limit)
      fun outcome => outcome.toOption.toList := by
  apply circulates_bind (attempt_circulates p address)
  intro attempt
  cases attempt with
  | lent k => exact circulates_pure _ _
  | refused e wake => exact circulates_pure _ _
  | wait =>
      apply circulates_get_bind
      intro pool
      cases limit with
      | none => exact circulates_pure _ _
      | some span => exact circulates_pure _ _

-- What a pool lends was idle in it or has been opened for it.
theorem acquire_circulates (now : Span) :
    Circulates Pool.idle [] (acquire (p.connector.manager address) now)
      fun outcome => outcome.toOption.toList := by
  apply circulates_get_bind
  intro pool
  cases htime : endsInTime now pool.config.maxWait with
  | true =>
      rw [acquireWithin_of_endsInTime _ htime]
      exact borrow_circulates p address pool.config.maxWait
  | false =>
      intro d w
      rw [acquireWithin_overflow _ htime]
      exact .refl _ w.opened

-- An instance that comes back and must not be used again is lost.
theorem remove_circulates (k : Line σ) (given : List (Line σ)) :
    Circulates Pool.idle given (remove (p.connector.manager address) k) fun _ => [] := by
  apply circulates_get_bind_at
  intro pool w
  cases hlower : pool.lower 1 with
  | ok pool' =>
      change Supplies (pool.idle ++ given) w.opened (pool'.idle ++ []) w.opened
      rw [lower_idle hlower, List.append_nil]
      exact .of_perm (.refl _) w.opened
  | error fault => exact breakDown_circulates fault given pool w

-- Of the connections that come back only those that are open are kept.
theorem release_circulates (k : Line σ) :
    Circulates Pool.idle (if k.isOpen then [k] else []) (release (p.connector.manager address) k)
      fun _ => [] := by
  intro pool w
  have hrun : release (p.connector.manager address) k pool w =
      if k.isOpen && !pool.closed && pool.mayKeep then ((.ok .one, pool.keep k), w)
      else remove (p.connector.manager address) k pool w :=
    release_run (p.connector.manager address) k pool w
  rw [hrun]
  by_cases hkept : (k.isOpen && !pool.closed && pool.mayKeep) = true
  · have hopen : k.isOpen = true := by
      rw [Bool.and_assoc, Bool.and_eq_true] at hkept
      exact hkept.1
    rw [if_pos hkept, if_pos hopen, List.append_nil]
    exact .refl _ w.opened
  · rw [if_neg hkept]
    exact remove_circulates p address k _ pool w

theorem cleanupAll_circulates (lines : List (Line σ)) :
    Circulates Pool.idle []
      (liftM (cleanupAll (p.connector.manager address) lines) :
        Action (StateM (World ω)) (Line σ) Unit)
      fun _ => [] := by
  apply circulates_lift
  induction lines with
  | nil => exact fun w => .refl [] w.opened
  | cons k rest ih => exact ih

-- A pool that is closed loses its connections.
theorem close_circulates :
    Circulates Pool.idle [] (close (p.connector.manager address)) fun _ => [] := by
  apply circulates_get_bind
  intro pool
  by_cases hclosed : pool.closed = true
  · rw [if_pos hclosed]
    exact circulates_lose rfl
  · rw [if_neg hclosed]
    have hshut : Circulates (ω := ω) Pool.idle [] (set pool.shut : Action _ (Line σ) _)
        fun _ => [] := circulates_set rfl
    apply circulates_bind hshut
    intro _
    cases hlower : pool.shut.lower pool.idle.length with
    | error fault => exact breakDown_circulates fault []
    | ok shut =>
        have hempty : shut.idle = [] := lower_idle hlower
        have hset : Circulates (ω := ω) Pool.idle [] (set shut : Action _ (Line σ) _)
            fun _ => [] := circulates_set hempty
        apply circulates_bind hset
        intro _
        apply circulates_bind (cleanupAll_circulates p address pool.idle)
        intro _
        exact circulates_lose rfl

end Pool

end DocWire
