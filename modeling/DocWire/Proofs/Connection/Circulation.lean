import DocWire.Proofs.Connection.Lease
import DocWire.Proofs.Pool.Lending

namespace DocWire

variable {ω σ : Type}

-- The connections that are idle in a pool of the directory.
def PoolDirectory.idle (d : PoolDirectory (Line σ)) : List (Line σ) :=
  d.pools.flatMap fun entry => entry.pool.idle

-- The connection on loan.
def Lease.lines (l : Lease (Line σ)) : List (Line σ) :=
  l.connection.toList

namespace PoolDirectory

variable {α : Type}

-- The connections of one pool among those of all others, with what goes in or out beside them.
theorem split_perm (before own after beside : List (Line σ)) :
    (before ++ (own ++ after) ++ beside).Perm (own ++ beside ++ (before ++ after)) := by
  have hfront := (List.perm_append_comm_assoc before own after).append_right beside
  rw [List.append_assoc own] at hfront
  rw [List.append_assoc own beside]
  exact hfront.trans (List.perm_append_comm.append_left own)

theorem idle_split {d : PoolDirectory (Line σ)} {place : Nat} {entry : AddressPool (Line σ)}
    (h : d.pools[place]? = some entry) :
    ∃ before after : List (Line σ), d.idle = before ++ (entry.pool.idle ++ after) ∧
      ∀ pool, ({ d with pools := d.pools.set place { entry with pool := pool } } :
        PoolDirectory (Line σ)).idle = before ++ (pool.idle ++ after) := by
  obtain ⟨hplace, hentry⟩ := List.getElem?_eq_some_iff.mp h
  refine ⟨(d.pools.take place).flatMap fun entry => entry.pool.idle,
    (d.pools.drop (place + 1)).flatMap fun entry => entry.pool.idle, ?_, fun pool => ?_⟩
  · have hsplit : d.pools = d.pools.take place ++ entry :: d.pools.drop (place + 1) := by
      rw [← hentry, List.getElem_cons_drop, List.take_append_drop]
    have hidle := congrArg (List.flatMap fun entry => entry.pool.idle) hsplit
    rw [List.flatMap_append, List.flatMap_cons] at hidle
    exact hidle
  · unfold idle
    rw [List.set_eq_take_append_cons_drop, if_pos hplace, List.flatMap_append, List.flatMap_cons]

theorem onPool_circulates {given : List (Line σ)} {out : α → List (Line σ)} (place : Nat)
    {use : AddressPool (Line σ) → Pool.Action (StateM (World ω)) (Line σ) α}
    (huse : ∀ entry, Circulates Pool.idle given (use entry) out) :
    Circulates idle given (onPool place use) fun outcome => outcome.elim [] out := by
  apply circulates_get_bind_at
  intro d w
  cases hentry : d.pools[place]? with
  | none =>
      have hlost : Circulates (ω := ω) idle given (pure none)
          fun outcome : Option α => outcome.elim [] out := circulates_lose rfl
      exact hlost d w
  | some entry =>
      obtain ⟨before, after, hidle, hset⟩ := idle_split hentry
      have hpool := (huse entry entry.pool w).append_right (before ++ after)
      have hleft := split_perm before entry.pool.idle after given
      have hright := split_perm before (use entry entry.pool w).1.2.idle after
        (out (use entry entry.pool w).1.1)
      rw [← hidle] at hleft
      rw [← hset] at hright
      exact (hpool.perm_left hleft).perm_right hright.symm

theorem add_idle (d : PoolDirectory (Line σ)) (address : ServerAddress) (pool : Pool (Line σ)) :
    (d.add address pool).idle = d.idle ++ pool.idle := by
  unfold add idle
  rw [List.flatMap_append, List.flatMap_singleton]

theorem poolFor_circulates (p : Outside ω σ) (address : ServerAddress) :
    Circulates idle [] (poolFor p.connector address) fun _ => [] := by
  apply circulates_get_bind_at
  intro d w
  cases hfind : d.find? address with
  | some place => exact .refl _ w.opened
  | none =>
      have hstart := Pool.start_supplies p address (d.configFor address) w
      dsimp only
      rw [bind_state, lift_state]
      rcases hrun : Pool.start (p.connector.manager address) (d.configFor address) w with
        ⟨outcome, w'⟩
      rw [hrun] at hstart
      have hbeside := hstart.append_left d.idle
      cases outcome with
      | error e => exact hbeside
      | ok pool =>
          have hadded : (d.add address pool).idle ++ [] = d.idle ++ pool.idle := by
            rw [List.append_nil, add_idle]
          exact hbeside.perm_right (.of_eq hadded.symm)

-- What comes out with a lease, if there is one.
def leased {ε : Type} (outcome : Except ε (Lease (Line σ))) : List (Line σ) :=
  outcome.toOption.elim [] Lease.lines

theorem now_circulates (p : Outside ω σ) (given : List (Line σ)) :
    Circulates idle given
      (liftM p.connector.channel.now : PoolDirectory.Action (StateM (World ω)) (Line σ) Span)
      fun _ => given := by
  apply circulates_lift
  intro w
  exact .refl given w.opened

theorem lease_circulates (p : Outside ω σ) (address : ServerAddress) :
    Circulates idle [] (lease p.connector address) leased := by
  apply circulates_bind (poolFor_circulates p address)
  intro outcome
  cases outcome with
  | error e => exact circulates_pure _ leased
  | ok place =>
      apply circulates_bind (now_circulates p [])
      intro now
      apply circulates_bind (onPool_circulates place fun _ => Pool.acquire_circulates p address now)
      intro lent
      cases lent with
      | none =>
          apply circulates_get_bind
          intro d
          exact circulates_pure _ leased
      | some outcome =>
          cases outcome with
          | ok k => exact circulates_pure _ leased
          | error e => exact circulates_pure _ leased

theorem connect_circulates (p : Outside ω σ) (server : ServerDescription) :
    Circulates idle [] ((source p.connector).connect server) leased := by
  apply circulates_bind (lease_circulates p server.address)
  intro outcome
  cases outcome with
  | ok l => exact circulates_pure _ leased
  | error e => exact circulates_pure _ leased

-- A lease comes with a connection on loan.
def OnLoan {ε : Type} (outcome : Except ε (Lease (Line σ))) : Prop :=
  ∀ l, outcome = .ok l → ∃ k, l = ⟨l.place, l.address, some k⟩

theorem lease_onLoan (p : Outside ω σ) (address : ServerAddress) :
    Returns OnLoan (lease p.connector address) := by
  apply returns_bind
  intro outcome
  cases outcome with
  | error e =>
      apply returns_pure
      intro l h
      cases h
  | ok place =>
      apply returns_bind
      intro now
      apply returns_bind
      intro lent
      cases lent with
      | none =>
          apply returns_bind
          intro d
          apply returns_pure
          intro l h
          cases h
      | some outcome =>
          cases outcome with
          | ok k =>
              apply returns_pure
              intro l h
              cases h
              exact ⟨k, rfl⟩
          | error e =>
              apply returns_pure
              intro l h
              cases h

theorem connect_onLoan (p : Outside ω σ) (server : ServerDescription) :
    Returns OnLoan ((source p.connector).connect server) := by
  refine returns_bind_of (lease_onLoan p server.address) fun outcome houtcome => ?_
  cases outcome with
  | ok l =>
      apply returns_pure
      intro l' h
      cases h
      exact houtcome l rfl
  | error e =>
      apply returns_pure
      intro l h
      cases h

theorem closeEach_supplies (p : Outside ω σ) (pools : List (AddressPool (Line σ))) (w : World ω) :
    Supplies (pools.flatMap fun entry => entry.pool.idle) w.opened
      ((closeEach p.connector pools w).1.flatMap fun entry => entry.pool.idle)
      (closeEach p.connector pools w).2.opened := by
  induction pools generalizing w with
  | nil => exact .refl _ w.opened
  | cons entry rest ih =>
      have hone := Pool.close_circulates p entry.address entry.pool w
      rw [List.append_nil, List.append_nil] at hone
      have hrest := ih (Pool.close (p.connector.manager entry.address) entry.pool w).2
      exact (hone.append_right _).trans (hrest.append_left _)

theorem close_circulates (p : Outside ω σ) :
    Circulates idle [] (close p.connector) fun _ => [] := by
  apply circulates_get_bind_at
  intro d w
  rw [bind_state, lift_state]
  exact (closeEach_supplies p d.pools w).append_right []

end PoolDirectory

end DocWire
