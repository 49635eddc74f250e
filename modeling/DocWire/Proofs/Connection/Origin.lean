import DocWire.Proofs.Connection.Loans
import Mathlib.Data.List.Perm.Basic
import Mathlib.Data.Multiset.OrderedMonoid
import Mathlib.Data.Multiset.Range

namespace DocWire

variable {ω κ : Type}

-- Of the numbers that are in use afterwards, each was in use before, or else is one of those that
-- were given out in the meantime, in a row.
def Issues (before : Multiset Nat) (opened : Nat) (after : Multiset Nat) (opened' : Nat) : Prop :=
  ∃ count, opened' = opened + count ∧ after ≤ before + (List.range' opened count : Multiset Nat)

-- Numbers that have been given out and that are in use once at most.
structure Distinct (numbers : Multiset Nat) (opened : Nat) : Prop where
  nodup : numbers.Nodup
  below : ∀ n ∈ numbers, n < opened

namespace Issues

variable {before middle after : Multiset Nat} {opened opened' opened'' : Nat}

theorem of_le (h : after ≤ before) (opened : Nat) : Issues before opened after opened := by
  refine ⟨0, rfl, ?_⟩
  rw [List.range'_zero, Multiset.coe_nil, add_zero]
  exact h

theorem refl (before : Multiset Nat) (opened : Nat) : Issues before opened before opened :=
  of_le le_rfl opened

-- Numbers that were given out and are not in use.
theorem skip (before : Multiset Nat) (opened count : Nat) :
    Issues before opened before (opened + count) :=
  ⟨count, rfl, Multiset.le_add_right before _⟩

theorem next (opened count : Nat) :
    Issues 0 opened (List.range' opened count : Multiset Nat) (opened + count) := by
  refine ⟨count, rfl, ?_⟩
  rw [zero_add]

theorem trans (h : Issues before opened middle opened') (h' : Issues middle opened' after opened'') :
    Issues before opened after opened'' := by
  obtain ⟨first, rfl, hfirst⟩ := h
  obtain ⟨second, rfl, hsecond⟩ := h'
  refine ⟨first + second, Nat.add_assoc _ _ _, ?_⟩
  calc
    after ≤ middle + (List.range' (opened + first) second : Multiset Nat) := hsecond
    _ ≤ before + (List.range' opened first : Multiset Nat) +
          (List.range' (opened + first) second : Multiset Nat) := by gcongr
    _ = before + (List.range' opened (first + second) : Multiset Nat) := by
      rw [add_assoc, Multiset.coe_add, List.range'_append_1]

theorem add_right (h : Issues before opened after opened') (beside : Multiset Nat) :
    Issues (before + beside) opened (after + beside) opened' := by
  obtain ⟨count, hopened, hle⟩ := h
  refine ⟨count, hopened, ?_⟩
  calc
    after + beside ≤ before + (List.range' opened count : Multiset Nat) + beside := by gcongr
    _ = before + beside + (List.range' opened count : Multiset Nat) := by ac_rfl

theorem opened_le (h : Issues before opened after opened') : opened ≤ opened' := by
  obtain ⟨count, rfl, _⟩ := h
  exact Nat.le_add_right opened count

theorem distinct (h : Issues before opened after opened') (hbefore : Distinct before opened) :
    Distinct after opened' := by
  obtain ⟨count, rfl, hle⟩ := h
  constructor
  case nodup =>
    apply Multiset.nodup_of_le hle
    refine (Multiset.nodup_add).mpr
      ⟨hbefore.nodup, Multiset.coe_nodup.mpr List.nodup_range', ?_⟩
    refine Multiset.disjoint_left.mpr fun {n} hold hnew => ?_
    have hlow := (List.mem_range'_1.mp (Multiset.mem_coe.mp hnew)).1
    exact absurd (hbefore.below n hold) (Nat.not_lt.mpr hlow)
  case below =>
    intro n hn
    rcases Multiset.mem_add.mp (Multiset.mem_of_le hle hn) with hold | hnew
    · exact Nat.lt_add_right count (hbefore.below n hold)
    · exact (List.mem_range'_1.mp (Multiset.mem_coe.mp hnew)).2

end Issues

-- A connection with the address for which it was opened, whatever has been done with it since.
structure Addressed (κ : Type) where
  address : ServerAddress
  content : κ

def Addressed.onContent {α : Type} (use : StateT κ (StateM ω) α) :
    StateT (Addressed κ) (StateM ω) α := fun r w =>
  match use r.content w with
  | ((a, content), w') => ((a, ⟨r.address, content⟩), w')

def Channel.addressed (channel : Channel (StateM ω) κ) : Channel (StateM ω) (Addressed κ) where
  address r := channel.address r.content
  isOpen r := channel.isOpen r.content
  send bytes := Addressed.onContent (channel.send bytes)
  receive limit := Addressed.onContent (channel.receive limit)
  close := Addressed.onContent channel.close
  invalidate := Addressed.onContent channel.invalidate
  now := channel.now

-- A connector that remembers what it opened each connection for.
def Connector.addressed (c : Connector (StateM ω) κ) : Connector (StateM ω) (Addressed κ) where
  channel := c.channel.addressed
  connect address := fun w =>
    match c.connect address w with
    | (.ok k, w') => (.ok ⟨address, k⟩, w')
    | (.error e, w') => (.error e, w')

-- A connector that returns open connections or fails.
def Connector.Dependable (c : Connector (StateM ω) κ) : Prop :=
  ∀ address w k w', c.connect address w = (.ok k, w') → c.channel.isOpen k = true

-- A connection that may be lent to one who asks for an address: it was opened for that address, as
-- one of those that count, and is open.
structure Connector.Serves (c : Connector (StateM ω) κ) (address : ServerAddress) (since : Nat)
    (r : Numbered (Addressed κ)) : Prop where
  address_eq : r.content.address = address
  isOpen : c.channel.isOpen r.content.content = true
  recent : since ≤ r.number

namespace Connector

variable {c : Connector (StateM ω) κ} {address : ServerAddress} {since : Nat}

theorem addressed_keeps (c : Connector (StateM ω) κ) :
    c.addressed.booked.channel.Keeps fun r b => (r.number, r.content.address, b.created) :=
  ⟨fun _ _ _ => rfl, fun _ _ _ => rfl, fun _ _ => rfl⟩

theorem create_serves (hc : c.Dependable) {b b' : Books ω} {r : Numbered (Addressed κ)}
    (hsince : since ≤ b.created)
    (h : (c.addressed.manager address).booked.create.run b = (.ok r, b')) :
    c.Serves address since r := by
  rw [Manager.booked_create, create_run, addressed] at h
  dsimp only at h
  generalize hconnect : c.connect address b.outside = outcome at h
  obtain ⟨outcome, outside⟩ := outcome
  cases outcome with
  | error e => cases h
  | ok k =>
      cases h
      exact ⟨rfl, hc address b.outside k outside hconnect, hsince⟩

theorem createMany_serves (hc : c.Dependable) {count : Nat} {b b' : Books ω}
    {rs : List (Numbered (Addressed κ))} (hsince : since ≤ b.created)
    (h : (Pool.createMany (c.addressed.manager address).booked count).run b = (.ok rs, b')) :
    ∀ r ∈ rs, c.Serves address since r := by
  induction count generalizing b rs with
  | zero =>
      cases h
      exact nofun
  | succ count ih =>
      rw [Pool.createMany_succ_run] at h
      generalize hcreate : (c.addressed.manager address).booked.create.run b = outcome at h
      obtain ⟨outcome, middle⟩ := outcome
      cases outcome with
      | error e => cases h
      | ok r =>
          obtain ⟨_, outside, rfl⟩ := Manager.booked_create_ok _ hcreate
          dsimp only at h
          generalize hrest : (Pool.createMany (c.addressed.manager address).booked count).run
            ⟨outside, b.created + 1, b.cleaned⟩ = outcome at h
          obtain ⟨outcome, last⟩ := outcome
          cases outcome with
          | error e => cases h
          | ok rest =>
              cases h
              have hothers := ih (Nat.le_succ_of_le hsince) hrest
              exact List.forall_mem_cons.mpr ⟨create_serves hc hsince hcreate, hothers⟩

theorem start_serves (hc : c.Dependable) {config : PoolConfig} {b b' : Books ω}
    {pool : Pool (Numbered (Addressed κ))} (hsince : since ≤ b.created)
    (h : Pool.start (c.addressed.manager address).booked config b = (.ok pool, b')) :
    ∀ r ∈ pool.idle, c.Serves address since r := by
  rw [Pool.start_run] at h
  generalize hmany : (Pool.createMany (c.addressed.manager address).booked config.minSize).run b =
    outcome at h
  obtain ⟨outcome, books⟩ := outcome
  cases outcome with
  | error e => cases h
  | ok idle =>
      cases h
      exact createMany_serves hc hsince hmany

end Connector

namespace Pool

variable {α ε : Type}

-- The numbers of what is idle in a pool.
def stock (p : Pool (Numbered α)) : Multiset Nat :=
  (p.idle.map Numbered.number : List Nat)

-- The number of what has been borrowed.
def drawn (outcome : Except (PoolError ε) (Numbered α)) : Multiset Nat :=
  outcome.toOption.elim 0 fun r => {r.number}

@[simp]
theorem drawn_ok (r : Numbered α) : drawn (.ok r : Except (PoolError ε) _) = {r.number} :=
  rfl

@[simp]
theorem drawn_error (e : PoolError ε) : drawn (.error e : Except _ (Numbered α)) = 0 :=
  rfl

-- What comes of borrowing: something that was idle, or something new, and nothing else is touched.
structure Draws (manager : Manager (StateM ω) α ε) (p : Pool (Numbered α)) (b : Books ω)
    (outcome : Except (PoolError ε) (Numbered α)) (p' : Pool (Numbered α)) (b' : Books ω) :
    Prop where
  closed_eq : p'.closed = p.closed
  idle : ∀ r ∈ p'.idle, r ∈ p.idle
  issues : Issues p.stock b.created (p'.stock + drawn outcome) b'.created
  origin : ∀ r, outcome = .ok r → p.closed = false ∧
    (r ∈ p.idle ∨ manager.booked.create.run b = (.ok r, b'))

theorem acquire_draws (manager : Manager (StateM ω) α ε) (now : Span) (p : Pool (Numbered α))
    (b : Books ω) :
    p.Draws manager b (acquire manager.booked now p b).1.1 (acquire manager.booked now p b).1.2
      (acquire manager.booked now p b).2 := by
  have hborrows := acquireWithin_borrows manager.booked now p.config.maxWait p b
  change Borrows manager.booked p b (acquire manager.booked now p b).1.1
    (acquire manager.booked now p b).1.2 (acquire manager.booked now p b).2 at hborrows
  generalize acquire manager.booked now p b = outcome at hborrows ⊢
  obtain ⟨⟨outcome, p'⟩, b'⟩ := outcome
  dsimp only at hborrows ⊢
  cases hborrows with
  | @reused r rest hopen hidle =>
      have hstock : p.stock = { p with idle := rest }.stock + drawn (.ok r : Except (PoolError ε) _) := by
        simp [stock, hidle, add_comm]
      refine ⟨rfl, fun q hq => ?_, ?_, fun q hq => ?_⟩
      · rw [hidle]
        exact List.mem_cons_of_mem r hq
      · rw [← hstock]
        exact .refl _ _
      · cases hq
        rw [hidle]
        exact ⟨hopen, .inl List.mem_cons_self⟩
  | @created r b' hopen hidle hroom hcreate =>
      obtain ⟨hnumber, outside, rfl⟩ := manager.booked_create_ok hcreate
      refine ⟨rfl, fun q hq => hq, ?_, fun q hq => ?_⟩
      · have hnew := (Issues.next b.created 1).add_right p.stock
        change Issues p.stock b.created (p.stock + drawn (.ok r)) (b.created + 1)
        rw [drawn_ok, hnumber, add_comm]
        simpa using hnew
      · cases hq
        exact ⟨hopen, .inr hcreate⟩
  | failed hidle hroom hcreate =>
      obtain ⟨outside, rfl⟩ := manager.booked_create_error hcreate
      exact ⟨rfl, fun q hq => hq, .of_le (by simp) _, nofun⟩
  | refused he => exact ⟨rfl, fun q hq => hq, .of_le (by simp) _, nofun⟩

theorem start_issues (manager : Manager (StateM ω) α ε) {config : PoolConfig} {b b' : Books ω}
    {pool : Pool (Numbered α)} (h : start manager.booked config b = (.ok pool, b')) :
    Issues 0 b.created pool.stock b'.created := by
  obtain ⟨idle, outside, rfl, hnumbers, rfl⟩ := manager.booked_start_ok h
  have hstock : (ofIdle config idle).stock = (List.range' b.created config.minSize : Multiset Nat) :=
    congrArg _ hnumbers
  rw [hstock]
  exact .next b.created config.minSize

end Pool

end DocWire
