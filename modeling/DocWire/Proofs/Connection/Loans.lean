import DocWire.Proofs.Connection.Lease
import DocWire.Proofs.Pool.Books

namespace DocWire

variable {ω κ : Type}

-- Uses what goes by a number.
def Numbered.onContent {α : Type} (use : StateT κ (StateM ω) α) :
    StateT (Numbered κ) (StateM (Books ω)) α := fun r b =>
  match use r.content b.outside with
  | ((a, content), outside) => ((a, ⟨r.number, content⟩), { b with outside := outside })

-- A channel that keeps books of the connections that are closed.
def Channel.booked (channel : Channel (StateM ω) κ) : Channel (StateM (Books ω)) (Numbered κ) where
  address r := channel.address r.content
  isOpen r := channel.isOpen r.content
  send bytes := Numbered.onContent (channel.send bytes)
  receive limit := Numbered.onContent (channel.receive limit)
  close := fun r b =>
    match channel.close r.content b.outside with
    | ((_, content), outside) =>
      (((), ⟨r.number, content⟩), { b with outside := outside, cleaned := b.cleaned ++ [r.number] })
  invalidate := Numbered.onContent channel.invalidate
  now := fun b =>
    match channel.now b.outside with
    | (span, outside) => (span, { b with outside := outside })

-- What neither changes the number of a connection nor disposes of any.
def Numbered.Keeps {α : Type} (use : StateT (Numbered κ) (StateM (Books ω)) α) : Prop :=
  ∀ r b, (use r b).1.2.number = r.number ∧ (use r b).2.cleaned = b.cleaned

-- Whatever can be seen of a connection and of the world, and no use of the channel changes.
structure Channel.Keeps {β : Type} (channel : Channel (StateM ω) κ) (view : κ → ω → β) : Prop where
  send : ∀ bytes k w, view (channel.send bytes k w).1.2 (channel.send bytes k w).2 = view k w
  receive : ∀ limit k w,
    view (channel.receive limit k w).1.2 (channel.receive limit k w).2 = view k w
  invalidate : ∀ k w, view (channel.invalidate k w).1.2 (channel.invalidate k w).2 = view k w

namespace Exchange

variable {β : Type} {channel : Channel (StateM ω) κ} {view : κ → ω → β} (x : Exchange)

theorem settle_view (h : channel.Keeps view) (response : Except CommandError Document) (k : κ)
    (w : ω) : view (settle channel response k w).1.2 (settle channel response k w).2 = view k w := by
  unfold settle
  cases response with
  | ok d => rfl
  | error e =>
      dsimp only
      split
      · rfl
      · exact h.invalidate k w

theorem converse_view (h : channel.Keeps view) (bytes : ByteArray) (k : κ) (w : ω) :
    view (x.converse channel bytes k w).1.2 (x.converse channel bytes k w).2 = view k w := by
  have hsend := h.send bytes k w
  rw [converse, bind_state]
  generalize channel.send bytes k w = outcome at hsend ⊢
  obtain ⟨⟨sent, k'⟩, w'⟩ := outcome
  cases sent with
  | error e => exact hsend
  | ok u =>
      have hreceive := h.receive x.replySettings.maxMessageSize k' w'
      dsimp only
      rw [bind_state]
      generalize channel.receive x.replySettings.maxMessageSize k' w' = outcome at hreceive ⊢
      obtain ⟨⟨received, k''⟩, w''⟩ := outcome
      cases received with
      | error e => exact hreceive.trans hsend
      | ok reply => exact hreceive.trans hsend

theorem roundTrip_view (h : channel.Keeps view) (k : κ) (w : ω) :
    view (x.roundTrip channel k w).1.2 (x.roundTrip channel k w).2 = view k w := by
  unfold roundTrip
  cases x.request with
  | error e => rfl
  | ok bytes =>
      have hconverse := x.converse_view h bytes k w
      dsimp only
      rw [bind_state, bind_state]
      exact (settle_view h _ _ _).trans hconverse

-- A connection that breaks down is still there to be handed back.
theorem roundTrip_keeps (channel : Channel (StateM ω) κ) :
    Numbered.Keeps (x.roundTrip channel.booked) := by
  have hkeeps : channel.booked.Keeps fun r b => (r.number, b.cleaned) :=
    ⟨fun _ _ _ => rfl, fun _ _ _ => rfl, fun _ _ => rfl⟩
  intro r b
  exact Prod.mk.inj (x.roundTrip_view hkeeps r b)

end Exchange

-- A connector whose connections are numbered in the order in which they are opened.
def Connector.booked (c : Connector (StateM ω) κ) : Connector (StateM (Books ω)) (Numbered κ) where
  channel := c.channel.booked
  connect address := fun b =>
    match c.connect address b.outside with
    | (.ok k, outside) =>
      (.ok ⟨b.created, k⟩, { b with outside := outside, created := b.created + 1 })
    | (.error e, outside) => (.error e, { b with outside := outside })

-- To keep books of connections is to keep books of what a pool does with them.
theorem Connector.booked_manager (c : Connector (StateM ω) κ) (address : ServerAddress) :
    c.booked.manager address = (c.manager address).booked := by
  have hcreate : (c.booked.manager address).create = (c.manager address).booked.create := by
    funext b
    change (c.booked.manager address).create.run b = (c.manager address).booked.create.run b
    rw [create_run, Manager.booked_create, create_run, booked]
    dsimp only
    rcases c.connect address b.outside with ⟨outcome, outside⟩
    cases outcome with
    | ok k => rfl
    | error e => rfl
  unfold manager Manager.booked at hcreate ⊢
  rw [Manager.mk.injEq]
  exact ⟨hcreate, rfl, rfl⟩

namespace Pool

section

variable {ρ ε : Type}

-- So many instances are on loan, for all that the pool knows.
def Lends (p : Pool ρ) (count : Nat) : Prop :=
  p.total = p.idle.length + count

-- A pool parts with an instance: the one that has been idle for longest, or else a new one.
inductive HandsOut (p : Pool ρ) : ρ → Pool ρ → Prop where
  | reused {r : ρ} {rest : List ρ} (hidle : p.idle = r :: rest) : HandsOut p r { p with idle := rest }
  | created {r : ρ} (hidle : p.idle = []) : HandsOut p r { p with total := p.total + 1 }

-- A pool gets an instance back, once: it keeps it if that is sound and there is room, and otherwise
-- disposes of it.
inductive TakesBack (p : Pool (Numbered ρ)) (sound : Bool) (r : Numbered ρ) (cleaned : List Nat) :
    Pool (Numbered ρ) → List Nat → Prop where
  | kept (hsound : sound = true) (hopen : p.closed = false)
      (hroom : ∀ most, p.config.maxIdle = some most → p.idle.length < most) :
      TakesBack p sound r cleaned (p.keep r) cleaned
  | discarded (h : sound = false ∨ p.closed = true ∨
        ∃ most, p.config.maxIdle = some most ∧ most ≤ p.idle.length) :
      TakesBack p sound r cleaned p.shrink (cleaned ++ [r.number])

variable {p p' : Pool ρ} {count : Nat}

theorem Lends.active_eq (h : p.Lends count) : p.active = count := by
  unfold Lends at h
  unfold active
  omega

theorem Lends.idle_le_total (h : p.Lends count) : p.idle.length ≤ p.total := by
  unfold Lends at h
  omega

theorem ofIdle_lends (config : PoolConfig) (idle : List ρ) : (ofIdle config idle).Lends 0 :=
  rfl

theorem HandsOut.lends {r : ρ} (h : p.HandsOut r p') (hp : p.Lends count) :
    p'.Lends (count + 1) := by
  unfold Lends at hp ⊢
  cases h with
  | reused hidle =>
      rw [hidle, List.length_cons] at hp
      dsimp only
      omega
  | created hidle =>
      dsimp only
      omega

theorem HandsOut.closed_eq {r : ρ} (h : p.HandsOut r p') : p'.closed = p.closed := by
  cases h with
  | reused hidle => rfl
  | created hidle => rfl

theorem full_of_not_mayKeep (h : p.mayKeep = false) :
    ∃ most, p.config.maxIdle = some most ∧ most ≤ p.idle.length := by
  unfold mayKeep at h
  cases hmost : p.config.maxIdle with
  | none =>
      rw [hmost] at h
      cases h
  | some most =>
      rw [hmost] at h
      exact ⟨most, rfl, Nat.not_lt.mp (of_decide_eq_false h)⟩

theorem shrink_lends (hp : p.Lends (count + 1)) : p.shrink.Lends count := by
  unfold Lends at hp ⊢
  unfold shrink
  dsimp only
  omega

theorem TakesBack.lends {p p' : Pool (Numbered ρ)} {sound : Bool} {r : Numbered ρ}
    {cleaned cleaned' : List Nat} (h : p.TakesBack sound r cleaned p' cleaned')
    (hp : p.Lends (count + 1)) : p'.Lends count := by
  cases h with
  | kept hsound hopen hroom =>
      unfold Lends at hp ⊢
      unfold keep
      rw [List.length_append, List.length_singleton]
      dsimp only
      omega
  | discarded _ => exact shrink_lends hp

theorem Lends.one_le_total (h : p.Lends (count + 1)) : 1 ≤ p.total := by
  unfold Lends at h
  omega

theorem remove_lends (manager : Manager (StateM ω) ρ ε) (hp : p.Lends (count + 1)) (r : ρ) (w : ω) :
    (remove manager r p w).1.2.Lends count := by
  rw [remove_run manager hp.one_le_total]
  exact shrink_lends hp

theorem close_lends (manager : Manager (StateM ω) ρ ε) (hp : p.Lends count) (w : ω) :
    (close manager p w).1.2.Lends count := by
  rw [close_run manager hp.idle_le_total]
  split
  · exact hp
  · unfold Lends at hp ⊢
    unfold shut
    dsimp only [List.length_nil]
    omega

-- What comes of borrowing. A pool that lends nothing stays as it is, and none disposes of anything.
inductive Gives (p : Pool ρ) : Except (PoolError ε) ρ → Pool ρ → Prop where
  | lent {r : ρ} {p' : Pool ρ} (hopen : p.closed = false) (hout : p.HandsOut r p') :
      Gives p (.ok r) p'
  | refused {e : PoolError ε} : Gives p (.error e) p

end

theorem acquire_gives {α ε : Type} (manager : Manager (StateM ω) α ε) (now : Span)
    (p : Pool (Numbered α)) (b : Books ω) :
    p.Gives (acquire manager.booked now p b).1.1 (acquire manager.booked now p b).1.2 ∧
      (acquire manager.booked now p b).2.cleaned = b.cleaned := by
  have hacquire : acquire manager.booked now p b =
      acquireWithin manager.booked now p.config.maxWait p b := rfl
  have hborrows := acquireWithin_borrows manager.booked now p.config.maxWait p b
  rw [← hacquire] at hborrows
  rcases hrun : acquire manager.booked now p b with ⟨⟨outcome, p'⟩, b'⟩
  rw [hrun] at hborrows
  dsimp only at hborrows ⊢
  cases hborrows with
  | reused hopen hidle => exact ⟨.lent hopen (.reused hidle), rfl⟩
  | created hopen hidle hroom hcreate =>
      obtain ⟨_, outside, rfl⟩ := manager.booked_create_ok hcreate
      exact ⟨.lent hopen (.created hidle), rfl⟩
  | failed hidle hroom hcreate =>
      obtain ⟨outside, rfl⟩ := manager.booked_create_error hcreate
      exact ⟨.refused, rfl⟩
  | refused he => exact ⟨.refused, rfl⟩

theorem booked_release_run (c : Connector (StateM ω) κ) (address : ServerAddress)
    (r : Numbered κ) (p : Pool (Numbered κ)) (b : Books ω) :
    release (c.booked.manager address) r p b =
      if c.channel.isOpen r.content && !p.closed && p.mayKeep then ((.ok .one, p.keep r), b)
      else remove (c.booked.manager address) r p b :=
  release_run (c.booked.manager address) r p b

theorem release_takesBack (c : Connector (StateM ω) κ) (address : ServerAddress)
    {p : Pool (Numbered κ)} (hp : 1 ≤ p.total) (r : Numbered κ) (b : Books ω) :
    p.TakesBack (c.channel.isOpen r.content) r b.cleaned
      (release (c.booked.manager address) r p b).1.2
      (release (c.booked.manager address) r p b).2.cleaned := by
  rw [booked_release_run]
  split
  · next hkept =>
    simp only [Bool.and_eq_true, Bool.not_eq_true'] at hkept
    exact .kept hkept.1.1 hkept.1.2 (p.mayKeep_iff.mp hkept.2)
  · next hlost =>
    rw [remove_run _ hp, c.booked_manager]
    obtain ⟨outside, hcleanup⟩ := (c.manager address).booked_cleanup r b
    rw [hcleanup]
    refine .discarded ?_
    rw [Bool.not_eq_true, Bool.and_eq_false_iff, Bool.and_eq_false_iff, or_assoc,
      Bool.not_eq_false'] at hlost
    exact hlost.imp_right (Or.imp_right full_of_not_mayKeep)

-- Nothing is opened for what comes back.
theorem remove_created (c : Connector (StateM ω) κ) (address : ServerAddress)
    {p : Pool (Numbered κ)} (hp : 1 ≤ p.total) (r : Numbered κ) (b : Books ω) :
    (remove (c.booked.manager address) r p b).2.created = b.created := by
  rw [remove_run _ hp]
  rfl

theorem release_created (c : Connector (StateM ω) κ) (address : ServerAddress)
    {p : Pool (Numbered κ)} (hp : 1 ≤ p.total) (r : Numbered κ) (b : Books ω) :
    (release (c.booked.manager address) r p b).2.created = b.created := by
  rw [booked_release_run]
  split
  · rfl
  · exact remove_created c address hp r b

end Pool

-- Whether a lease holds a connection from the pool at a place.
def Lease.holds (l : Lease κ) (place : Nat) : Bool :=
  l.place = place && l.connection.isSome

-- How many it holds, which is one at most.
def Lease.held (l : Lease κ) (place : Nat) : Nat :=
  if l.holds place then 1 else 0

namespace Lease

theorem held_self (place : Nat) (address : ServerAddress) (k : κ) :
    (Lease.mk place address (some k)).held place = 1 := by
  simp [held, holds]

theorem held_other {l : Lease κ} {other : Nat} (h : other ≠ l.place) : l.held other = 0 := by
  simp [held, holds, Ne.symm h]

theorem held_of_none {l : Lease κ} (h : l.connection = none) (other : Nat) : l.held other = 0 := by
  simp [held, holds, h]

end Lease

namespace PoolDirectory

-- The directory with another pool at a place.
def withPool (d : PoolDirectory κ) (place : Nat) (entry : AddressPool κ) (pool : Pool κ) :
    PoolDirectory κ :=
  { d with pools := d.pools.set place { entry with pool := pool } }

-- The count of the connections on loan from the pool at a place.
def onLoan (d : PoolDirectory κ) (place : Nat) : Nat :=
  d.pools[place]?.elim 0 fun entry => entry.pool.active

-- Each pool lends as many connections as are held from its place.
structure Accounts (d : PoolDirectory κ) (held : Nat → Nat) : Prop where
  lends : ∀ (place : Nat) (entry : AddressPool κ), d.pools[place]? = some entry →
    entry.pool.Lends (held place)
  nowhere : ∀ place : Nat, d.pools[place]? = none → held place = 0

-- A directory to which a pool may have been added from which nothing is on loan.
inductive Extends (d : PoolDirectory κ) : PoolDirectory κ → Prop where
  | same : Extends d d
  | added {address : ServerAddress} {pool : Pool κ} (hpool : pool.Lends 0) :
      Extends d (d.add address pool)

section

variable {d base : PoolDirectory κ} {held held' : Nat → Nat}

theorem Accounts.onLoan_eq (h : d.Accounts held) (place : Nat) : d.onLoan place = held place := by
  unfold onLoan
  cases hentry : d.pools[place]? with
  | none => exact (h.nowhere place hentry).symm
  | some entry => exact (h.lends place entry hentry).active_eq

theorem ofConfig_accounts (config : PoolConfig) :
    (ofConfig config : PoolDirectory κ).Accounts fun _ => 0 where
  lends := fun _ _ hentry => nomatch hentry
  nowhere := fun _ _ => rfl

theorem Extends.accounts (h : d.Extends base) (hd : d.Accounts held) : base.Accounts held := by
  cases h with
  | same => exact hd
  | @added address pool hpool =>
      refine ⟨fun place entry hentry => ?_, fun place hnone => ?_⟩
      · change (d.pools ++ [⟨address, pool⟩])[place]? = some entry at hentry
        by_cases hplace : place < d.pools.length
        · rw [List.getElem?_append_left hplace] at hentry
          exact hd.lends place entry hentry
        · have hheld := hd.nowhere place (List.getElem?_eq_none (Nat.not_lt.mp hplace))
          rw [List.getElem?_append_right (Nat.not_lt.mp hplace)] at hentry
          have hsame := List.mem_singleton.mp (List.mem_of_getElem? hentry)
          rw [hheld, hsame]
          exact hpool
      · change (d.pools ++ [⟨address, pool⟩])[place]? = none at hnone
        rw [List.getElem?_eq_none_iff, List.length_append] at hnone
        exact hd.nowhere place (List.getElem?_eq_none (Nat.le_of_add_right_le hnone))

-- What changes at one place changes nowhere else.
theorem Accounts.withPool {place : Nat} {entry : AddressPool κ} {pool : Pool κ}
    (hd : d.Accounts held) (hentry : d.pools[place]? = some entry)
    (hpool : pool.Lends (held' place)) (hothers : ∀ other, other ≠ place → held' other = held other) :
    (d.withPool place entry pool).Accounts held' := by
  obtain ⟨hplace, _⟩ := List.getElem?_eq_some_iff.mp hentry
  refine ⟨fun other found hfound => ?_, fun other hnone => ?_⟩
  · by_cases hother : other = place
    · subst hother
      change (d.pools.set other _)[other]? = some found at hfound
      rw [List.getElem?_set_self hplace] at hfound
      cases hfound
      exact hpool
    · change (d.pools.set place _)[other]? = some found at hfound
      rw [List.getElem?_set_ne (Ne.symm hother)] at hfound
      rw [hothers other hother]
      exact hd.lends other found hfound
  · change (d.pools.set place _)[other]? = none at hnone
    rw [List.getElem?_eq_none_iff, List.length_set] at hnone
    have hother : other ≠ place := by omega
    rw [hothers other hother]
    exact hd.nowhere other (List.getElem?_eq_none hnone)

theorem withPool_self {place : Nat} {entry : AddressPool κ} (h : d.pools[place]? = some entry) :
    d.withPool place entry entry.pool = d := by
  obtain ⟨hplace, hentry⟩ := List.getElem?_eq_some_iff.mp h
  have hsame : d.pools.set place entry = d.pools := by
    rw [← hentry]
    exact List.set_getElem_self hplace
  unfold withPool
  rw [hsame]

theorem withPool_getElem {place : Nat} {entry : AddressPool κ}
    (h : d.pools[place]? = some entry) (pool : Pool κ) :
    (d.withPool place entry pool).pools[place]? = some { entry with pool := pool } :=
  List.getElem?_set_self (List.getElem?_eq_some_iff.mp h).1

theorem withPool_withPool (d : PoolDirectory κ) (place : Nat) (entry : AddressPool κ)
    (first second : Pool κ) :
    (d.withPool place entry first).withPool place { entry with pool := first } second =
      d.withPool place entry second := by
  unfold withPool
  rw [List.set_set]

theorem onPool_run {α : Type} (place : Nat)
    (use : AddressPool κ → Pool.Action (StateM ω) κ α) (w : ω) :
    onPool place use d w =
      match d.pools[place]? with
      | none => ((none, d), w)
      | some entry =>
        ((some (use entry entry.pool w).1.1, d.withPool place entry (use entry entry.pool w).1.2),
          (use entry entry.pool w).2) := by
  rw [onPool, bind_state, get_state]
  dsimp only
  cases d.pools[place]? with
  | none => rfl
  | some entry => rfl

theorem find?_some {address : ServerAddress} {place : Nat} (h : d.find? address = some place) :
    ∃ entry, d.pools[place]? = some entry ∧ entry.address = address ∧
      entry.pool.closed = false := by
  obtain ⟨hplace, hfound, _⟩ := List.findIdx?_eq_some_iff_getElem.mp h
  rw [Bool.and_eq_true, Bool.not_eq_true'] at hfound
  exact ⟨_, List.getElem?_eq_getElem hplace, of_decide_eq_true hfound.1, hfound.2⟩

theorem poolFor_run (c : Connector (StateM ω) κ) (address : ServerAddress) (w : ω) :
    poolFor c address d w =
      match d.find? address with
      | some place => ((.ok place, d), w)
      | none =>
        match Pool.start (c.manager address) (d.configFor address) w with
        | (.error e, w') => ((.error e, d), w')
        | (.ok pool, w') => ((.ok d.pools.length, d.add address pool), w') := by
  rw [poolFor, bind_state, get_state]
  dsimp only
  cases d.find? address with
  | some place => rfl
  | none =>
      dsimp only
      rw [bind_state, lift_state]
      rcases Pool.start (c.manager address) (d.configFor address) w with ⟨outcome, w'⟩
      cases outcome with
      | error e => rfl
      | ok pool => rfl

theorem lease_run (c : Connector (StateM ω) κ) (address : ServerAddress) (w : ω) :
    lease c address d w =
      match poolFor c address d w with
      | ((.error e, base), w') => ((.error e, base), w')
      | ((.ok place, base), w') =>
        match onPool place (fun _ => Pool.acquire (c.manager address) (c.channel.now w').1) base
            (c.channel.now w').2 with
        | ((some (.ok k), lent), w'') => ((.ok ⟨place, address, some k⟩, lent), w'')
        | ((some (.error e), lent), w'') => ((.error e, lent), w'')
        | ((none, lent), w'') => ((.error (.closed (lent.configFor address).name), lent), w'') := by
  rw [lease, bind_state]
  rcases poolFor c address d w with ⟨⟨outcome, base⟩, w'⟩
  cases outcome with
  | error e => rfl
  | ok place =>
      dsimp only
      rw [bind_state, lift_state, bind_state]
      rcases onPool place (fun _ => Pool.acquire (c.manager address) (c.channel.now w').1) base
        (c.channel.now w').2 with ⟨⟨outcome, lent⟩, w''⟩
      cases outcome with
      | none => rfl
      | some outcome =>
          cases outcome with
          | ok k => rfl
          | error e => rfl

-- What comes of asking for a lease. A pool is open when it lends.
inductive Leases (d : PoolDirectory κ) (address : ServerAddress) :
    Except (PoolError ConnectFault) (Lease κ) → PoolDirectory κ → Prop where
  | lent {base : PoolDirectory κ} {place : Nat} {entry : AddressPool κ} {k : κ} {pool : Pool κ}
      (hbase : d.Extends base) (hentry : base.pools[place]? = some entry)
      (haddress : entry.address = address) (hopen : entry.pool.closed = false)
      (hout : entry.pool.HandsOut k pool) :
      Leases d address (.ok ⟨place, address, some k⟩) (base.withPool place entry pool)
  | refused {base : PoolDirectory κ} {e : PoolError ConnectFault} (hbase : d.Extends base) :
      Leases d address (.error e) base

end

variable (c : Connector (StateM ω) κ)

theorem poolFor_extends (address : ServerAddress) (d : PoolDirectory (Numbered κ)) (b : Books ω) :
    d.Extends (poolFor c.booked address d b).1.2 ∧
      (poolFor c.booked address d b).2.cleaned = b.cleaned ∧
      ∀ place, (poolFor c.booked address d b).1.1 = .ok place →
        ∃ entry, (poolFor c.booked address d b).1.2.pools[place]? = some entry ∧
          entry.address = address := by
  rw [poolFor_run, c.booked_manager]
  cases hfind : d.find? address with
  | some place =>
      refine ⟨.same, rfl, fun found hfound => ?_⟩
      cases hfound
      obtain ⟨entry, hentry, haddress, _⟩ := find?_some hfind
      exact ⟨entry, hentry, haddress⟩
  | none =>
      dsimp only
      rcases hstart : Pool.start (c.manager address).booked (d.configFor address) b with
        ⟨outcome, b'⟩
      cases outcome with
      | error e =>
          obtain ⟨made, outside, rfl⟩ := (c.manager address).booked_start_error hstart
          exact ⟨.same, rfl, nofun⟩
      | ok pool =>
          obtain ⟨idle, outside, rfl, _, rfl⟩ := (c.manager address).booked_start_ok hstart
          refine ⟨.added (Pool.ofIdle_lends _ idle), rfl, fun place hplace => ?_⟩
          cases hplace
          exact ⟨_, List.getElem?_concat_length, rfl⟩

-- What the pool of an address lends, or why it lends nothing.
theorem lease_of_acquire (address : ServerAddress) {d base : PoolDirectory (Numbered κ)}
    {b b' b'' : Books ω} {place : Nat} {entry : AddressPool (Numbered κ)}
    {outcome : Except (PoolError ConnectFault) (Numbered κ)} {pool : Pool (Numbered κ)}
    (hpool : poolFor c.booked address d b = ((.ok place, base), b'))
    (hentry : base.pools[place]? = some entry)
    (hacquire : Pool.acquire (c.manager address).booked (c.booked.channel.now b').1 entry.pool
      (c.booked.channel.now b').2 = ((outcome, pool), b'')) :
    lease c.booked address d b =
      ((outcome.map fun k => ⟨place, address, some k⟩, base.withPool place entry pool), b'') := by
  rw [lease_run, hpool]
  dsimp only
  rw [onPool_run, hentry, c.booked_manager]
  dsimp only
  rw [hacquire]
  cases outcome with
  | ok k => rfl
  | error e => rfl

theorem lease_leases (address : ServerAddress) (d : PoolDirectory (Numbered κ)) (b : Books ω) :
    d.Leases address (lease c.booked address d b).1.1 (lease c.booked address d b).1.2 ∧
      (lease c.booked address d b).2.cleaned = b.cleaned := by
  obtain ⟨hextends, hcleaned, hfound⟩ := poolFor_extends c address d b
  rcases hpool : poolFor c.booked address d b with ⟨⟨outcome, base⟩, b'⟩
  rw [hpool] at hextends hcleaned hfound
  cases outcome with
  | error e =>
      rw [lease_run, hpool]
      exact ⟨.refused hextends, hcleaned⟩
  | ok place =>
      obtain ⟨entry, hentry, haddress⟩ := hfound place rfl
      dsimp only at hextends hcleaned hentry
      obtain ⟨hgives, hkept⟩ := Pool.acquire_gives (c.manager address)
        (c.booked.channel.now b').1 entry.pool (c.booked.channel.now b').2
      rcases hacquire : Pool.acquire (c.manager address).booked (c.booked.channel.now b').1 entry.pool
        (c.booked.channel.now b').2 with ⟨⟨outcome, pool⟩, b''⟩
      rw [hacquire] at hgives hkept
      rw [lease_of_acquire c address hpool hentry hacquire]
      dsimp only at hgives hkept ⊢
      cases hgives with
      | lent hopen hout =>
          exact ⟨.lent hextends hentry haddress hopen hout, hkept.trans hcleaned⟩
      | refused =>
          rw [withPool_self hentry]
          exact ⟨.refused hextends, hkept.trans hcleaned⟩

theorem closeEach_lends (c : Connector (StateM ω) κ) (pools : List (AddressPool κ)) (w : ω) :
    (closeEach c pools w).1.length = pools.length ∧
      ∀ (place : Nat) (closed : AddressPool κ), (closeEach c pools w).1[place]? = some closed →
        ∃ entry, pools[place]? = some entry ∧
          ∀ count, entry.pool.Lends count → closed.pool.Lends count := by
  induction pools generalizing w with
  | nil => exact ⟨rfl, fun place closed hclosed => nomatch hclosed⟩
  | cons entry rest ih =>
      have hcons : closeEach c (entry :: rest) w =
          ({ entry with pool := (Pool.close (c.manager entry.address) entry.pool w).1.2 } ::
            (closeEach c rest (Pool.close (c.manager entry.address) entry.pool w).2).1,
            (closeEach c rest (Pool.close (c.manager entry.address) entry.pool w).2).2) := rfl
      obtain ⟨hlength, hlends⟩ := ih (Pool.close (c.manager entry.address) entry.pool w).2
      rw [hcons]
      refine ⟨congrArg (· + 1) hlength, fun place closed hclosed => ?_⟩
      cases place with
      | zero =>
          cases hclosed
          exact ⟨entry, rfl, fun count hcount =>
            Pool.close_lends (c.manager entry.address) hcount w⟩
      | succ place => exact hlends place closed hclosed

theorem close_accounts {d : PoolDirectory κ} {held : Nat → Nat} (hd : d.Accounts held)
    (c : Connector (StateM ω) κ) (w : ω) : (close c d w).1.2.Accounts held := by
  obtain ⟨hlength, hlends⟩ := closeEach_lends c d.pools w
  refine ⟨fun place closed hclosed => ?_, fun place hnone => ?_⟩
  · obtain ⟨entry, hentry, hsame⟩ := hlends place closed hclosed
    exact hsame _ (hd.lends place entry hentry)
  · change (closeEach c d.pools w).1[place]? = none at hnone
    rw [List.getElem?_eq_none_iff, hlength] at hnone
    exact hd.nowhere place (List.getElem?_eq_none hnone)

-- A lease that is given out is one more connection on loan.
theorem Accounts.givenOut {d : PoolDirectory κ} {held : Nat → Nat} {place : Nat}
    {entry : AddressPool κ} {k : κ} {pool : Pool κ} (hd : d.Accounts held)
    (hentry : d.pools[place]? = some entry) (hout : entry.pool.HandsOut k pool)
    (address : ServerAddress) :
    (d.withPool place entry pool).Accounts fun other =>
      held other + (Lease.mk place address (some k)).held other := by
  have hlent := hout.lends (hd.lends place entry hentry)
  refine hd.withPool hentry ?_ fun other hother => ?_
  · rw [Lease.held_self]
    exact hlent
  · rw [Lease.held_other hother, Nat.add_zero]

-- One that is handed back is one less.
theorem Accounts.handedBack {d : PoolDirectory κ} {held : Nat → Nat} {place : Nat}
    {entry : AddressPool κ} {pool : Pool κ} {address : ServerAddress} {k : κ}
    (hd : d.Accounts fun other => held other + (Lease.mk place address (some k)).held other)
    (hentry : d.pools[place]? = some entry) (hpool : pool.Lends (held place)) :
    (d.withPool place entry pool).Accounts held := by
  refine hd.withPool hentry hpool fun other hother => ?_
  rw [Lease.held_other hother, Nat.add_zero]

-- What is held was lent from a pool that is still there.
theorem Accounts.lent {d : PoolDirectory κ} {held : Nat → Nat} {place : Nat}
    {address : ServerAddress} {k : κ}
    (hd : d.Accounts fun other => held other + (Lease.mk place address (some k)).held other) :
    ∃ entry, d.pools[place]? = some entry ∧ entry.pool.Lends (held place + 1) := by
  cases hentry : d.pools[place]? with
  | none =>
      have hnowhere := hd.nowhere place hentry
      rw [Lease.held_self] at hnowhere
      omega
  | some entry =>
      have hlends := hd.lends place entry hentry
      rw [Lease.held_self] at hlends
      exact ⟨entry, rfl, hlends⟩

theorem Leases.accounts {d base : PoolDirectory κ} {held : Nat → Nat} {address : ServerAddress}
    {outcome : Except (PoolError ConnectFault) (Lease κ)} (h : d.Leases address outcome base)
    (hd : d.Accounts held) :
    base.Accounts fun other => held other + outcome.toOption.elim 0 fun l => l.held other := by
  cases h with
  | refused hbase => exact hbase.accounts hd
  | lent hbase hentry haddress hopen hout => exact (hbase.accounts hd).givenOut hentry hout address

end PoolDirectory

namespace Lease

-- What is done with a lease, after which the pools lend what is held of them if they did before.
def Accounted {α : Type} (use : Action (StateM (Books ω)) (Numbered κ) α) : Prop :=
  ∀ (held : Nat → Nat) (l : Lease (Numbered κ)) (d : PoolDirectory (Numbered κ)) (b : Books ω),
    d.Accounts (fun other => held other + l.held other) →
      (use l d b).1.2.Accounts fun other => held other + (use l d b).1.1.2.held other

theorem onConnection_accounted {α : Type} (use : StateT (Numbered κ) (StateM (Books ω)) α)
    (otherwise : α) : Accounted (onConnection use otherwise) := by
  intro held l d b hd
  obtain ⟨place, address, connection⟩ := l
  cases connection with
  | none => exact hd
  | some k => exact hd

-- A lease that is handed back holds nothing any more, whichever way that is done.
theorem handBack_connection
    (back : Manager (StateM ω) κ ConnectFault → κ →
      Pool.Action (StateM ω) κ (Except PoolFault Wake)) (c : Connector (StateM ω) κ) (l : Lease κ)
    (d : PoolDirectory κ) (w : ω) : (handBack back c l d w).1.1.2.connection = none := by
  obtain ⟨place, address, connection⟩ := l
  cases connection with
  | none => rfl
  | some k => rfl

theorem handBack_accounted {c : Connector (StateM ω) κ}
    {back : Manager (StateM (Books ω)) (Numbered κ) ConnectFault → Numbered κ →
      Pool.Action (StateM (Books ω)) (Numbered κ) (Except PoolFault Wake)}
    (hback : ∀ address k count (pool : Pool (Numbered κ)) (b : Books ω), pool.Lends (count + 1) →
      (back (c.booked.manager address) k pool b).1.2.Lends count) :
    Accounted (handBack back c.booked) := by
  intro held l d b hd
  obtain ⟨place, address, connection⟩ := l
  cases connection with
  | none => exact hd
  | some k =>
      change (PoolDirectory.onPool place (fun entry => back (c.booked.manager entry.address) k)
        d b).1.2.Accounts fun other => held other + (Lease.mk place address none).held other
      have hnothing := held_of_none (l := (Lease.mk place address none : Lease (Numbered κ))) rfl
      simp only [hnothing, Nat.add_zero]
      obtain ⟨entry, hentry, hlends⟩ := hd.lent
      rw [PoolDirectory.onPool_run, hentry]
      exact hd.handedBack hentry (hback entry.address k (held place) entry.pool b hlends)

variable (c : Connector (StateM ω) κ)

theorem send_accounted (bytes : ByteArray) : Accounted ((channel c.booked).send bytes) :=
  fun held l => onConnection_accounted (c.booked.channel.send bytes) (.error (.closed l.address)) held l

theorem receive_accounted (limit : Nat) : Accounted ((channel c.booked).receive limit) :=
  fun held l =>
    onConnection_accounted (c.booked.channel.receive limit) (.error (.closed l.address)) held l

theorem close_accounted : Accounted (close c.booked) :=
  handBack_accounted fun address k _ _ b hpool =>
    (Pool.release_takesBack c address hpool.one_le_total k b).lends hpool

theorem discard_accounted : Accounted (discard c.booked) :=
  handBack_accounted fun address k _ _ b hpool =>
    Pool.remove_lends (c.booked.manager address) hpool k b

end Lease

end DocWire
