import DocWire.Proofs.Connection.Origin
import Mathlib.Algebra.BigOperators.Group.List.Basic

namespace DocWire

variable {ω κ : Type}

-- A sum over a list, with one of its elements apart.
theorem sum_split {α : Type} (f : α → Multiset Nat) {xs : List α} {place : Nat} {x : α}
    (h : xs[place]? = some x) : (xs.map f).sum = f x + ((xs.eraseIdx place).map f).sum := by
  obtain ⟨hplace, rfl⟩ := List.getElem?_eq_some_iff.mp h
  have hperm := (List.getElem_cons_eraseIdx_perm hplace).map f
  rw [← hperm.sum_eq, List.map_cons, List.sum_cons]

-- What can be told from outside a pool: whose connections it holds, and whether it is closed.
def AddressPool.sign (entry : AddressPool κ) : ServerAddress × Bool :=
  (entry.address, entry.pool.closed)

namespace Pool

variable {ρ : Type} {p p' : Pool (Numbered ρ)} {sound : Bool} {r : Numbered ρ}
  {cleaned cleaned' : List Nat}

theorem TakesBack.closed_eq (h : p.TakesBack sound r cleaned p' cleaned') :
    p'.closed = p.closed := by
  cases h with
  | kept hsound hopen hroom => rfl
  | discarded h => rfl

theorem TakesBack.stock_le (h : p.TakesBack sound r cleaned p' cleaned') :
    p'.stock ≤ p.stock + {r.number} := by
  cases h with
  | kept hsound hopen hroom =>
      rw [stock, keep, List.map_append, ← Multiset.coe_add]
      rfl
  | discarded h => exact Multiset.le_add_right p.stock _

theorem TakesBack.mem_idle (h : p.TakesBack sound r cleaned p' cleaned') {q : Numbered ρ}
    (hq : q ∈ p'.idle) : q ∈ p.idle ∨ (q = r ∧ sound = true) := by
  cases h with
  | kept hsound hopen hroom =>
      rcases List.mem_append.mp hq with hidle | hback
      · exact .inl hidle
      · exact .inr ⟨List.mem_singleton.mp hback, hsound⟩
  | discarded h => exact .inl hq

end Pool

namespace PoolDirectory

section

variable {d : PoolDirectory κ} {place : Nat} {entry : AddressPool κ}

def signs (d : PoolDirectory κ) : List (ServerAddress × Bool) :=
  d.pools.map AddressPool.sign

-- The addresses whose pool is open, in the order in which those were built.
def current (d : PoolDirectory κ) : List ServerAddress :=
  (d.signs.filter fun sign => !sign.2).map Prod.fst

-- The addresses that there are pools for when one asks for an address.
def builds (c : Connector (StateM ω) κ) (address : ServerAddress) (d : PoolDirectory κ) (w : ω)
    (built : List ServerAddress) : List ServerAddress :=
  if address ∈ built then built
  else
    match (Pool.start (c.manager address) (d.configFor address) w).1 with
    | .ok _ => built ++ [address]
    | .error _ => built

theorem signs_getElem (h : d.pools[place]? = some entry) : d.signs[place]? = some entry.sign := by
  rw [signs, List.getElem?_map, h, Option.map_some]

theorem signs_withPool (h : d.pools[place]? = some entry) {pool : Pool κ}
    (hclosed : pool.closed = entry.pool.closed) : (d.withPool place entry pool).signs = d.signs := by
  have hsign : AddressPool.sign { entry with pool := pool } = entry.sign :=
    Prod.ext rfl hclosed
  unfold signs withPool
  dsimp only
  rw [List.map_set, hsign]
  apply List.ext_getElem?
  intro other
  by_cases hother : other = place
  · obtain ⟨hplace, _⟩ := List.getElem?_eq_some_iff.mp h
    rw [hother, List.getElem?_set_self (by simpa using hplace)]
    exact (signs_getElem h).symm
  · rw [List.getElem?_set_ne (Ne.symm hother)]

theorem signs_add (d : PoolDirectory κ) (address : ServerAddress) (pool : Pool κ) :
    (d.add address pool).signs = d.signs ++ [(address, pool.closed)] :=
  List.map_append

theorem current_of_signs {d' : PoolDirectory κ} (h : d'.signs = d.signs) :
    d'.current = d.current := by
  rw [current, h, current]

theorem current_add (d : PoolDirectory κ) (address : ServerAddress) {pool : Pool κ}
    (hopen : pool.closed = false) : (d.add address pool).current = d.current ++ [address] := by
  rw [current, signs_add, hopen, List.filter_append, List.map_append]
  rfl

theorem mem_current {address : ServerAddress} :
    address ∈ d.current ↔
      ∃ entry ∈ d.pools, entry.address = address ∧ entry.pool.closed = false := by
  simp only [current, signs, AddressPool.sign, List.mem_map, List.mem_filter, Prod.exists,
    Bool.not_eq_true', Prod.mk.injEq]
  constructor
  · rintro ⟨_, _, ⟨⟨entry, hentry, rfl, rfl⟩, hopen⟩, rfl⟩
    exact ⟨entry, hentry, rfl, hopen⟩
  · rintro ⟨entry, hentry, rfl, hopen⟩
    exact ⟨entry.address, entry.pool.closed, ⟨⟨entry, hentry, rfl, rfl⟩, hopen⟩, rfl⟩

theorem find?_eq_none {address : ServerAddress} :
    d.find? address = none ↔ address ∉ d.current := by
  rw [find?, List.findIdx?_eq_none_iff, mem_current]
  simp

-- An open pool is the one that is found for its address if no two are for the same.
theorem find?_eq_some (hcurrent : d.current.Nodup) (h : d.pools[place]? = some entry)
    (hopen : entry.pool.closed = false) : d.find? entry.address = some place := by
  have hpairs : d.pools.Pairwise fun a b => a.pool.closed = false → b.pool.closed = false →
      a.address ≠ b.address := by
    simpa [current, signs, AddressPool.sign, List.Nodup, List.pairwise_map, List.pairwise_filter]
      using hcurrent
  obtain ⟨hplace, rfl⟩ := List.getElem?_eq_some_iff.mp h
  refine List.findIdx?_eq_some_iff_getElem.mpr ⟨hplace, by simp [hopen], fun other hother => ?_⟩
  have hapart := List.pairwise_iff_getElem.mp hpairs other place (hother.trans hplace) hplace hother
  simp only [Bool.and_eq_true, decide_eq_true_eq, Bool.not_eq_true', not_and]
  exact fun haddress hfirst => hapart hfirst hopen haddress

end

section

variable {d : PoolDirectory (Numbered κ)} {place : Nat} {entry : AddressPool (Numbered κ)}

-- The numbers of what is idle in any pool.
def stock (d : PoolDirectory (Numbered κ)) : Multiset Nat :=
  (d.pools.map fun entry => entry.pool.stock).sum

-- The same without the pool at a place.
def beside (d : PoolDirectory (Numbered κ)) (place : Nat) : Multiset Nat :=
  ((d.pools.eraseIdx place).map fun entry => entry.pool.stock).sum

theorem stock_eq (h : d.pools[place]? = some entry) :
    d.stock = entry.pool.stock + d.beside place :=
  sum_split (fun entry : AddressPool (Numbered κ) => entry.pool.stock) h

theorem stock_withPool (h : d.pools[place]? = some entry) (pool : Pool (Numbered κ)) :
    (d.withPool place entry pool).stock = pool.stock + d.beside place := by
  have hbeside : (d.withPool place entry pool).beside place = d.beside place := by
    unfold beside withPool
    rw [List.eraseIdx_set_eq]
  rw [stock_eq (withPool_getElem h pool), hbeside]

theorem stock_add (d : PoolDirectory (Numbered κ)) (address : ServerAddress)
    (pool : Pool (Numbered κ)) : (d.add address pool).stock = d.stock + pool.stock := by
  unfold stock add
  rw [List.map_append, List.sum_append, List.map_singleton, List.sum_singleton]

end

-- Pools from which connections can be lent: there is one open pool at most for an address, and all
-- that is idle in it may be lent.
structure Stocked (c : Connector (StateM ω) κ) (since : Nat)
    (d : PoolDirectory (Numbered (Addressed κ))) : Prop where
  serves : ∀ entry ∈ d.pools, entry.pool.closed = false → ∀ r ∈ entry.pool.idle,
    c.Serves entry.address since r
  apart : d.current.Nodup

section

variable {c : Connector (StateM ω) κ} {since : Nat} {d : PoolDirectory (Numbered (Addressed κ))}
  {place : Nat} {entry : AddressPool (Numbered (Addressed κ))}
  {pool : Pool (Numbered (Addressed κ))}

theorem Stocked.withPool (hd : d.Stocked c since) (h : d.pools[place]? = some entry)
    (hclosed : pool.closed = entry.pool.closed)
    (hserves : entry.pool.closed = false → ∀ r ∈ pool.idle, c.Serves entry.address since r) :
    (d.withPool place entry pool).Stocked c since where
  serves := by
    intro found hfound hopen
    rcases List.mem_or_eq_of_mem_set hfound with hsame | rfl
    · exact hd.serves found hsame hopen
    · exact hserves (hclosed.symm.trans hopen)
  apart := by
    rw [current_of_signs (signs_withPool h hclosed)]
    exact hd.apart

theorem Stocked.add (hd : d.Stocked c since) {address : ServerAddress}
    (hnew : address ∉ d.current) (hopen : pool.closed = false)
    (hserves : ∀ r ∈ pool.idle, c.Serves address since r) :
    (d.add address pool).Stocked c since where
  serves := by
    intro found hfound hclosed
    rcases List.mem_append.mp hfound with hsame | hadded
    · exact hd.serves found hsame hclosed
    · rw [List.mem_singleton.mp hadded]
      exact hserves
  apart := by
    rw [current_add d address hopen, List.nodup_append]
    refine ⟨hd.apart, List.nodup_singleton address, fun a ha b hb => ?_⟩
    rw [List.mem_singleton.mp hb]
    exact ne_of_mem_of_not_mem ha hnew

-- Whatever is handed back, a pool keeps what may be lent.
theorem Stocked.takesBack (hd : d.Stocked c since) (h : d.pools[place]? = some entry)
    {sound : Bool} {r : Numbered (Addressed κ)} {cleaned cleaned' : List Nat}
    (hback : entry.pool.TakesBack sound r cleaned pool cleaned')
    (hserves : sound = true → entry.pool.closed = false → c.Serves entry.address since r) :
    (d.withPool place entry pool).Stocked c since := by
  refine hd.withPool h hback.closed_eq fun hopen q hq => ?_
  rcases hback.mem_idle hq with hidle | ⟨rfl, hsound⟩
  · exact hd.serves entry (List.mem_of_getElem? h) hopen q hidle
  · exact hserves hsound hopen

theorem stock_takesBack (h : d.pools[place]? = some entry) {sound : Bool}
    {r : Numbered (Addressed κ)} {cleaned cleaned' : List Nat}
    (hback : entry.pool.TakesBack sound r cleaned pool cleaned') :
    (d.withPool place entry pool).stock ≤ d.stock + {r.number} := by
  rw [stock_withPool h, stock_eq h]
  calc
    pool.stock + d.beside place ≤ entry.pool.stock + {r.number} + d.beside place := by
      gcongr
      exact hback.stock_le
    _ = entry.pool.stock + d.beside place + {r.number} := by ac_rfl

-- What may happen to the pools when one asks for an address: an open one is built if there is none,
-- and what has been opened for it or for the lease is in the pools, or it has come out.
structure Grows (c : Connector (StateM ω) κ) (address : ServerAddress) (since : Nat)
    (d : PoolDirectory (Numbered (Addressed κ))) (b : Books ω) (out : Multiset Nat)
    (base : PoolDirectory (Numbered (Addressed κ))) (b' : Books ω) : Prop where
  stocked : base.Stocked c since
  issues : Issues d.stock b.created (base.stock + out) b'.created
  signs : ∃ more, base.signs = d.signs ++ more
  current : base.current = d.builds c.addressed.booked address b d.current

-- Whatever has been opened in vain, the pools are as they were.
theorem Grows.same {address : ServerAddress} {b : Books ω} {outside : ω} {cleaned : List Nat}
    (hd : d.Stocked c since) (made : Nat)
    (hcurrent : d.current = d.builds c.addressed.booked address b d.current) :
    Grows c address since d b 0 d ⟨outside, b.created + made, cleaned⟩ where
  stocked := hd
  issues := by
    rw [add_zero]
    exact .skip d.stock b.created made
  signs := ⟨[], (List.append_nil d.signs).symm⟩
  current := hcurrent

-- Nothing is opened to read a clock.
theorem Grows.now {address : ServerAddress} {base : PoolDirectory (Numbered (Addressed κ))}
    {b b' : Books ω} {out : Multiset Nat} (h : Grows c address since d b out base b') :
    Grows c address since d b out base (c.addressed.booked.channel.now b').2 :=
  ⟨h.stocked, h.issues, h.signs, h.current⟩

-- What a pool lends comes out.
theorem Grows.draws {address : ServerAddress} {base : PoolDirectory (Numbered (Addressed κ))}
    {b b' b'' : Books ω} (h : Grows c address since d b 0 base b')
    (hentry : base.pools[place]? = some entry) (hopen : entry.pool.closed = false) {ε : Type}
    {manager : Manager (StateM ω) (Addressed κ) ε}
    {outcome : Except (PoolError ε) (Numbered (Addressed κ))}
    (hdraws : entry.pool.Draws manager b' outcome pool b'') :
    Grows c address since d b (Pool.drawn outcome) (base.withPool place entry pool) b'' where
  stocked := h.stocked.withPool hentry hdraws.closed_eq fun _ r hr =>
    h.stocked.serves entry (List.mem_of_getElem? hentry) hopen r (hdraws.idle r hr)
  issues := by
    have hbase := h.issues
    have hpool := hdraws.issues.add_right (base.beside place)
    rw [← stock_eq hentry, add_right_comm, ← stock_withPool hentry pool] at hpool
    rw [add_zero] at hbase
    exact hbase.trans hpool
  signs := by
    rw [signs_withPool hentry hdraws.closed_eq]
    exact h.signs
  current := (current_of_signs (signs_withPool hentry hdraws.closed_eq)).trans h.current

-- What comes of looking for the open pool of an address.
structure Finds (c : Connector (StateM ω) κ) (address : ServerAddress) (since : Nat)
    (d : PoolDirectory (Numbered (Addressed κ))) (b : Books ω)
    (outcome : Except (PoolError ConnectFault) Nat) (base : PoolDirectory (Numbered (Addressed κ)))
    (b' : Books ω) : Prop extends Grows c address since d b 0 base b' where
  found : ∀ place, outcome = .ok place → ∃ entry, base.pools[place]? = some entry ∧
    entry.address = address ∧ entry.pool.closed = false

theorem poolFor_finds (hc : c.Dependable) (address : ServerAddress) (hd : d.Stocked c since)
    {b : Books ω} (hsince : since ≤ b.created) :
    Finds c address since d b (poolFor c.addressed.booked address d b).1.1
      (poolFor c.addressed.booked address d b).1.2 (poolFor c.addressed.booked address d b).2 := by
  rw [poolFor_run]
  cases hfind : d.find? address with
  | some place =>
      have hbuilt : address ∈ d.current :=
        not_not.mp fun hnew => by simp [find?_eq_none.mpr hnew] at hfind
      refine ⟨.same hd 0 (if_pos hbuilt).symm, ?_⟩
      intro found hfound
      cases hfound
      exact find?_some hfind
  | none =>
      have hnew := find?_eq_none.mp hfind
      have hbuilds : d.builds c.addressed.booked address b d.current = _ := if_neg hnew
      rw [c.addressed.booked_manager] at hbuilds ⊢
      dsimp only
      generalize hstart : Pool.start (c.addressed.manager address).booked (d.configFor address) b =
        started at hbuilds ⊢
      obtain ⟨outcome, b'⟩ := started
      cases outcome with
      | error e =>
          obtain ⟨made, outside, rfl⟩ := Manager.booked_start_error _ hstart
          exact ⟨.same hd made hbuilds.symm, nofun⟩
      | ok pool =>
          have hopen : pool.closed = false := by
            obtain ⟨idle, outside, rfl, _⟩ := Manager.booked_start_ok _ hstart
            rfl
          have hserves := Connector.start_serves hc hsince hstart
          have hissues : Issues d.stock b.created ((d.add address pool).stock + 0) b'.created := by
            have hpool := (Pool.start_issues _ hstart).add_right d.stock
            rw [zero_add, add_comm] at hpool
            rw [add_zero, stock_add]
            exact hpool
          refine ⟨⟨hd.add hnew hopen hserves, hissues, ⟨_, signs_add _ _ _⟩,
            (current_add d address hopen).trans hbuilds.symm⟩, fun place hplace => ?_⟩
          cases hplace
          exact ⟨_, List.getElem?_concat_length, rfl, hopen⟩

end

end PoolDirectory

-- The number of the connection that is leased.
def Lease.number (l : Lease (Numbered κ)) : Multiset Nat :=
  l.connection.elim 0 fun r => {r.number}

namespace PoolDirectory

variable {c : Connector (StateM ω) κ} {address : ServerAddress} {since : Nat}
  {d : PoolDirectory (Numbered (Addressed κ))}

def handed {ε : Type} (outcome : Except ε (Lease (Numbered κ))) : Multiset Nat :=
  outcome.toOption.elim 0 Lease.number

-- A lease for an address, out of the open pool for it.
structure Provides (c : Connector (StateM ω) κ) (address : ServerAddress) (since : Nat)
    (base : PoolDirectory (Numbered (Addressed κ))) (l : Lease (Numbered (Addressed κ))) :
    Prop where
  address_eq : l.address = address
  find?_eq : base.find? address = some l.place
  sign : base.signs[l.place]? = some (address, false)
  serves : ∃ r, l.connection = some r ∧ c.Serves address since r

-- What comes of asking for a lease.
structure Responds (c : Connector (StateM ω) κ) (address : ServerAddress) (since : Nat)
    (d : PoolDirectory (Numbered (Addressed κ))) (b : Books ω)
    (outcome : Except (PoolError ConnectFault) (Lease (Numbered (Addressed κ))))
    (base : PoolDirectory (Numbered (Addressed κ))) (b' : Books ω) : Prop
    extends Grows c address since d b (handed outcome) base b' where
  provides : ∀ l, outcome = .ok l → Provides c address since base l

-- A pool lends what may be lent, since it lends what is idle in it or what it opens for that.
theorem drawn_serves (hc : c.Dependable) (hd : d.Stocked c since) {place : Nat}
    {entry : AddressPool (Numbered (Addressed κ))} (hentry : d.pools[place]? = some entry)
    {b b' : Books ω} (hsince : since ≤ b.created) {r : Numbered (Addressed κ)}
    {pool : Pool (Numbered (Addressed κ))}
    (hdraws : entry.pool.Draws (c.addressed.manager entry.address) b (.ok r) pool b') :
    c.Serves entry.address since r := by
  obtain ⟨hopen, hidle | hcreate⟩ := hdraws.origin r rfl
  · exact hd.serves entry (List.mem_of_getElem? hentry) hopen r hidle
  · exact Connector.create_serves hc hsince hcreate

theorem lease_responds (hc : c.Dependable) (address : ServerAddress) (hd : d.Stocked c since)
    {b : Books ω} (hsince : since ≤ b.created) :
    Responds c address since d b (lease c.addressed.booked address d b).1.1
      (lease c.addressed.booked address d b).1.2 (lease c.addressed.booked address d b).2 := by
  have hfinds := poolFor_finds hc address hd hsince
  rcases hpool : poolFor c.addressed.booked address d b with ⟨⟨outcome, base⟩, b'⟩
  rw [hpool] at hfinds
  cases outcome with
  | error e =>
      rw [lease_run, hpool]
      exact ⟨hfinds.toGrows, nofun⟩
  | ok place =>
      obtain ⟨entry, hentry, rfl, hopen⟩ := hfinds.found place rfl
      have hdraws := Pool.acquire_draws (c.addressed.manager entry.address)
        (c.addressed.booked.channel.now b').1 entry.pool (c.addressed.booked.channel.now b').2
      rcases hacquire : Pool.acquire (c.addressed.manager entry.address).booked
        (c.addressed.booked.channel.now b').1 entry.pool (c.addressed.booked.channel.now b').2 with
        ⟨⟨outcome, pool⟩, b''⟩
      rw [hacquire] at hdraws
      rw [lease_of_acquire c.addressed entry.address hpool hentry hacquire]
      dsimp only at hentry hdraws ⊢
      have hnow := hfinds.toGrows.now
      have hgrows := hnow.draws hentry hopen hdraws
      cases outcome with
      | error e => exact ⟨hgrows, nofun⟩
      | ok r =>
          refine ⟨hgrows, fun l hl => ?_⟩
          cases hl
          have hissues := hnow.issues.opened_le
          have hserves := drawn_serves hc hnow.stocked hentry (hsince.trans hissues) hdraws
          have hlent := withPool_getElem hentry pool
          have hfind := find?_eq_some hgrows.stocked.apart hlent (hdraws.closed_eq.trans hopen)
          have hsign := signs_getElem hentry
          rw [AddressPool.sign, hopen, ← signs_withPool hentry hdraws.closed_eq] at hsign
          exact ⟨rfl, hfind, hsign, r, rfl, hserves⟩

-- A pool that cannot be built is not there afterwards.
theorem lease_unbuilt (c : Connector (StateM ω) κ) {d : PoolDirectory κ} {w : ω}
    {e : PoolError ConnectFault} (hnew : address ∉ d.current)
    (hstart : (Pool.start (c.manager address) (d.configFor address) w).1 = .error e) :
    (lease c address d w).1 = (.error e, d) := by
  rw [lease_run, poolFor_run, find?_eq_none.mpr hnew]
  dsimp only
  generalize Pool.start (c.manager address) (d.configFor address) w = started at hstart ⊢
  obtain ⟨outcome, w'⟩ := started
  dsimp only at hstart
  subst hstart
  rfl

end PoolDirectory

theorem Pool.close_closes {α ε : Type} (manager : Manager (StateM ω) α ε) {p : Pool (Numbered α)}
    (h : p.idle.length ≤ p.total) (b : Books ω) :
    (close manager.booked p b).1.2.closed = true ∧
      (close manager.booked p b).1.2.stock ≤ p.stock ∧
      (close manager.booked p b).2.created = b.created := by
  rw [close_run manager.booked h]
  split
  · next hclosed => exact ⟨hclosed, le_rfl, rfl⟩
  · obtain ⟨outside, hcleanups⟩ := manager.booked_cleanups p.idle b
    rw [hcleanups]
    exact ⟨rfl, Multiset.zero_le _, rfl⟩

namespace PoolDirectory

theorem closeEach_closes (c : Connector (StateM ω) κ) {pools : List (AddressPool (Numbered κ))}
    (h : ∀ entry ∈ pools, entry.pool.idle.length ≤ entry.pool.total) (b : Books ω) :
    (closeEach c.booked pools b).1.map AddressPool.sign =
        pools.map (fun entry => (entry.address, true)) ∧
      ((closeEach c.booked pools b).1.map fun entry => entry.pool.stock).sum ≤
        (pools.map fun entry => entry.pool.stock).sum ∧
      (closeEach c.booked pools b).2.created = b.created := by
  induction pools generalizing b with
  | nil => exact ⟨rfl, le_rfl, rfl⟩
  | cons entry rest ih =>
      obtain ⟨hentry, hothers⟩ := List.forall_mem_cons.mp h
      obtain ⟨hclosed, hstock, hcreated⟩ := Pool.close_closes (c.manager entry.address) hentry b
      rw [← c.booked_manager] at hclosed hstock hcreated
      obtain ⟨hsigns, hstocks, hcreateds⟩ := ih hothers
        (Pool.close (c.booked.manager entry.address) entry.pool b).2
      have hcons : closeEach c.booked (entry :: rest) b =
          (⟨entry.address, (Pool.close (c.booked.manager entry.address) entry.pool b).1.2⟩ ::
            (closeEach c.booked rest (Pool.close (c.booked.manager entry.address) entry.pool b).2).1,
            (closeEach c.booked rest
              (Pool.close (c.booked.manager entry.address) entry.pool b).2).2) := rfl
      rw [hcons]
      refine ⟨?_, ?_, hcreateds.trans hcreated⟩
      · rw [List.map_cons, List.map_cons, hsigns, AddressPool.sign, hclosed]
      · rw [List.map_cons, List.map_cons, List.sum_cons, List.sum_cons]
        exact add_le_add hstock hstocks

theorem close_closes (c : Connector (StateM ω) κ) {d : PoolDirectory (Numbered κ)}
    {held : Nat → Nat} (hd : d.Accounts held) (b : Books ω) :
    (close c.booked d b).1.2.signs = d.signs.map (fun sign => (sign.1, true)) ∧
      (close c.booked d b).1.2.stock ≤ d.stock ∧
      (close c.booked d b).2.created = b.created := by
  have hidle : ∀ entry ∈ d.pools, entry.pool.idle.length ≤ entry.pool.total := by
    intro entry hentry
    obtain ⟨place, hplace⟩ := List.mem_iff_getElem?.mp hentry
    exact (hd.lends place entry hplace).idle_le_total
  obtain ⟨hsigns, hrest⟩ := closeEach_closes c hidle b
  refine ⟨?_, hrest⟩
  rw [signs, signs, List.map_map]
  exact hsigns

-- Nothing is lent out of pools that are closed.
theorem Stocked.of_current (c : Connector (StateM ω) κ) (since : Nat)
    {d : PoolDirectory (Numbered (Addressed κ))} (h : d.current = []) : d.Stocked c since where
  serves := by
    intro entry hentry hopen
    have hcurrent := mem_current.mpr ⟨entry, hentry, rfl, hopen⟩
    rw [h] at hcurrent
    cases hcurrent
  apart := by
    rw [h]
    exact .nil

theorem current_closed {d : PoolDirectory κ} {signs : List (ServerAddress × Bool)}
    (h : d.signs = signs.map fun sign => (sign.1, true)) : d.current = [] := by
  rw [current, h]
  simp

end PoolDirectory

namespace Lease

variable {c : Connector (StateM ω) κ} {since : Nat} {d : PoolDirectory (Numbered (Addressed κ))}
  {b : Books ω} {signs : List (ServerAddress × Bool)} {l : Lease (Numbered (Addressed κ))}

-- A lease goes back to a pool for the address that it was asked for, and has a connection that was
-- opened for that. As long as the pool is open, the connection is one of those that count.
def Placed (since : Nat) (signs : List (ServerAddress × Bool))
    (l : Lease (Numbered (Addressed κ))) : Prop :=
  ∃ closed, signs[l.place]? = some (l.address, closed) ∧
    ∀ r, l.connection = some r →
      r.content.address = l.address ∧ (closed = false → since ≤ r.number)

theorem Placed.append (h : l.Placed since signs) (more : List (ServerAddress × Bool)) :
    l.Placed since (signs ++ more) := by
  obtain ⟨closed, hsign, hconnection⟩ := h
  obtain ⟨hplace, _⟩ := List.getElem?_eq_some_iff.mp hsign
  exact ⟨closed, (List.getElem?_append_left hplace).trans hsign, hconnection⟩

theorem Placed.closed (h : l.Placed since signs) (later : Nat) :
    l.Placed later (signs.map fun sign => (sign.1, true)) := by
  obtain ⟨closed, hsign, hconnection⟩ := h
  refine ⟨true, ?_, fun r hr => ⟨(hconnection r hr).1, nofun⟩⟩
  rw [List.getElem?_map, hsign, Option.map_some]

theorem placed_of_provides {address : ServerAddress}
    (h : PoolDirectory.Provides c address since d l) : l.Placed since d.signs := by
  obtain ⟨r, hr, hserves⟩ := h.serves
  refine ⟨false, ?_, fun q hq => ?_⟩
  · rw [h.address_eq]
    exact h.sign
  · cases hr.symm.trans hq
    exact ⟨hserves.address_eq.trans h.address_eq.symm, fun _ => hserves.recent⟩

-- What comes of using a lease or of handing it back.
structure Settles (c : Connector (StateM ω) κ) (since : Nat)
    (l : Lease (Numbered (Addressed κ))) (d : PoolDirectory (Numbered (Addressed κ))) (b : Books ω)
    (l' : Lease (Numbered (Addressed κ))) (d' : PoolDirectory (Numbered (Addressed κ)))
    (b' : Books ω) : Prop where
  stocked : d'.Stocked c since
  signs : d'.signs = d.signs
  stock_le : d'.stock + l'.number ≤ d.stock + l.number
  created : b'.created = b.created
  placed : l'.Placed since d.signs

theorem Settles.issues {l' : Lease (Numbered (Addressed κ))}
    {d' : PoolDirectory (Numbered (Addressed κ))} {b' : Books ω}
    (h : Settles c since l d b l' d' b') :
    Issues (d.stock + l.number) b.created (d'.stock + l'.number) b'.created := by
  rw [h.created]
  exact .of_le h.stock_le b.created

-- What can be done with a lease so that nothing comes into the pools but its own connection.
def Tidy {α : Type} (c : Connector (StateM ω) κ)
    (use : Action (StateM (Books ω)) (Numbered (Addressed κ)) α) : Prop :=
  ∀ (since : Nat) (held : Nat → Nat) (l : Lease (Numbered (Addressed κ)))
    (d : PoolDirectory (Numbered (Addressed κ))) (b : Books ω),
    d.Accounts (fun other => held other + l.held other) → d.Stocked c since →
      l.Placed since d.signs →
        Settles c since l d b (use l d b).1.1.2 (use l d b).1.2 (use l d b).2

-- A use that keeps what tells the connection from others.
theorem onConnection_tidy {α : Type} {use : StateT (Numbered (Addressed κ)) (StateM (Books ω)) α}
    (otherwise : α)
    (huse : ∀ r b, ((use r b).1.2.number, (use r b).1.2.content.address, (use r b).2.created) =
      (r.number, r.content.address, b.created)) : Tidy c (onConnection use otherwise) := by
  intro since held l d b haccounts hd hl
  obtain ⟨place, address, connection⟩ := l
  cases connection with
  | none => exact ⟨hd, rfl, le_rfl, rfl, hl⟩
  | some r =>
      have hkept := huse r b
      have hrun : onConnection use otherwise ⟨place, address, some r⟩ d b =
        ((((use r b).1.1, ⟨place, address, some (use r b).1.2⟩), d), (use r b).2) := rfl
      rw [hrun]
      obtain ⟨hnumber, haddress, hcreated⟩ : (use r b).1.2.number = r.number ∧
          (use r b).1.2.content.address = r.content.address ∧ (use r b).2.created = b.created := by
        simpa using hkept
      obtain ⟨closed, hsign, hconnection⟩ := hl
      refine ⟨hd, rfl, ?_, hcreated, closed, hsign, fun q hq => ?_⟩
      · simp [number, hnumber]
      · cases hq
        rw [hnumber, haddress]
        exact hconnection r rfl

end Lease

namespace PoolDirectory

variable {c : Connector (StateM ω) κ} {since : Nat} {d : PoolDirectory (Numbered (Addressed κ))}

-- What comes back to the pool that it was lent from.
theorem withPool_settles {place : Nat} {entry : AddressPool (Numbered (Addressed κ))}
    {pool : Pool (Numbered (Addressed κ))} {sound : Bool} {address : ServerAddress}
    {r r' : Numbered (Addressed κ)} {cleaned cleaned' : List Nat} {b b' : Books ω}
    (hd : d.Stocked c since) (hl : Lease.Placed since d.signs ⟨place, address, some r⟩)
    (hentry : d.pools[place]? = some entry) (hnumber : r'.number = r.number)
    (haddress : r'.content.address = r.content.address)
    (hback : entry.pool.TakesBack sound r' cleaned pool cleaned')
    (hsound : sound = true → c.channel.isOpen r'.content.content = true)
    (hcreated : b'.created = b.created) :
    Lease.Settles c since ⟨place, address, some r⟩ d b ⟨place, address, none⟩
      (d.withPool place entry pool) b' := by
  obtain ⟨closed, hsign, hconnection⟩ := hl
  obtain ⟨hopened, hrecent⟩ := hconnection r rfl
  have hentrySign : entry.sign = (address, closed) :=
    Option.some.inj ((signs_getElem hentry).symm.trans hsign)
  refine ⟨hd.takesBack hentry hback fun hkept hopen => ⟨?_, hsound hkept, ?_⟩,
    signs_withPool hentry hback.closed_eq, ?_, hcreated, closed, hsign, nofun⟩
  · exact haddress.trans (hopened.trans (congrArg Prod.fst hentrySign).symm)
  · rw [hnumber]
    exact hrecent ((congrArg Prod.snd hentrySign).symm.trans hopen)
  · have hstock := stock_takesBack hentry hback
    rw [hnumber] at hstock
    simpa [Lease.number] using hstock

end PoolDirectory

namespace Lease

variable {c : Connector (StateM ω) κ}

-- Either way of handing something back to a pool.
structure HandsBack (c : Connector (StateM ω) κ)
    (back : Manager (StateM (Books ω)) (Numbered (Addressed κ)) ConnectFault →
      Numbered (Addressed κ) →
        Pool.Action (StateM (Books ω)) (Numbered (Addressed κ)) (Except PoolFault Wake)) : Prop where
  takesBack : ∀ address r (pool : Pool (Numbered (Addressed κ))) (b : Books ω), 1 ≤ pool.total →
    ∃ sound, (sound = true → c.channel.isOpen r.content.content = true) ∧
      pool.TakesBack sound r b.cleaned (back (c.addressed.booked.manager address) r pool b).1.2
        (back (c.addressed.booked.manager address) r pool b).2.cleaned
  created : ∀ address r (pool : Pool (Numbered (Addressed κ))) (b : Books ω), 1 ≤ pool.total →
    (back (c.addressed.booked.manager address) r pool b).2.created = b.created

theorem handBack_tidy
    {back : Manager (StateM (Books ω)) (Numbered (Addressed κ)) ConnectFault →
      Numbered (Addressed κ) →
        Pool.Action (StateM (Books ω)) (Numbered (Addressed κ)) (Except PoolFault Wake)}
    (hback : HandsBack c back) : Tidy c (handBack back c.addressed.booked) := by
  intro since held l d b haccounts hd hl
  obtain ⟨place, address, connection⟩ := l
  cases connection with
  | none => exact ⟨hd, rfl, le_rfl, rfl, hl⟩
  | some r =>
      obtain ⟨entry, hentry, hlends⟩ := haccounts.lent
      obtain ⟨sound, hsound, htakes⟩ :=
        hback.takesBack entry.address r entry.pool b hlends.one_le_total
      have hcreated := hback.created entry.address r entry.pool b hlends.one_le_total
      have hrun : handBack back c.addressed.booked ⟨place, address, some r⟩ d b =
        ((((), ⟨place, address, none⟩),
          (PoolDirectory.onPool place (fun entry => back (c.addressed.booked.manager entry.address) r)
            d b).1.2),
          (PoolDirectory.onPool place (fun entry => back (c.addressed.booked.manager entry.address) r)
            d b).2) := rfl
      rw [hrun, PoolDirectory.onPool_run, hentry]
      exact PoolDirectory.withPool_settles hd hl hentry rfl rfl htakes hsound hcreated

theorem release_handsBack (c : Connector (StateM ω) κ) : HandsBack c Pool.release where
  takesBack address r _ b hpool :=
    ⟨_, id, Pool.release_takesBack c.addressed address hpool r b⟩
  created address r _ b hpool := Pool.release_created c.addressed address hpool r b

theorem remove_handsBack (c : Connector (StateM ω) κ) : HandsBack c Pool.remove where
  takesBack address r _ b hpool := by
    refine ⟨false, nofun, ?_⟩
    rw [Pool.remove_run _ hpool]
    exact .discarded (.inl rfl)
  created address r _ b hpool := Pool.remove_created c.addressed address hpool r b

theorem send_tidy (c : Connector (StateM ω) κ) (bytes : ByteArray) :
    Tidy c ((channel c.addressed.booked).send bytes) :=
  fun since held l =>
    onConnection_tidy (.error (.closed l.address)) (c.addressed_keeps.send bytes) since held l

theorem receive_tidy (c : Connector (StateM ω) κ) (limit : Nat) :
    Tidy c ((channel c.addressed.booked).receive limit) :=
  fun since held l =>
    onConnection_tidy (.error (.closed l.address)) (c.addressed_keeps.receive limit) since held l

theorem invalidate_tidy (c : Connector (StateM ω) κ) :
    Tidy c (channel c.addressed.booked).invalidate :=
  onConnection_tidy () c.addressed_keeps.invalidate

theorem close_tidy (c : Connector (StateM ω) κ) : Tidy c (close c.addressed.booked) :=
  handBack_tidy (release_handsBack c)

theorem discard_tidy (c : Connector (StateM ω) κ) : Tidy c (discard c.addressed.booked) :=
  handBack_tidy (remove_handsBack c)

end Lease

end DocWire
