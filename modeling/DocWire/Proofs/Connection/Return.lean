import DocWire.Connection.Script
import DocWire.Proofs.Connection.Loans
import DocWire.Proofs.Transport.Demand

namespace DocWire

-- What happens in the course of a loan: the holder asks something of the connection, or others act
-- on what they share with the holder.
inductive Stage (n : Type → Type) where
  | ask (demand : Demand)
  | others (act : n Unit)

namespace Stage

variable {n : Type → Type}

def closes : Stage n → Bool
  | .ask .close => true
  | _ => false

-- The stages until the connection is first closed, and those from then on.
def early (stages : List (Stage n)) : List (Stage n) :=
  stages.takeWhile fun stage => !stage.closes

def late (stages : List (Stage n)) : List (Stage n) :=
  stages.dropWhile fun stage => !stage.closes

-- What is asked in the course of the stages, and what the others do.
def demands : List (Stage n) → List Demand
  | [] => []
  | .ask demand :: rest => demand :: demands rest
  | .others _ :: rest => demands rest

def elsewhere [Monad n] : List (Stage n) → n Unit
  | [] => return ()
  | .ask _ :: rest => elsewhere rest
  | .others act :: rest => do
    act
    elsewhere rest

theorem early_append_late (stages : List (Stage n)) : early stages ++ late stages = stages :=
  List.takeWhile_append_dropWhile

theorem early_closes (stages : List (Stage n)) : (early stages).any closes = false := by
  induction stages with
  | nil => rfl
  | cons stage rest ih =>
      cases hcloses : stage.closes with
      | true =>
          unfold early
          rw [List.takeWhile_cons_of_neg (by simp [hcloses])]
          rfl
      | false =>
          unfold early
          rw [List.takeWhile_cons_of_pos (by simp [hcloses]), List.any_cons, hcloses]
          exact ih

-- The late stages begin with the first one that closes, if there is any.
theorem late_cases (stages : List (Stage n)) :
    (late stages = [] ∧ stages.any closes = false) ∨
      ∃ rest, late stages = .ask .close :: rest ∧ stages.any closes = true := by
  induction stages with
  | nil => exact .inl ⟨rfl, rfl⟩
  | cons stage rest ih =>
      cases hcloses : stage.closes with
      | true =>
          unfold late
          rw [List.dropWhile_cons_of_neg (by simp [hcloses]), List.any_cons, hcloses]
          cases stage with
          | others act => cases hcloses
          | ask demand =>
              cases demand with
              | close => exact .inr ⟨rest, rfl, rfl⟩
              | _ => cases hcloses
      | false =>
          unfold late
          rw [List.dropWhile_cons_of_pos (by simp [hcloses]), List.any_cons, hcloses]
          exact ih

end Stage

-- The stages of a loan from the pools of a directory.
abbrev LoanStage (ω κ : Type) := Stage (PoolDirectory.Action (StateM ω) κ)

-- What a closed connection answers to a demand.
def Demand.refusal (address : ServerAddress) : Demand → Use
  | .send bytes => .sent bytes (.error (.closed address))
  | .receive limit => .received limit (.error (.closed address))
  | .invalidate => .invalidated
  | .close => .closed

namespace Channel

-- Takes the stages in order, and tells of every demand what came of it and whether the connection
-- was open then.
def attend {n : Type → Type} [Monad n] {ρ : Type} (channel : Channel n ρ) :
    List (Stage n) → StateT ρ n (List (Use × Bool))
  | [] => return []
  | .others act :: rest => do
    (act : n Unit)
    channel.attend rest
  | .ask demand :: rest => do
    let use ← channel.meet demand
    let isOpen := channel.isOpen (← get)
    let told ← channel.attend rest
    return (use, isOpen) :: told

theorem attend_append {n : Type → Type} [Monad n] [LawfulMonad n] {ρ : Type} (channel : Channel n ρ)
    (a b : List (Stage n)) :
    channel.attend (a ++ b) = do
      let first ← channel.attend a
      let second ← channel.attend b
      return first ++ second := by
  induction a with
  | nil => simp [attend]
  | cons stage rest ih =>
      cases stage with
      | ask demand => simp [attend, ih]
      | others act => simp [attend, ih]

section

variable {ω κ ρ : Type} {channel : Channel (PoolDirectory.Action (StateM ω) κ) ρ}
  {rest : List (LoanStage ω κ)} {told : List (Use × Bool)} {r r' r'' : ρ}
  {d d' d'' : PoolDirectory κ} {w w' w'' : ω}

theorem attend_both {a b : List (LoanStage ω κ)} {told' : List (Use × Bool)}
    (hfirst : channel.attend a r d w = (((told, r'), d'), w'))
    (hsecond : channel.attend b r' d' w' = (((told', r''), d''), w'')) :
    channel.attend (a ++ b) r d w = (((told ++ told', r''), d''), w'') := by
  rw [attend_append, bind_states, hfirst, bind_states, hsecond]
  rfl

theorem attend_ask {demand : Demand} {use : Use}
    (hmeet : channel.meet demand r d w = (((use, r'), d'), w'))
    (hrest : channel.attend rest r' d' w' = (((told, r''), d''), w'')) :
    channel.attend (.ask demand :: rest) r d w =
      ((((use, channel.isOpen r') :: told, r''), d''), w'') := by
  have hget : (get : StateT ρ (PoolDirectory.Action (StateM ω) κ) ρ) r' d' w' =
      (((r', r'), d'), w') := rfl
  rw [attend, bind_states, hmeet, bind_states, hget, bind_states, hrest]
  rfl

theorem attend_others {act : PoolDirectory.Action (StateM ω) κ Unit}
    (hact : act d w = (((), d'), w'))
    (hrest : channel.attend rest r d' w' = (((told, r''), d''), w'')) :
    channel.attend (.others act :: rest) r d w = (((told, r''), d''), w'') := by
  have hlift : (liftM act : StateT ρ (PoolDirectory.Action (StateM ω) κ) Unit) r d w =
      ((((), r), d'), w') := by
    change ((((act d w).1.1, r), (act d w).1.2), (act d w).2) = _
    rw [hact]
  rw [attend, bind_states, hlift, hrest]

end

variable {ω κ : Type}

-- How stages go for a connection until somebody closes it. What is asked of it has nothing to do
-- with the pools, and what the others do has nothing to do with it.
inductive Attends (channel : Channel (StateM ω) κ) :
    List (LoanStage ω κ) → κ → PoolDirectory κ → ω → List (Use × Bool) → κ → PoolDirectory κ → ω →
      Prop where
  | done {k : κ} {d : PoolDirectory κ} {w : ω} : Attends channel [] k d w [] k d w
  | asked {demand : Demand} {rest : List (LoanStage ω κ)} {use : Use} {told : List (Use × Bool)}
      {k k' k'' : κ} {d d' : PoolDirectory κ} {w w' w'' : ω}
      (hdemand : demand ≠ .close) (hmeet : channel.meet demand k w = ((use, k'), w'))
      (hrest : Attends channel rest k' d w' told k'' d' w'') :
      Attends channel (.ask demand :: rest) k d w ((use, channel.isOpen k') :: told) k'' d' w''
  | others {act : PoolDirectory.Action (StateM ω) κ Unit}
      {rest : List (LoanStage ω κ)} {told : List (Use × Bool)} {k k' : κ}
      {d d' d'' : PoolDirectory κ} {w w' w'' : ω} (hact : act d w = (((), d'), w'))
      (hrest : Attends channel rest k d' w' told k' d'' w'') :
      Attends channel (.others act :: rest) k d w told k' d'' w''

theorem exists_attends (channel : Channel (StateM ω) κ) {stages : List (LoanStage ω κ)}
    (h : stages.any Stage.closes = false) (k : κ) (d : PoolDirectory κ) (w : ω) :
    ∃ told k' d' w', channel.Attends stages k d w told k' d' w' := by
  induction stages generalizing k d w with
  | nil => exact ⟨[], k, d, w, .done⟩
  | cons stage rest ih =>
      rw [List.any_cons, Bool.or_eq_false_iff] at h
      obtain ⟨hstage, hrest⟩ := h
      cases stage with
      | others act =>
          rcases hact : act d w with ⟨⟨⟨⟩, d₁⟩, w₁⟩
          obtain ⟨told, k', d', w', hattends⟩ := ih hrest k d₁ w₁
          exact ⟨told, k', d', w', .others hact hattends⟩
      | ask demand =>
          have hdemand : demand ≠ .close := by
            rintro rfl
            cases hstage
          rcases hmeet : channel.meet demand k w with ⟨⟨use, k₁⟩, w₁⟩
          obtain ⟨told, k', d', w', hattends⟩ := ih hrest k₁ d w₁
          exact ⟨_, k', d', w', .asked hdemand hmeet hattends⟩

-- A connection that is given up is closed, and one that is closed is not opened again.
structure Shuts (channel : Channel (StateM ω) κ) : Prop where
  invalidate : ∀ k w, channel.isOpen (channel.invalidate k w).1.2 = false
  send : ∀ bytes k w, channel.isOpen k = false →
    channel.isOpen (channel.send bytes k w).1.2 = false
  receive : ∀ limit k w, channel.isOpen k = false →
    channel.isOpen (channel.receive limit k w).1.2 = false

variable {channel : Channel (StateM ω) κ}

theorem Shuts.meet (h : channel.Shuts) {demand : Demand} (hdemand : demand ≠ .close) {use : Use}
    {k k' : κ} {w w' : ω} (hmeet : channel.meet demand k w = ((use, k'), w'))
    (hk : channel.isOpen k = false ∨ use = .invalidated) : channel.isOpen k' = false := by
  have huse : use = (channel.meet demand k w).1.1 := by rw [hmeet]
  have hk' : k' = (channel.meet demand k w).1.2 := by rw [hmeet]
  subst huse hk'
  cases demand with
  | send bytes => exact h.send bytes k w (hk.resolve_right nofun)
  | receive limit => exact h.receive limit k w (hk.resolve_right nofun)
  | invalidate => exact h.invalidate k w
  | close => exact absurd rfl hdemand

-- Once a connection is closed, or was given up, it is closed for as long as it stays where it is.
theorem Attends.shut {stages : List (LoanStage ω κ)} {told : List (Use × Bool)} {k k' : κ}
    {d d' : PoolDirectory κ} {w w' : ω}
    (h : channel.Attends stages k d w told k' d' w') (hshuts : channel.Shuts)
    (hclosed : channel.isOpen k = false ∨
      ∃ entry ∈ told, entry.1 = .invalidated ∨ entry.2 = false) : channel.isOpen k' = false := by
  induction h with
  | done =>
      rcases hclosed with hk | ⟨entry, hentry, _⟩
      · exact hk
      · cases hentry
  | others hact hrest ih => exact ih hclosed
  | asked hdemand hmeet hrest ih =>
      refine ih ?_
      rcases hclosed with hk | ⟨entry, hentry, hbad⟩
      · exact .inl (hshuts.meet hdemand hmeet (.inl hk))
      · rcases List.mem_cons.mp hentry with rfl | htold
        · exact .inl (hbad.elim (fun huse => hshuts.meet hdemand hmeet (.inr huse)) id)
        · exact .inr ⟨entry, htold, hbad⟩

end Channel

-- Connections over a stream, and scripted ones, behave like that.
theorem StreamConnection.channel_shuts {ω σ : Type} (stream : ByteStream σ) (now : StateM ω Span) :
    (channel stream now).Shuts where
  invalidate _ _ := rfl
  send bytes c w hc := by
    change (c.guarded (stream.writeMessage bytes)).2.isOpen = false
    rw [guarded_closed _ hc]
    exact hc
  receive limit c w hc := by
    change (c.guarded (stream.readMessage limit)).2.isOpen = false
    rw [guarded_closed _ hc]
    exact hc

theorem Script.channel_shuts : channel.Shuts where
  invalidate _ _ := rfl
  send _ _ _ hc := hc
  receive _ _ _ hc := hc

namespace PoolDirectory

variable {ω κ : Type}

-- The connections that are idle in the pool at a place.
def idleAt (d : PoolDirectory κ) (place : Nat) : Option (List κ) :=
  d.pools[place]?.map fun entry => entry.pool.idle

-- What comes of a connection that comes back to the pool at a place.
structure Returned (c : Connector (StateM ω) κ) (place : Nat) (k : κ)
    (way : Manager (StateM ω) κ ConnectFault → κ →
      Pool.Action (StateM ω) κ (Except PoolFault Wake))
    (d : PoolDirectory κ) (w : ω) (outcome : Option (Except PoolFault Wake))
    (d' : PoolDirectory κ) (w' : ω) : Prop where
  run : onPool place (fun entry => way (c.manager entry.address) k) d w = ((outcome, d'), w')
  -- a pool that has lent a connection has lent one less, and is not overdrawn
  counted : ∀ entry count, d.pools[place]? = some entry → entry.pool.Lends (count + 1) →
    outcome = some (.ok .one) ∧
      ∃ pool, d' = d.withPool place entry pool ∧ pool.Lends count
  -- what is closed does not become idle
  refused : c.channel.isOpen k = false → ∀ other, d'.idleAt other = d.idleAt other

theorem poolFor_ok {c : Connector (StateM ω) κ} {address : ServerAddress} {d base : PoolDirectory κ}
    {w w' : ω} {place : Nat} (h : poolFor c address d w = ((.ok place, base), w')) :
    ∃ entry, base.pools[place]? = some entry ∧ entry.address = address := by
  rw [poolFor_run] at h
  cases hfind : d.find? address with
  | some found =>
      rw [hfind] at h
      cases h
      obtain ⟨entry, hentry, haddress, _⟩ := find?_some hfind
      exact ⟨entry, hentry, haddress⟩
  | none =>
      rw [hfind] at h
      dsimp only at h
      rcases hstart : Pool.start (c.manager address) (d.configFor address) w with ⟨outcome, after⟩
      rw [hstart] at h
      cases outcome with
      | error e => cases h
      | ok pool =>
          cases h
          exact ⟨_, List.getElem?_concat_length, rfl⟩

-- A lease comes from the pool of the address that was asked for.
theorem lease_ok {c : Connector (StateM ω) κ} {address : ServerAddress} {d d' : PoolDirectory κ}
    {w w' : ω} {l : Lease κ} (h : lease c address d w = ((.ok l, d'), w')) :
    (∃ k, l = ⟨l.place, address, some k⟩) ∧
      ∃ entry, d'.pools[l.place]? = some entry ∧ entry.address = address := by
  rw [lease_run] at h
  rcases hpool : poolFor c address d w with ⟨⟨outcome, base⟩, after⟩
  rw [hpool] at h
  cases outcome with
  | error e => cases h
  | ok place =>
      obtain ⟨entry, hentry, haddress⟩ := poolFor_ok hpool
      dsimp only at h
      rw [onPool_run, hentry] at h
      dsimp only at h
      rcases hacquire : Pool.acquire (c.manager address) (c.channel.now after).1 entry.pool
        (c.channel.now after).2 with ⟨⟨outcome, pool⟩, w''⟩
      rw [hacquire] at h
      cases outcome with
      | error e => cases h
      | ok k =>
          cases h
          exact ⟨⟨k, rfl⟩, _, withPool_getElem hentry pool, haddress⟩

theorem withPool_idleAt {d : PoolDirectory κ} {place : Nat} {entry : AddressPool κ}
    (h : d.pools[place]? = some entry) {pool : Pool κ} (hidle : pool.idle = entry.pool.idle)
    (other : Nat) : (d.withPool place entry pool).idleAt other = d.idleAt other := by
  unfold idleAt
  by_cases hother : other = place
  · rw [hother, withPool_getElem h, h]
    exact congrArg some hidle
  · exact congrArg _ (List.getElem?_set_ne (Ne.symm hother))

end PoolDirectory

namespace Pool

variable {ω κ : Type} (c : Connector (StateM ω) κ) (address : ServerAddress) (k : κ) (p : Pool κ)
  (w : ω)

theorem remove_idle : (remove (c.manager address) k p w).1.2.idle = p.idle := by
  rcases Nat.eq_zero_or_pos p.total with htotal | htotal
  · have hlower : p.lower 1 = .error .overdrawn := by
      unfold lower
      rw [htotal]
      rfl
    simp only [remove, bind_state, get_state, hlower]
    rfl
  · rw [remove_run _ htotal]
    rfl

theorem manager_release_run : release (c.manager address) k p w =
    if c.channel.isOpen k && !p.closed && p.mayKeep then ((.ok .one, p.keep k), w)
    else remove (c.manager address) k p w :=
  release_run (c.manager address) k p w

theorem release_idle (h : c.channel.isOpen k = false) :
    (release (c.manager address) k p w).1.2.idle = p.idle := by
  rw [manager_release_run, h]
  exact remove_idle c address k p w

theorem remove_lent {count : Nat} (hp : p.Lends (count + 1)) :
    (remove (c.manager address) k p w).1.1 = .ok .one ∧
      (remove (c.manager address) k p w).1.2.Lends count := by
  refine ⟨?_, remove_lends (c.manager address) hp k w⟩
  rw [remove_run _ hp.one_le_total]

theorem release_lent {count : Nat} (hp : p.Lends (count + 1)) :
    (release (c.manager address) k p w).1.1 = .ok .one ∧
      (release (c.manager address) k p w).1.2.Lends count := by
  rw [manager_release_run]
  split
  · refine ⟨rfl, ?_⟩
    unfold Lends keep at *
    rw [List.length_append, List.length_singleton]
    dsimp only
    omega
  · exact remove_lent c address k p w hp

end Pool

namespace Lease

-- How the holder of a lease parts with it.
inductive Farewell where
  | discard
  | drop
deriving DecidableEq

section

variable {m : Type → Type} [Monad m] {κ : Type}

-- What was discarded goes out of scope after that, like everything else.
def part (c : Connector m κ) : Farewell → Action m κ Unit
  | .discard => do
    discard c
    close c
  | .drop => close c

-- A lease from the first stage to the last.
def course (c : Connector m κ) (stages : List (Stage (PoolDirectory.Action m κ)))
    (farewell : Farewell) : Action m κ (List (Use × Bool)) := do
  let told ← (channel c).attend stages
  part c farewell
  return told

-- The way in which the connection of a lease comes back to its pool.
def Farewell.way (farewell : Farewell) (stages : List (Stage (PoolDirectory.Action m κ))) :
    Manager m κ ConnectFault → κ → Pool.Action m κ (Except PoolFault Wake) :=
  if farewell = .discard ∧ stages.any Stage.closes = false then Pool.remove else Pool.release

end

section

variable {ω κ : Type} (c : Connector (StateM ω) κ) (place : Nat) (address : ServerAddress)

-- Whichever way a connection comes back, the pool counts it once, and does not keep a closed one.
theorem way_returned {farewell : Farewell} {stages : List (LoanStage ω κ)} {k : κ}
    {d d' : PoolDirectory κ} {w w' : ω} {outcome : Option (Except PoolFault Wake)}
    (hrun : PoolDirectory.onPool place
      (fun entry => farewell.way stages (c.manager entry.address) k) d w = ((outcome, d'), w')) :
    PoolDirectory.Returned c place k (farewell.way stages) d w outcome d' w' := by
  refine ⟨hrun, fun entry count hentry hlends => ?_, fun hclosed other => ?_⟩
  · rw [PoolDirectory.onPool_run, hentry] at hrun
    cases hrun
    have hway : (farewell.way stages (c.manager entry.address) k entry.pool w).1.1 = .ok .one ∧
        (farewell.way stages (c.manager entry.address) k entry.pool w).1.2.Lends count := by
      unfold Farewell.way
      split
      · exact Pool.remove_lent c entry.address k entry.pool w hlends
      · exact Pool.release_lent c entry.address k entry.pool w hlends
    exact ⟨congrArg some hway.1, _, rfl, hway.2⟩
  · rw [PoolDirectory.onPool_run] at hrun
    cases hentry : d.pools[place]? with
    | none =>
        rw [hentry] at hrun
        cases hrun
        rfl
    | some entry =>
        rw [hentry] at hrun
        cases hrun
        refine PoolDirectory.withPool_idleAt hentry ?_ other
        unfold Farewell.way
        split
        · exact Pool.remove_idle c entry.address k entry.pool w
        · exact Pool.release_idle c entry.address k entry.pool w hclosed

theorem meet_some {demand : Demand} (h : demand ≠ .close) {k k' : κ} {use : Use} {w w' : ω}
    (hmeet : c.channel.meet demand k w = ((use, k'), w')) (d : PoolDirectory κ) :
    (channel c).meet demand ⟨place, address, some k⟩ d w =
      (((use, ⟨place, address, some k'⟩), d), w') := by
  have hlease : (channel c).meet demand ⟨place, address, some k⟩ d w =
      ((((c.channel.meet demand k w).1.1,
        ⟨place, address, some (c.channel.meet demand k w).1.2⟩), d),
        (c.channel.meet demand k w).2) := by
    cases demand with
    | send bytes => rfl
    | receive limit => rfl
    | invalidate => rfl
    | close => exact absurd rfl h
  rw [hlease, hmeet]

theorem meet_none (demand : Demand) (d : PoolDirectory κ) (w : ω) :
    (channel c).meet demand ⟨place, address, none⟩ d w =
      (((demand.refusal address, ⟨place, address, none⟩), d), w) := by
  cases demand with
  | _ => rfl

theorem handBack_some (back : Manager (StateM ω) κ ConnectFault → κ →
      Pool.Action (StateM ω) κ (Except PoolFault Wake)) {k : κ} {d d' : PoolDirectory κ} {w w' : ω}
    {outcome : Option (Except PoolFault Wake)}
    (h : PoolDirectory.onPool place (fun entry => back (c.manager entry.address) k) d w =
      ((outcome, d'), w')) :
    handBack back c ⟨place, address, some k⟩ d w = ((((), ⟨place, address, none⟩), d'), w') := by
  have hback : handBack back c ⟨place, address, some k⟩ d w =
      ((((), ⟨place, address, none⟩),
        (PoolDirectory.onPool place (fun entry => back (c.manager entry.address) k) d w).1.2),
        (PoolDirectory.onPool place (fun entry => back (c.manager entry.address) k) d w).2) := rfl
  rw [hback, h]

-- As long as it has not been closed, a lease is used like the connection that it holds.
theorem attend_some {stages : List (LoanStage ω κ)} {told : List (Use × Bool)} {k k' : κ}
    {d d' : PoolDirectory κ} {w w' : ω}
    (h : c.channel.Attends stages k d w told k' d' w') :
    (channel c).attend stages ⟨place, address, some k⟩ d w =
      (((told, ⟨place, address, some k'⟩), d'), w') := by
  induction h with
  | done => rfl
  | others hact hrest ih => exact Channel.attend_others hact ih
  | asked hdemand hmeet hrest ih =>
      exact Channel.attend_ask (meet_some c place address hdemand hmeet _) ih

-- After that it refuses everything, and does nothing.
theorem attend_none (stages : List (LoanStage ω κ)) {d d' : PoolDirectory κ} {w w' : ω}
    (hrun : Stage.elsewhere stages d w = (((), d'), w')) :
    (channel c).attend stages ⟨place, address, none⟩ d w =
      ((((Stage.demands stages).map fun demand => (demand.refusal address, false),
        ⟨place, address, none⟩), d'), w') := by
  induction stages generalizing d w with
  | nil =>
      cases hrun
      rfl
  | cons stage rest ih =>
      cases stage with
      | ask demand => exact Channel.attend_ask (meet_none c place address demand d w) (ih hrun)
      | others act =>
          rcases hact : act d w with ⟨⟨⟨⟩, d₁⟩, w₁⟩
          have hthen : Stage.elsewhere (.others act :: rest) d w = Stage.elsewhere rest d₁ w₁ := by
            rw [Stage.elsewhere, bind_state, hact]
          exact Channel.attend_others hact (ih (hthen.symm.trans hrun))

theorem part_none (farewell : Farewell) (d : PoolDirectory κ) (w : ω) :
    part c farewell ⟨place, address, none⟩ d w = ((((), ⟨place, address, none⟩), d), w) := by
  cases farewell with
  | discard => rfl
  | drop => rfl

theorem meet_close {k : κ} {d d' : PoolDirectory κ} {w w' : ω}
    {outcome : Option (Except PoolFault Wake)}
    (h : PoolDirectory.onPool place (fun entry => Pool.release (c.manager entry.address) k) d w =
      ((outcome, d'), w')) :
    (channel c).meet .close ⟨place, address, some k⟩ d w =
      (((.closed, ⟨place, address, none⟩), d'), w') := by
  have hclose := handBack_some c place address Pool.release h
  have hmeet : (channel c).meet .close ⟨place, address, some k⟩ d w =
      (((.closed, (handBack Pool.release c ⟨place, address, some k⟩ d w).1.1.2),
        (handBack Pool.release c ⟨place, address, some k⟩ d w).1.2),
        (handBack Pool.release c ⟨place, address, some k⟩ d w).2) := rfl
  rw [hmeet, hclose]

theorem part_some {farewell : Farewell} {k : κ} {d d' : PoolDirectory κ} {w w' : ω}
    {outcome : Option (Except PoolFault Wake)}
    (h : PoolDirectory.onPool place (fun entry =>
      (if farewell = .discard then Pool.remove else Pool.release) (c.manager entry.address) k) d w =
        ((outcome, d'), w')) :
    part c farewell ⟨place, address, some k⟩ d w = ((((), ⟨place, address, none⟩), d'), w') := by
  cases farewell with
  | drop => exact handBack_some c place address Pool.release h
  | discard =>
      have hdiscard := handBack_some c place address Pool.remove h
      rw [part, bind_states, discard, hdiscard]
      rfl

theorem course_run {stages : List (LoanStage ω κ)} {farewell : Farewell}
    {told : List (Use × Bool)} {l l' l'' : Lease κ} {d d' d'' : PoolDirectory κ} {w w' w'' : ω}
    (hattend : (channel c).attend stages l d w = (((told, l'), d'), w'))
    (hpart : part c farewell l' d' w' = ((((), l''), d''), w'')) :
    course c stages farewell l d w = (((told, l''), d''), w'') := by
  rw [course, bind_states, hattend, bind_states, hpart]
  rfl

-- A lease from its beginning to its end. The connection is used as if nobody had lent it until it
-- comes back to the pool that it came from, which happens once; from then on the lease refuses
-- whatever is asked, and nothing more is done on its part.
inductive Lives (c : Connector (StateM ω) κ) (l : Lease κ) (stages : List (LoanStage ω κ))
    (farewell : Farewell) (d : PoolDirectory κ) (w : ω) :
    List (Use × Bool) → Lease κ → PoolDirectory κ → ω → Prop where
  | once {k k' : κ} {told : List (Use × Bool)} {outcome : Option (Except PoolFault Wake)}
      {d₁ d₂ d₃ : PoolDirectory κ} {w₁ w₂ w₃ : ω} (hheld : l = ⟨l.place, l.address, some k⟩)
      (huses : c.channel.Attends (Stage.early stages) k d w told k' d₁ w₁)
      (hback : PoolDirectory.Returned c l.place k' (farewell.way stages) d₁ w₁ outcome d₂ w₂)
      (hothers : Stage.elsewhere (Stage.late stages) d₂ w₂ = (((), d₃), w₃))
      (hshuts : c.channel.Shuts → (∃ entry ∈ told, entry.1 = .invalidated ∨ entry.2 = false) →
        c.channel.isOpen k' = false) :
      Lives c l stages farewell d w
        (told ++ (Stage.demands (Stage.late stages)).map fun demand =>
          (demand.refusal l.address, false))
        ⟨l.place, l.address, none⟩ d₃ w₃

theorem course_lives (stages : List (LoanStage ω κ)) (farewell : Farewell) (k : κ)
    (d : PoolDirectory κ) (w : ω) :
    Lives c ⟨place, address, some k⟩ stages farewell d w
      (course c stages farewell ⟨place, address, some k⟩ d w).1.1.1
      (course c stages farewell ⟨place, address, some k⟩ d w).1.1.2
      (course c stages farewell ⟨place, address, some k⟩ d w).1.2
      (course c stages farewell ⟨place, address, some k⟩ d w).2 := by
  obtain ⟨told, k', d₁, w₁, huses⟩ := c.channel.exists_attends (Stage.early_closes stages) k d w
  rcases hback : PoolDirectory.onPool place
    (fun entry => farewell.way stages (c.manager entry.address) k') d₁ w₁ with ⟨⟨outcome, d₂⟩, w₂⟩
  rcases hothers : Stage.elsewhere (Stage.late stages) d₂ w₂ with ⟨⟨⟨⟩, d₃⟩, w₃⟩
  have hcourse : course c stages farewell ⟨place, address, some k⟩ d w =
      (((told ++ (Stage.demands (Stage.late stages)).map fun demand =>
        (demand.refusal address, false), ⟨place, address, none⟩), d₃), w₃) := by
    have hearly := attend_some c place address huses
    rcases Stage.late_cases stages with ⟨hlate, hcloses⟩ | ⟨rest, hlate, hcloses⟩
    · -- it comes back when its holder parts with it
      have hwhole := hearly
      rw [← List.append_nil (Stage.early stages), ← hlate, Stage.early_append_late] at hwhole
      rw [hlate] at hothers ⊢
      cases hothers
      simp only [Farewell.way, hcloses, and_true] at hback
      rw [course_run c hwhole (part_some c place address hback)]
      exact congrArg (fun all => (((all, _), _), _)) (List.append_nil told).symm
    · -- it comes back as soon as it is closed
      simp only [Farewell.way, hcloses, Bool.true_eq_false, and_false, if_false] at hback
      rw [hlate] at hothers ⊢
      have hclose := Channel.attend_ask (meet_close c place address hback)
        (attend_none c place address rest hothers)
      have hwhole := Channel.attend_both hearly hclose
      rw [← hlate, Stage.early_append_late] at hwhole
      exact course_run c hwhole (part_none c place address farewell d₃ w₃)
  rw [hcourse]
  exact .once rfl huses (way_returned c place hback) hothers fun hshuts htold =>
    huses.shut hshuts (.inr htold)

-- Whatever is done with a lease that is given out, in whatever order, and whatever others do in the
-- meantime: its connection comes back once to the pool of the address.
theorem handed_back_once {l : Lease κ} {d₀ d : PoolDirectory κ} {w₀ w : ω}
    (hlease : PoolDirectory.lease c address d₀ w₀ = ((.ok l, d), w))
    (stages : List (LoanStage ω κ)) (farewell : Farewell) :
    l.address = address ∧
      (∃ entry, d.pools[l.place]? = some entry ∧ entry.address = address) ∧
      Lives c l stages farewell d w (course c stages farewell l d w).1.1.1
        (course c stages farewell l d w).1.1.2 (course c stages farewell l d w).1.2
        (course c stages farewell l d w).2 := by
  obtain ⟨⟨k, hheld⟩, hentry⟩ := PoolDirectory.lease_ok hlease
  have hlives := course_lives c l.place address stages farewell k d w
  rw [← hheld] at hlives
  exact ⟨congrArg Lease.address hheld, hentry, hlives⟩

end

-- A scripted connection is given up, closed, and then asked for a message and discarded.
theorem scripted_handed_back :
    let address : ServerAddress := ⟨"localhost", 27017⟩
    let before : Script := ⟨[], [], [], 0, 0, []⟩
    let opened : Script := ⟨[], [], [], 1, 0, [.opened 0 address]⟩
    let closed : Script := ⟨[], [], [], 1, 0, [.opened 0 address, .closed 0, .closed 0]⟩
    let empty : PoolDirectory ScriptedConnection := .ofConfig .unlimited
    let lent := empty.add address ⟨empty.configFor address, [], 1, false, false⟩
    let returned := empty.add address ⟨empty.configFor address, [], 0, false, false⟩
    let l : Lease ScriptedConnection := ⟨0, address, some ⟨0, address, true⟩⟩
    PoolDirectory.lease Script.connector address empty before = ((.ok l, lent), opened) ∧
      Script.channel.Shuts ∧
      Lives Script.connector l [.ask .invalidate, .ask .close, .ask (.receive 48)] .discard lent opened
        [(.invalidated, false), (.closed, false), (.received 48 (.error (.closed address)), false)]
        ⟨0, address, none⟩ returned closed := by
  intro address before opened closed empty lent returned l
  have hlease : PoolDirectory.lease Script.connector address empty before =
      ((.ok l, lent), opened) := rfl
  obtain ⟨_, _, hlives⟩ := handed_back_once Script.connector address hlease
    [.ask .invalidate, .ask .close, .ask (.receive 48)] .discard
  exact ⟨hlease, Script.channel_shuts, hlives⟩

end Lease

end DocWire
