import DocWire.Connection.Script
import DocWire.Proofs.Connection.Report
import DocWire.Proofs.Session.Loans

namespace DocWire

variable {ω κ : Type}

namespace Session

variable {c : Connector (StateM ω) κ} {since : Nat} {d : PoolDirectory (Numbered (Addressed κ))}

-- A round trip changes nothing of a connection that its pool goes by.
theorem roundTrip_keeps_origin (c : Connector (StateM ω) κ) (x : Exchange)
    (r : Numbered (Addressed κ)) (b : Books ω) :
    (x.roundTrip c.addressed.booked.channel r b).1.2.number = r.number ∧
      (x.roundTrip c.addressed.booked.channel r b).1.2.content.address = r.content.address ∧
      (x.roundTrip c.addressed.booked.channel r b).2.created = b.created := by
  simpa using x.roundTrip_view c.addressed_keeps r b

-- With its connection, a call is a lease that is used and handed back.
theorem converse_grows {server : ServerAddress} {held : Nat → Nat} {x : Exchange}
    (hx : x.closeAfterwards = true) {l : Lease (Numbered (Addressed κ))}
    {base : PoolDirectory (Numbered (Addressed κ))} {b b' : Books ω}
    (haccounts : base.Accounts fun other => held other + l.held other)
    (hgrows : PoolDirectory.Grows c server since d b l.number base b')
    (hprovides : PoolDirectory.Provides c server since base l) :
    PoolDirectory.Grows c server since d b 0
      (converse (PoolDirectory.source c.addressed.booked) x l base b').1.2
      (converse (PoolDirectory.source c.addressed.booked) x l base b').2 := by
  have hplaced := Lease.placed_of_provides hprovides
  obtain ⟨r, hconnection, _⟩ := hprovides.serves
  obtain ⟨place, address, connection⟩ := l
  dsimp only at hconnection
  subst hconnection
  obtain ⟨entry, hentry, hlends⟩ := haccounts.lent
  obtain ⟨hnumber, haddress, hcreated⟩ :=
    roundTrip_keeps_origin c x r (c.addressed.booked.channel.now b').2
  generalize htrip : x.roundTrip c.addressed.booked.channel r (c.addressed.booked.channel.now b').2 =
    outcome at hnumber haddress hcreated
  obtain ⟨⟨response, r'⟩, b''⟩ := outcome
  obtain ⟨result, pool, after, hconverse, hback, hafter⟩ := converse_takesBack c.addressed hx hentry
    hlends.one_le_total address htrip
  have hsettles := PoolDirectory.withPool_settles hgrows.stocked hplaced hentry hnumber haddress
    hback id (hafter.trans hcreated)
  rw [hconverse]
  refine ⟨hsettles.stocked, hgrows.issues.trans hsettles.issues, ?_, ?_⟩
  · rw [hsettles.signs]
    exact hgrows.signs
  · exact (PoolDirectory.current_of_signs hsettles.signs).trans hgrows.current

theorem execute_grows (hc : c.Dependable) (call : Call) (decoder : Decoder Document) {s : Session}
    {server : ServerDescription} (hserver : s.select call.routing call.preference = .ok server)
    {held : Nat → Nat} (haccounts : d.Accounts held) (hd : d.Stocked c since) {b : Books ω}
    (hsince : since ≤ b.created) :
    PoolDirectory.Grows c server.address since d b 0
      (execute (PoolDirectory.source c.addressed.booked) call.routing call.preference decoder
        call.build s d b).1.2
      (execute (PoolDirectory.source c.addressed.booked) call.routing call.preference decoder
        call.build s d b).2 := by
  have hresponds := PoolDirectory.lease_responds hc server.address hd hsince
  have haccounted := (PoolDirectory.lease_leases c.addressed server.address d b).1.accounts haccounts
  rw [execute_state, prepare_state, hserver]
  dsimp only
  generalize PoolDirectory.lease c.addressed.booked server.address d b = outcome
    at hresponds haccounted ⊢
  obtain ⟨⟨outcome, base⟩, b'⟩ := outcome
  cases outcome with
  | error e => exact hresponds.toGrows
  | ok l =>
      exact converse_grows
        (x := ⟨call.build s.ids.draw.1 (.ofServer server), s.registry, decoder, true⟩) rfl haccounted
        hresponds.toGrows (hresponds.provides l rfl)

-- A call for which there is no server leaves the pools alone.
theorem execute_unselected (c : Connector (StateM ω) κ) (call : Call) (decoder : Decoder Document)
    {s : Session} {e : CommandError} (hserver : s.select call.routing call.preference = .error e)
    (d : PoolDirectory κ) (w : ω) :
    execute (PoolDirectory.source c) call.routing call.preference decoder call.build s d w =
      (((.error e, s), d), w) := by
  rw [execute_state, prepare_state, hserver]

end Session

namespace Borrower

-- The address for which something is asked of the pools.
def asks (errand : Errand) (s : Borrower ω κ) : Option ServerAddress :=
  match errand with
  | .borrow server => some server.address
  | .execute call _ =>
    (s.session.select call.routing call.preference).toOption.map ServerDescription.address
  | _ => none

-- The addresses whose pool has been built since the pools were last closed, after an errand.
def builds (c : Connector (StateM ω) κ) (errand : Errand) (s : Borrower ω κ)
    (built : List ServerAddress) : List ServerAddress :=
  match errand with
  | .close => []
  | _ => (s.asks errand).elim built fun address =>
    s.directory.builds c.booked address s.books built

-- The same after a number of errands.
def built (c : Connector (StateM ω) κ) :
    List Errand → Borrower ω κ → List ServerAddress → List ServerAddress
  | [], _, addresses => addresses
  | errand :: rest, s, addresses => built c rest (step c errand s) (builds c errand s addresses)

-- The numbers of the connections that the leases hold.
def inHand (leases : List (Lease (Numbered κ))) : Multiset Nat :=
  (leases.map Lease.number).sum

theorem inHand_append (leases more : List (Lease (Numbered κ))) :
    inHand (leases ++ more) = inHand leases + inHand more := by
  rw [inHand, List.map_append, List.sum_append]
  rfl

theorem inHand_split {leases : List (Lease (Numbered κ))} {place : Nat} {l : Lease (Numbered κ)}
    (h : leases[place]? = some l) : inHand leases = l.number + inHand (leases.eraseIdx place) :=
  sum_split Lease.number h

theorem inHand_set {leases : List (Lease (Numbered κ))} {place : Nat} {l : Lease (Numbered κ)}
    (h : leases[place]? = some l) (l' : Lease (Numbered κ)) :
    inHand (leases.set place l') = l'.number + inHand (leases.eraseIdx place) := by
  obtain ⟨hplace, _⟩ := List.getElem?_eq_some_iff.mp h
  rw [inHand_split (List.getElem?_set_self hplace), List.eraseIdx_set_eq]

theorem inHand_eraseIdx_le (leases : List (Lease (Numbered κ))) (place : Nat) :
    inHand (leases.eraseIdx place) ≤ inHand leases := by
  cases hlease : leases[place]? with
  | none => rw [List.eraseIdx_of_length_le (List.getElem?_eq_none_iff.mp hlease)]
  | some l =>
      rw [inHand_split hlease]
      exact Multiset.le_add_left _ _

theorem mem_inHand {leases : List (Lease (Numbered κ))} {l : Lease (Numbered κ)} {r : Numbered κ}
    (hl : l ∈ leases) (hr : l.connection = some r) : r.number ∈ inHand leases := by
  obtain ⟨place, hplace⟩ := List.mem_iff_getElem?.mp hl
  rw [inHand_split hplace, Multiset.mem_add, Lease.number, hr]
  exact .inl (Multiset.mem_singleton_self r.number)

-- The pools and the leases of a program, as far as the connections go that count: what is idle may be
-- lent, no connection is in two places, and the pools are those that have been built.
structure Sound (c : Connector (StateM ω) κ) (since : Nat) (built : List ServerAddress)
    (s : Borrower ω (Addressed κ)) : Prop where
  stocked : s.directory.Stocked c since
  distinct : Distinct (s.directory.stock + inHand s.leases) s.books.created
  placed : ∀ l ∈ s.leases, l.Placed since s.directory.signs
  current : s.directory.current = built
  since_le : since ≤ s.books.created

variable {c : Connector (StateM ω) κ} {since : Nat} {addresses : List ServerAddress}
  {s : Borrower ω (Addressed κ)}

theorem start_sound (c : Connector (StateM ω) κ) (session : Session) (config : PoolConfig)
    (outside : ω) : Sound c 0 [] (start session config outside) where
  stocked := .of_current c 0 rfl
  distinct := ⟨Multiset.nodup_zero, nofun⟩
  placed := nofun
  current := rfl
  since_le := le_rfl

-- The pools may grow, and leases may be added for what comes out of them.
theorem Sound.grows (hs : s.Sound c since addresses) {address : ServerAddress}
    {base : PoolDirectory (Numbered (Addressed κ))} {b : Books ω}
    {more : List (Lease (Numbered (Addressed κ)))}
    (h : PoolDirectory.Grows c address since s.directory s.books (inHand more) base b)
    (hmore : ∀ l ∈ more, l.Placed since base.signs) (session : Session) :
    Sound c since (s.directory.builds c.addressed.booked address s.books addresses)
      ⟨session, base, b, s.leases ++ more⟩ where
  stocked := h.stocked
  distinct := by
    have hissues := h.issues.add_right (inHand s.leases)
    rw [add_assoc, add_comm (inHand more), ← inHand_append] at hissues
    exact hissues.distinct hs.distinct
  placed := by
    intro l hl
    obtain ⟨new, hsigns⟩ := h.signs
    rcases List.mem_append.mp hl with hold | hnew
    · rw [hsigns]
      exact (hs.placed l hold).append new
    · exact hmore l hnew
  current := by
    rw [← hs.current]
    exact h.current
  since_le := hs.since_le.trans h.issues.opened_le

theorem Sound.grows_alone (hs : s.Sound c since addresses) {address : ServerAddress}
    {base : PoolDirectory (Numbered (Addressed κ))} {b : Books ω}
    (h : PoolDirectory.Grows c address since s.directory s.books 0 base b) (session : Session) :
    Sound c since (s.directory.builds c.addressed.booked address s.books addresses)
      ⟨session, base, b, s.leases⟩ := by
  have hnone : ∀ l ∈ ([] : List (Lease (Numbered (Addressed κ)))), l.Placed since base.signs := nofun
  have hsound := hs.grows h hnone session
  rw [List.append_nil] at hsound
  exact hsound

theorem Sound.borrow (hc : c.Dependable) (hs : s.Sound c since addresses)
    (server : ServerDescription) :
    Sound c since (s.directory.builds c.addressed.booked server.address s.books addresses)
      (s.borrow c.addressed server) := by
  have hresponds := PoolDirectory.lease_responds hc server.address hs.stocked hs.since_le
  unfold Borrower.borrow
  rw [PoolDirectory.connect_run]
  generalize PoolDirectory.lease c.addressed.booked server.address s.directory s.books = outcome
    at hresponds ⊢
  obtain ⟨⟨outcome, base⟩, b⟩ := outcome
  cases outcome with
  | error e =>
      have hsound := hs.grows_alone hresponds.toGrows s.session
      rw [← List.append_nil s.leases] at hsound
      exact hsound
  | ok l =>
      have hplaced := Lease.placed_of_provides (hresponds.provides l rfl)
      have hgrows : PoolDirectory.Grows c server.address since s.directory s.books (inHand [l])
          base b := by
        rw [inHand, List.map_singleton, List.sum_singleton]
        exact hresponds.toGrows
      refine hs.grows hgrows (fun other hother => ?_) s.session
      rw [List.mem_singleton.mp hother]
      exact hplaced

theorem Sound.execute (hc : c.Dependable) (hs : s.Sound c since addresses) (hbalanced : s.Balanced)
    (call : Call) (decoder : Decoder Document) :
    Sound c since (builds c.addressed (.execute call decoder) s addresses)
      (s.execute c.addressed call decoder) := by
  unfold Borrower.execute builds asks
  dsimp only
  cases hserver : s.session.select call.routing call.preference with
  | error e =>
      rw [Session.execute_unselected c.addressed.booked call decoder hserver]
      exact ⟨hs.stocked, hs.distinct, hs.placed, hs.current, hs.since_le⟩
  | ok server =>
      have hgrows := Session.execute_grows hc call decoder hserver hbalanced hs.stocked hs.since_le
      generalize Session.execute (PoolDirectory.source c.addressed.booked) call.routing
        call.preference decoder call.build s.session s.directory s.books = outcome at hgrows ⊢
      obtain ⟨⟨⟨outcome, session⟩, base⟩, b⟩ := outcome
      exact hs.grows_alone hgrows session

theorem Sound.onLease {β : Type}
    {use : Lease.Action (StateM (Books ω)) (Numbered (Addressed κ)) β} (huse : Lease.Tidy c use)
    (place : Nat) (hs : s.Sound c since addresses) (hbalanced : s.Balanced) :
    Sound c since addresses (s.onLease use place) := by
  unfold Borrower.onLease
  cases hlease : s.leases[place]? with
  | none => exact hs
  | some l =>
      unfold Balanced at hbalanced
      rw [held_split hlease] at hbalanced
      have hsettles := huse since _ l s.directory s.books hbalanced hs.stocked
        (hs.placed l (List.mem_of_getElem? hlease))
      dsimp only
      refine ⟨hsettles.stocked, ?_, ?_, ?_, ?_⟩
      · have hissues := hsettles.issues.add_right (inHand (s.leases.eraseIdx place))
        rw [add_assoc, add_assoc, ← inHand_split hlease, ← inHand_set hlease] at hissues
        exact hissues.distinct hs.distinct
      · intro other hother
        rw [hsettles.signs]
        rcases List.mem_or_eq_of_mem_set hother with hsame | rfl
        · exact hs.placed other hsame
        · exact hsettles.placed
      · exact (PoolDirectory.current_of_signs hsettles.signs).trans hs.current
      · rw [hsettles.created]
        exact hs.since_le

theorem Sound.giveUp {back : Lease.Action (StateM (Books ω)) (Numbered (Addressed κ)) Unit}
    (hback : Lease.Tidy c back) (place : Nat) (hs : s.Sound c since addresses)
    (hbalanced : s.Balanced) : Sound c since addresses (s.giveUp back place) := by
  have hused := hs.onLease hback place hbalanced
  have herased : s.leases.eraseIdx place = (s.onLease back place).leases.eraseIdx place := by
    unfold Borrower.onLease
    cases s.leases[place]? with
    | none => rfl
    | some l => exact List.eraseIdx_set_eq.symm
  unfold Borrower.giveUp
  rw [herased]
  refine ⟨hused.stocked, ?_, ?_, hused.current, hused.since_le⟩
  · have hless := add_le_add_right (inHand_eraseIdx_le (s.onLease back place).leases place)
      (s.onLease back place).directory.stock
    exact (Issues.of_le hless (s.onLease back place).books.created).distinct hused.distinct
  · intro l hl
    exact hused.placed l (List.mem_of_mem_eraseIdx hl)

-- Nothing is lent any more that was opened before the pools were closed.
theorem Sound.close (hs : s.Sound c since addresses) (hbalanced : s.Balanced) {later : Nat}
    (hlater : later ≤ s.books.created) : Sound c later [] (s.close c.addressed) := by
  obtain ⟨hsigns, hstock, hcreated⟩ := PoolDirectory.close_closes c.addressed hbalanced s.books
  have hcurrent := PoolDirectory.current_closed hsigns
  unfold Borrower.close
  generalize PoolDirectory.close c.addressed.booked s.directory s.books = outcome
    at hsigns hstock hcreated hcurrent ⊢
  obtain ⟨⟨_, directory⟩, books⟩ := outcome
  dsimp only at hsigns hstock hcreated hcurrent ⊢
  refine ⟨.of_current c later hcurrent, ?_, ?_, hcurrent, ?_⟩
  · have hissues := (Issues.of_le hstock s.books.created).add_right (inHand s.leases)
    rw [hcreated]
    exact hissues.distinct hs.distinct
  · intro l hl
    rw [hsigns]
    exact (hs.placed l hl).closed later
  · rw [hcreated]
    exact hlater

theorem Sound.step (hc : c.Dependable) (errand : Errand) (hs : s.Sound c since addresses)
    (hbalanced : s.Balanced) :
    Sound c since (builds c.addressed errand s addresses) (step c.addressed errand s) := by
  cases errand with
  | update cluster => exact ⟨hs.stocked, hs.distinct, hs.placed, hs.current, hs.since_le⟩
  | execute call decoder => exact hs.execute hc hbalanced call decoder
  | borrow server => exact hs.borrow hc server
  | send place bytes => exact hs.onLease (Lease.send_tidy c bytes) place hbalanced
  | receive place limit => exact hs.onLease (Lease.receive_tidy c limit) place hbalanced
  | invalidate place => exact hs.onLease (Lease.invalidate_tidy c) place hbalanced
  | handBack place => exact hs.onLease (Lease.close_tidy c) place hbalanced
  | letGo place => exact hs.giveUp (Lease.close_tidy c) place hbalanced
  | discard place => exact hs.giveUp (Lease.discard_tidy c) place hbalanced
  | close => exact hs.close hbalanced hs.since_le

theorem Sound.run (hc : c.Dependable) (errands : List Errand) (hs : s.Sound c since addresses)
    (hbalanced : s.Balanced) :
    Sound c since (built c.addressed errands s addresses) (run c.addressed errands s) := by
  induction errands generalizing s addresses with
  | nil => exact hs
  | cons errand rest ih =>
      exact ih (hs.step hc errand hbalanced) (step_balanced c.addressed errand hbalanced)

-- What comes of asking for a connection.
def ask (c : Connector (StateM ω) κ) (server : ServerDescription) (s : Borrower ω κ) :
    (Except CommandError (Lease (Numbered κ)) × PoolDirectory (Numbered κ)) × Books ω :=
  (PoolDirectory.source c.booked).connect server s.directory s.books

-- A connection as a program is given it that asks for an address after some errands: it was opened
-- for that address, is open, is in no other lease, and was opened after the pools were closed,
-- whenever that was.
structure Lent (c : Connector (StateM ω) κ) (errands : List Errand)
    (first s : Borrower ω (Addressed κ)) (address : ServerAddress) (r : Numbered (Addressed κ)) :
    Prop where
  address_eq : r.content.address = address
  isOpen : c.channel.isOpen r.content.content = true
  alone : ∀ l ∈ s.leases, ∀ q, l.connection = some q → q.number ≠ r.number
  recent : ∀ before later, errands = before ++ .close :: later →
    (run c.addressed before first).books.created ≤ r.number

-- What a program finds after some errands. A lease comes from the pool that is found for its
-- address; a pool that cannot be built changes nothing; and the usage is told, in order, of the
-- pools that have been built since they were last closed, each with as much on loan as is held of it.
structure Shares (c : Connector (StateM ω) κ) (errands : List Errand)
    (first s : Borrower ω (Addressed κ)) : Prop where
  lent : ∀ server l, (ask c.addressed server s).1.1 = .ok l →
    l.address = server.address ∧
      (ask c.addressed server s).1.2.find? server.address = some l.place ∧
      ∃ r, l.connection = some r ∧ Lent c errands first s server.address r
  unbuilt : ∀ (server : ServerDescription) (e : PoolError ConnectFault),
    server.address ∉ built c.addressed errands first [] →
      (Pool.start (c.addressed.booked.manager server.address)
        (s.directory.configFor server.address) s.books).1 = .error e →
      (ask c.addressed server s).1 = (.error (.pool e), s.directory)
  ascending : (s.directory.stats.map PoolStats.address).Pairwise ServerAddress.Before
  listed : ∀ address, address ∈ s.directory.stats.map PoolStats.address ↔
    address ∈ built c.addressed errands first []
  counted : ∀ report ∈ s.directory.stats, ∃ place,
    s.directory.find? report.address = some place ∧ report.active = held s.leases place ∧
      report.total = report.idle + report.active

-- What is given out is in no lease that there is already.
theorem Sound.provides (hc : c.Dependable) (hs : s.Sound c since addresses)
    {server : ServerDescription} {l : Lease (Numbered (Addressed κ))}
    (h : (ask c.addressed server s).1.1 = .ok l) :
    PoolDirectory.Provides c server.address since (ask c.addressed server s).1.2 l ∧
      ∀ r, l.connection = some r → r.number ∉ inHand s.leases := by
  have hresponds := PoolDirectory.lease_responds hc server.address hs.stocked hs.since_le
  unfold ask at h ⊢
  rw [PoolDirectory.connect_run] at h ⊢
  generalize PoolDirectory.lease c.addressed.booked server.address s.directory s.books = outcome
    at hresponds h ⊢
  obtain ⟨⟨outcome, base⟩, b⟩ := outcome
  cases outcome with
  | error e => cases h
  | ok other =>
      cases h
      refine ⟨hresponds.provides l rfl, fun r hr hheld => ?_⟩
      have hdistinct := (hresponds.issues.add_right (inHand s.leases)).distinct hs.distinct
      have hapart := (Multiset.nodup_add.mp hdistinct.nodup).2.2
      have hgiven : r.number ∈ l.number := by
        rw [Lease.number, hr]
        exact Multiset.mem_singleton_self r.number
      exact Multiset.disjoint_left.mp hapart (Multiset.mem_add.mpr (.inr hgiven)) hheld

theorem run_append (c : Connector (StateM ω) κ) (before later : List Errand) (s : Borrower ω κ) :
    run c (before ++ later) s = run c later (run c before s) :=
  List.foldl_append

-- Once the pools have been closed, what is given out was opened after that.
theorem Sound.recent (hc : c.Dependable) (hs : s.Sound c since addresses) (hbalanced : s.Balanced)
    {before later : List Errand} {server : ServerDescription}
    {l : Lease (Numbered (Addressed κ))} {r : Numbered (Addressed κ)}
    (h : (ask c.addressed server (Borrower.run c.addressed (before ++ .close :: later) s)).1.1 =
      .ok l) (hr : l.connection = some r) :
    (Borrower.run c.addressed before s).books.created ≤ r.number := by
  have hbefore := run_balanced c.addressed before hbalanced
  have hclosed := (hs.run hc before hbalanced).close hbefore le_rfl
  have hlater := hclosed.run hc later (step_balanced c.addressed .close hbefore)
  rw [run_append] at h
  obtain ⟨hprovides, _⟩ := hlater.provides hc h
  obtain ⟨q, hq, hserves⟩ := hprovides.serves
  cases hr.symm.trans hq
  exact hserves.recent

theorem ask_unbuilt (c : Connector (StateM ω) κ) {server : ServerDescription} {s : Borrower ω κ}
    {e : PoolError ConnectFault} (hnew : server.address ∉ s.directory.current)
    (hstart : (Pool.start (c.booked.manager server.address)
      (s.directory.configFor server.address) s.books).1 = .error e) :
    (ask c server s).1 = (.error (.pool e), s.directory) := by
  have hlease := PoolDirectory.lease_unbuilt c.booked hnew hstart
  unfold ask
  rw [PoolDirectory.connect_run]
  generalize PoolDirectory.lease c.booked server.address s.directory s.books = outcome at hlease ⊢
  obtain ⟨outcome, b⟩ := outcome
  cases hlease
  rfl

-- Whatever a program does, each connection is lent from the pool of its address to one at a time.
theorem pools_shared (c : Connector (StateM ω) κ) (hc : c.Dependable) (session : Session)
    (config : PoolConfig) (outside : ω) (errands : List Errand) :
    Shares c errands (start session config outside)
      (run c.addressed errands (start session config outside)) := by
  have hstart : (start session config outside : Borrower ω (Addressed κ)).Balanced :=
    start_balanced session config outside
  have hfirst := start_sound c session config outside
  have hs := hfirst.run hc errands hstart
  have hbalanced := run_balanced c.addressed errands hstart
  constructor
  case lent =>
    intro server l hl
    obtain ⟨hprovides, halone⟩ := hs.provides hc hl
    obtain ⟨r, hr, hserves⟩ := hprovides.serves
    refine ⟨hprovides.address_eq, hprovides.find?_eq, r, hr, hserves.address_eq, hserves.isOpen,
      ?_, ?_⟩
    · intro other hother q hq hsame
      exact halone r hr (hsame ▸ mem_inHand hother hq)
    · rintro before later rfl
      exact hfirst.recent hc hstart hl hr
  case unbuilt =>
    intro server e hnew hstarted
    rw [← hs.current] at hnew
    exact ask_unbuilt c.addressed hnew hstarted
  case ascending => exact PoolDirectory.stats_ascending _ hs.stocked.apart
  case listed =>
    intro address
    rw [← hs.current]
    exact (PoolDirectory.stats_addresses _).mem_iff
  case counted =>
    intro report hreport
    exact PoolDirectory.Accounts.stats hbalanced hs.stocked.apart hreport

end Borrower

theorem Script.connector_dependable : connector.Dependable := by
  intro address w k w' h
  change connect address w = (.ok k, w') at h
  unfold connect at h
  rw [bind_world] at h
  split at h
  · cases h
  · cases h
    rfl

namespace Borrower

-- A program whose connections are scripted, and that goes on after its pools were closed.
def scripted : Borrower Script (Addressed ScriptedConnection) :=
  start ⟨.standard, .empty, .first⟩ .unlimited ⟨[], [], [], 0, 0, []⟩

def reopening : List Errand :=
  [.borrow (.ofRole ⟨"db", 1⟩ .primary), .borrow (.ofRole ⟨"db", 2⟩ .secondary), .invalidate 0,
    .close, .letGo 0, .borrow (.ofRole ⟨"db", 1⟩ .primary)]

theorem reopening_shared :
    Script.connector.Dependable ∧
      Shares Script.connector reopening scripted
        (run Script.connector.addressed reopening scripted) ∧
      ∃ l, (ask Script.connector.addressed (.ofRole ⟨"db", 1⟩ .primary)
        (run Script.connector.addressed reopening scripted)).1.1 = .ok l :=
  ⟨Script.connector_dependable,
    pools_shared Script.connector Script.connector_dependable _ _ _ reopening, _, rfl⟩

example : built Script.connector.addressed reopening scripted [] = [⟨"db", 1⟩] := by rfl

end Borrower

end DocWire
