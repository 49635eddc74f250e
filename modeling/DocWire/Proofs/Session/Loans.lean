import DocWire.Proofs.Connection.Loans
import DocWire.Proofs.Session.Run
import Mathlib.Data.List.Perm.Basic

namespace DocWire

variable {ω κ : Type}

namespace PoolDirectory

-- What a call does to the pools. Either it gets no connection, or it hands back, once, the one that
-- it got.
inductive Passes (c : Connector (StateM ω) κ) (asks : ServerDescription → Exchange → Prop)
    (d : PoolDirectory (Numbered κ)) (b : Books ω) :
    PoolDirectory (Numbered κ) → Books ω → Prop where
  | unused {base : PoolDirectory (Numbered κ)} {b' : Books ω}
      (hnone : ∀ server x, asks server x → ∃ e, (lease c.booked server.address d b).1.1 = .error e)
      (hbase : d.Extends base) (hcleaned : b'.cleaned = b.cleaned) : Passes c asks d b base b'
  | used {server : ServerDescription} {x : Exchange} {base : PoolDirectory (Numbered κ)} {place : Nat}
      {entry : AddressPool (Numbered κ)} {lent pool : Pool (Numbered κ)} {k k' : Numbered κ}
      {response : Except CommandError Document} {b₁ b₂ b' : Books ω} (hasks : asks server x)
      (hbase : d.Extends base) (hentry : base.pools[place]? = some entry)
      (haddress : entry.address = server.address) (hout : entry.pool.HandsOut k lent)
      (hopen : lent.closed = false)
      (hlease : lease c.booked server.address d b =
        ((.ok ⟨place, server.address, some k⟩, base.withPool place entry lent), b₁))
      (htrip : x.roundTrip c.booked.channel k (c.booked.channel.now b₁).2 = ((response, k'), b₂))
      (hnumber : k'.number = k.number)
      (hback : lent.TakesBack (c.channel.isOpen k'.content) k' b.cleaned pool b'.cleaned) :
      Passes c asks d b (base.withPool place entry pool) b'

theorem Passes.accounts {c : Connector (StateM ω) κ} {asks : ServerDescription → Exchange → Prop}
    {d d' : PoolDirectory (Numbered κ)} {b b' : Books ω} {held : Nat → Nat}
    (h : Passes c asks d b d' b') (hd : d.Accounts held) : d'.Accounts held := by
  cases h with
  | unused hnone hbase hcleaned => exact hbase.accounts hd
  | used hasks hbase hentry haddress hout hopen hlease htrip hnumber hback =>
      have hbefore := hbase.accounts hd
      have hlent := hout.lends (hbefore.lends _ _ hentry)
      exact hbefore.withPool hentry (hback.lends hlent) fun _ _ => rfl

theorem connect_run (c : Connector (StateM ω) κ) (server : ServerDescription)
    (d : PoolDirectory κ) (w : ω) :
    (source c).connect server d w =
      match lease c server.address d w with
      | ((.ok l, d'), w') => ((.ok l, d'), w')
      | ((.error e, d'), w') => ((.error (.pool e), d'), w') := by
  unfold source
  dsimp only
  rw [bind_state]
  rcases lease c server.address d w with ⟨⟨outcome, d'⟩, w'⟩
  cases outcome with
  | ok l => rfl
  | error e => rfl

end PoolDirectory

-- The exchange that a call comes to with a server.
structure Call.Asks (call : Call) (decoder : Decoder Document) (s : Session)
    (server : ServerDescription) (x : Exchange) : Prop where
  selected : s.select call.routing call.preference = .ok server
  exchange_eq : x = ⟨call.build s.ids.draw.1 (.ofServer server), s.registry, decoder, true⟩

-- The same of finding and modifying, which asks nothing if it cannot be put into words.
def FindAndModify.Asks {β : Type} (f : FindAndModify β) (encoder : Encoder β) (database : String)
    (s : Session) (server : ServerDescription) (x : Exchange) : Prop :=
  ∃ command, f.toDocument = .ok command ∧
    (Call.ofModification f encoder database command).Asks s.registry.decodeDocument s server x

namespace Session

-- After its round trip a call hands its connection back, and at most looks at the clock after that.
theorem converse_ends (c : Connector (StateM ω) κ) {x : Exchange} (hx : x.closeAfterwards = true)
    {d d' : PoolDirectory κ} {place : Nat} (address : ServerAddress) {k k' : κ}
    {response : Except CommandError Document} {w w' w'' : ω}
    {answer : Option (Except PoolFault Wake)}
    (htrip : x.roundTrip c.channel k (c.channel.now w).2 = ((response, k'), w'))
    (hback : PoolDirectory.onPool place (fun entry => Pool.release (c.manager entry.address) k') d
      w' = ((answer, d'), w'')) :
    ∃ result after,
      converse (PoolDirectory.source c) x ⟨place, address, some k⟩ d w = ((result, d'), after) ∧
        (after = w'' ∨ after = (c.channel.now w'').2) := by
  rw [converse_run c hx, bind_state, lift_state, bind_state, lift_state]
  unfold StateT.run
  rw [htrip]
  dsimp only
  rw [bind_state, hback]
  cases response with
  | error e => exact ⟨_, _, rfl, .inl rfl⟩
  | ok d => exact ⟨_, _, rfl, .inr rfl⟩

theorem converse_takesBack (c : Connector (StateM ω) κ) {x : Exchange}
    (hx : x.closeAfterwards = true) {d : PoolDirectory (Numbered κ)} {place : Nat}
    {entry : AddressPool (Numbered κ)} (hentry : d.pools[place]? = some entry)
    (hone : 1 ≤ entry.pool.total) (address : ServerAddress) {k k' : Numbered κ}
    {response : Except CommandError Document} {b b' : Books ω}
    (htrip : x.roundTrip c.booked.channel k (c.booked.channel.now b).2 = ((response, k'), b')) :
    ∃ result pool after,
      converse (PoolDirectory.source c.booked) x ⟨place, address, some k⟩ d b =
        ((result, d.withPool place entry pool), after) ∧
      entry.pool.TakesBack (c.channel.isOpen k'.content) k' b'.cleaned pool after.cleaned ∧
      after.created = b'.created := by
  have htakes := Pool.release_takesBack c entry.address hone k' b'
  have hcreated := Pool.release_created c entry.address hone k' b'
  rcases hrelease : Pool.release (c.booked.manager entry.address) k' entry.pool b' with
    ⟨⟨answer, pool⟩, b''⟩
  rw [hrelease] at htakes hcreated
  have hback : PoolDirectory.onPool place
      (fun entry => Pool.release (c.booked.manager entry.address) k') d b' =
        ((some answer, d.withPool place entry pool), b'') := by
    rw [PoolDirectory.onPool_run, hentry]
    dsimp only
    rw [hrelease]
  obtain ⟨result, after, hconverse, hafter⟩ := converse_ends c.booked hx address htrip hback
  refine ⟨result, pool, after, hconverse, ?_⟩
  cases hafter with
  | inl hsame =>
      rw [hsame]
      exact ⟨htakes, hcreated⟩
  | inr hlater =>
      rw [hlater]
      exact ⟨htakes, hcreated⟩

variable (call : Call) (decoder : Decoder Document) (s : Session)

theorem prepare_state (c : Connector (StateM ω) κ) (d : PoolDirectory κ) (w : ω) :
    prepare (PoolDirectory.source c) call.routing call.preference decoder call.build s d w =
      match s.select call.routing call.preference with
      | .error e => (((.error e, s), d), w)
      | .ok server =>
        match PoolDirectory.lease c server.address d w with
        | ((.error e, d'), w') => (((.error (.pool e), { s with ids := s.ids.draw.2 }), d'), w')
        | ((.ok l, d'), w') =>
          (((.ok (⟨call.build s.ids.draw.1 (.ofServer server), s.registry, decoder, true⟩, l),
            { s with ids := s.ids.draw.2 }), d'), w') := by
  have hprepare := prepare_run (PoolDirectory.source c) call.routing call.preference decoder
    call.build s
  unfold StateT.run at hprepare
  rw [hprepare]
  cases s.select call.routing call.preference with
  | error e => rfl
  | ok server =>
      dsimp only
      rw [bind_state, PoolDirectory.connect_run]
      rcases PoolDirectory.lease c server.address d w with ⟨⟨outcome, d'⟩, w'⟩
      cases outcome with
      | error e => rfl
      | ok l => rfl

theorem execute_passes (c : Connector (StateM ω) κ) {d : PoolDirectory (Numbered κ)}
    {held : Nat → Nat} (hd : d.Accounts held) (b : Books ω) :
    PoolDirectory.Passes c (call.Asks decoder s) d b
      (execute (PoolDirectory.source c.booked) call.routing call.preference decoder call.build
        s d b).1.2
      (execute (PoolDirectory.source c.booked) call.routing call.preference decoder call.build
        s d b).2 := by
  rw [execute_state, prepare_state]
  cases hserver : s.select call.routing call.preference with
  | error e =>
      refine .unused (fun server x hasks => ?_) .same rfl
      cases hserver.symm.trans hasks.selected
  | ok server =>
      obtain ⟨hleases, hcleaned⟩ := PoolDirectory.lease_leases c server.address d b
      dsimp only
      rcases hlease : PoolDirectory.lease c.booked server.address d b with ⟨⟨outcome, base⟩, b₁⟩
      rw [hlease] at hleases hcleaned
      dsimp only at hleases hcleaned ⊢
      cases hleases with
      | @refused base e hbase =>
          refine .unused (fun other x hasks => ⟨e, ?_⟩) hbase hcleaned
          cases hserver.symm.trans hasks.selected
          rw [hlease]
      | @lent base place entry k lent hbase hentry haddress hopen hout =>
          have hlent := hout.lends ((hbase.accounts hd).lends _ _ hentry)
          have hkeeps := Exchange.roundTrip_keeps
            ⟨call.build s.ids.draw.1 (.ofServer server), s.registry, decoder, true⟩ c.channel k
            (c.booked.channel.now b₁).2
          rcases htrip : Exchange.roundTrip
            ⟨call.build s.ids.draw.1 (.ofServer server), s.registry, decoder, true⟩ c.booked.channel
            k (c.booked.channel.now b₁).2 with ⟨⟨response, k'⟩, b₂⟩
          rw [show c.channel.booked = c.booked.channel from rfl, htrip] at hkeeps
          obtain ⟨result, pool, after, hconverse, hback, _⟩ := converse_takesBack c rfl
            (PoolDirectory.withPool_getElem hentry lent) hlent.one_le_total server.address htrip
          have hbooks : b₂.cleaned = b.cleaned := hkeeps.2.trans hcleaned
          rw [hbooks] at hback
          rw [PoolDirectory.withPool_withPool] at hconverse
          dsimp only
          rw [hconverse]
          exact .used ⟨hserver, rfl⟩ hbase hentry haddress hout (hout.closed_eq.trans hopen) hlease
            htrip hkeeps.1 hback

end Session

-- A program that runs commands, and beside them holds leases of its own.
structure Borrower (ω κ : Type) where
  session : Session
  directory : PoolDirectory (Numbered κ)
  books : Books ω
  leases : List (Lease (Numbered κ))

-- What it can do: hear of other servers, run a call, lease a connection, use a lease in any way and
-- as often as it likes, let go of it or discard it, and close its pools.
inductive Errand where
  | update (cluster : Cluster)
  | execute (call : Call) (decoder : Decoder Document)
  | borrow (server : ServerDescription)
  | send (place : Nat) (bytes : ByteArray)
  | receive (place limit : Nat)
  | invalidate (place : Nat)
  | handBack (place : Nat)
  | letGo (place : Nat)
  | discard (place : Nat)
  | close

namespace Borrower

def start (session : Session) (config : PoolConfig) (outside : ω) : Borrower ω κ :=
  ⟨session, .ofConfig config, .empty outside, []⟩

-- How many connections are on loan from the pool at a place.
def held (leases : List (Lease (Numbered κ))) (place : Nat) : Nat :=
  leases.countP fun l => l.holds place

def execute (c : Connector (StateM ω) κ) (call : Call) (decoder : Decoder Document)
    (s : Borrower ω κ) : Borrower ω κ :=
  match Session.execute (PoolDirectory.source c.booked) call.routing call.preference decoder
      call.build s.session s.directory s.books with
  | (((_, session), directory), books) => ⟨session, directory, books, s.leases⟩

def borrow (c : Connector (StateM ω) κ) (server : ServerDescription) (s : Borrower ω κ) :
    Borrower ω κ :=
  match (PoolDirectory.source c.booked).connect server s.directory s.books with
  | ((outcome, directory), books) =>
    ⟨s.session, directory, books, s.leases ++ outcome.toOption.toList⟩

-- Does something with one of the leases, which is kept.
def onLease {β : Type} (use : Lease.Action (StateM (Books ω)) (Numbered κ) β) (place : Nat)
    (s : Borrower ω κ) : Borrower ω κ :=
  match s.leases[place]? with
  | none => s
  | some l =>
    let used := use l s.directory s.books
    ⟨s.session, used.1.2, used.2, s.leases.set place used.1.1.2⟩

-- The same for the last time.
def giveUp (back : Lease.Action (StateM (Books ω)) (Numbered κ) Unit) (place : Nat)
    (s : Borrower ω κ) : Borrower ω κ :=
  { onLease back place s with leases := s.leases.eraseIdx place }

def close (c : Connector (StateM ω) κ) (s : Borrower ω κ) : Borrower ω κ :=
  match PoolDirectory.close c.booked s.directory s.books with
  | ((_, directory), books) => { s with directory := directory, books := books }

def update (cluster : Cluster) (s : Borrower ω κ) : Borrower ω κ :=
  { s with session := ((Session.updateTopology cluster : Session.Action Id Unit).run s.session).2 }

def step (c : Connector (StateM ω) κ) : Errand → Borrower ω κ → Borrower ω κ
  | .update cluster, s => s.update cluster
  | .execute call decoder, s => s.execute c call decoder
  | .borrow server, s => s.borrow c server
  | .send place bytes, s => s.onLease ((Lease.channel c.booked).send bytes) place
  | .receive place limit, s => s.onLease ((Lease.channel c.booked).receive limit) place
  | .invalidate place, s => s.onLease (Lease.channel c.booked).invalidate place
  | .handBack place, s => s.onLease (Lease.channel c.booked).close place
  | .letGo place, s => s.giveUp (Lease.close c.booked) place
  | .discard place, s => s.giveUp (Lease.discard c.booked) place
  | .close, s => s.close c

def run (c : Connector (StateM ω) κ) (errands : List Errand) (s : Borrower ω κ) : Borrower ω κ :=
  errands.foldl (fun s errand => step c errand s) s

-- Every pool lends as many connections as the program holds of it.
def Balanced (s : Borrower ω κ) : Prop :=
  s.directory.Accounts (held s.leases)

theorem held_split {leases : List (Lease (Numbered κ))} {place : Nat} {l : Lease (Numbered κ)}
    (h : leases[place]? = some l) :
    held leases = fun other => held (leases.eraseIdx place) other + l.held other := by
  obtain ⟨hplace, rfl⟩ := List.getElem?_eq_some_iff.mp h
  funext other
  have hperm := List.getElem_cons_eraseIdx_perm hplace
  have hcount := hperm.countP_eq fun l => l.holds other
  rw [List.countP_cons] at hcount
  exact hcount.symm

theorem held_set {leases : List (Lease (Numbered κ))} {place : Nat} {l : Lease (Numbered κ)}
    (h : leases[place]? = some l) (l' : Lease (Numbered κ)) :
    held (leases.set place l') =
      fun other => held (leases.eraseIdx place) other + l'.held other := by
  obtain ⟨hplace, _⟩ := List.getElem?_eq_some_iff.mp h
  rw [held_split (List.getElem?_set_self hplace), List.eraseIdx_set_eq]

theorem held_append (leases more : List (Lease (Numbered κ))) :
    held (leases ++ more) = fun other => held leases other + held more other := by
  funext other
  exact List.countP_append

theorem onLease_balanced {β : Type} {use : Lease.Action (StateM (Books ω)) (Numbered κ) β}
    (huse : Lease.Accounted use) (place : Nat) {s : Borrower ω κ} (hs : s.Balanced) :
    (s.onLease use place).Balanced := by
  unfold onLease
  cases hlease : s.leases[place]? with
  | none => exact hs
  | some l =>
      unfold Balanced at hs ⊢
      dsimp only
      rw [held_split hlease] at hs
      rw [held_set hlease]
      exact huse _ l s.directory s.books hs

theorem giveUp_balanced {back : Lease.Action (StateM (Books ω)) (Numbered κ) Unit}
    (haccounted : Lease.Accounted back)
    (hnone : ∀ l d b, (back l d b).1.1.2.connection = none) (place : Nat) {s : Borrower ω κ}
    (hs : s.Balanced) : (s.giveUp back place).Balanced := by
  have hused := onLease_balanced haccounted place hs
  unfold Balanced at hused ⊢
  unfold giveUp
  cases hlease : s.leases[place]? with
  | none =>
      have hsame : s.leases.eraseIdx place = (s.onLease back place).leases := by
        rw [List.eraseIdx_of_length_le (List.getElem?_eq_none_iff.mp hlease), onLease, hlease]
      rw [hsame]
      exact hused
  | some l =>
      have hset : (s.onLease back place).leases =
          s.leases.set place (back l s.directory s.books).1.1.2 := by
        rw [onLease, hlease]
      rw [hset, held_set hlease] at hused
      simp only [Lease.held_of_none (hnone l s.directory s.books), Nat.add_zero] at hused
      exact hused

theorem borrow_balanced (c : Connector (StateM ω) κ) (server : ServerDescription)
    {s : Borrower ω κ} (hs : s.Balanced) : (s.borrow c server).Balanced := by
  obtain ⟨hleases, _⟩ := PoolDirectory.lease_leases c server.address s.directory s.books
  have hbefore := hleases.accounts hs
  unfold Balanced borrow
  rw [PoolDirectory.connect_run]
  rcases hlease : PoolDirectory.lease c.booked server.address s.directory s.books with
    ⟨⟨outcome, directory⟩, books⟩
  rw [hlease] at hbefore
  cases outcome with
  | error e =>
      dsimp only [Except.toOption, Option.toList]
      rw [List.append_nil]
      exact hbefore
  | ok l =>
      have hone : held [l] = l.held := by
        funext other
        exact List.countP_singleton
      dsimp only [Except.toOption, Option.toList]
      rw [held_append, hone]
      exact hbefore

-- Whatever it does next, the pools lend what it holds.
theorem step_balanced (c : Connector (StateM ω) κ) (errand : Errand) {s : Borrower ω κ}
    (hs : s.Balanced) : (step c errand s).Balanced := by
  cases errand with
  | update cluster => exact hs
  | execute call decoder =>
      exact (Session.execute_passes call decoder s.session c hs s.books).accounts hs
  | borrow server => exact borrow_balanced c server hs
  | send place bytes => exact onLease_balanced (Lease.send_accounted c bytes) place hs
  | receive place limit => exact onLease_balanced (Lease.receive_accounted c limit) place hs
  | invalidate place => exact onLease_balanced (Lease.onConnection_accounted _ _) place hs
  | handBack place => exact onLease_balanced (Lease.close_accounted c) place hs
  | letGo place =>
      exact giveUp_balanced (Lease.close_accounted c) (Lease.handBack_connection _ _) place hs
  | discard place =>
      exact giveUp_balanced (Lease.discard_accounted c) (Lease.handBack_connection _ _) place hs
  | close => exact PoolDirectory.close_accounts hs c.booked s.books

theorem run_balanced (c : Connector (StateM ω) κ) (errands : List Errand) {s : Borrower ω κ}
    (hs : s.Balanced) : (run c errands s).Balanced := by
  induction errands generalizing s with
  | nil => exact hs
  | cons errand rest ih => exact ih (step_balanced c errand hs)

theorem start_balanced (session : Session) (config : PoolConfig) (outside : ω) :
    (start session config outside : Borrower ω κ).Balanced :=
  PoolDirectory.ofConfig_accounts config

-- A call leaves as many connections on loan as it found, which are those that the program holds.
structure Restores {β : Type} (c : Connector (StateM ω) κ)
    (asks : ServerDescription → Exchange → Prop) (s : Borrower ω κ)
    (after : ((Except CommandError β × Session) × PoolDirectory (Numbered κ)) × Books ω) : Prop where
  onLoan : ∀ place, after.1.2.onLoan place = s.directory.onLoan place
  held : ∀ place, s.directory.onLoan place = held s.leases place
  passes : PoolDirectory.Passes c asks s.directory s.books after.1.2 after.2

theorem restores_of_passes {β : Type} {c : Connector (StateM ω) κ}
    {asks : ServerDescription → Exchange → Prop} {s : Borrower ω κ}
    {after : ((Except CommandError β × Session) × PoolDirectory (Numbered κ)) × Books ω}
    (hs : s.Balanced)
    (h : PoolDirectory.Passes c asks s.directory s.books after.1.2 after.2) :
    s.Restores c asks after where
  onLoan place := ((h.accounts hs).onLoan_eq place).trans (hs.onLoan_eq place).symm
  held := hs.onLoan_eq
  passes := h

-- Calls of both kinds, whatever comes of them.
structure LosesNothing (c : Connector (StateM ω) κ) (s : Borrower ω κ) : Prop where
  command : ∀ database command routing preference,
    s.Restores c
      ((Call.ofCommand database command routing preference).Asks s.session.registry.decodeDocument
        s.session)
      (Session.executeCommand (PoolDirectory.source c.booked) database command routing preference
        s.session s.directory s.books)
  modification : ∀ {β : Type} (f : FindAndModify β) database encoder decoder,
    s.Restores c (f.Asks encoder database s.session)
      (f.execute (PoolDirectory.source c.booked) database encoder decoder s.session s.directory
        s.books)

theorem modification_passes (c : Connector (StateM ω) κ) {s : Borrower ω κ} (hs : s.Balanced)
    {β : Type} (f : FindAndModify β) (database : String) (encoder : Encoder β)
    (decoder : Decoder β) :
    PoolDirectory.Passes c (f.Asks encoder database s.session) s.directory s.books
      (f.execute (PoolDirectory.source c.booked) database encoder decoder s.session s.directory
        s.books).1.2
      (f.execute (PoolDirectory.source c.booked) database encoder decoder s.session s.directory
        s.books).2 := by
  have hrun := Call.findAndModify_eq f (PoolDirectory.source c.booked) database encoder decoder
    s.session
  unfold StateT.run at hrun
  rw [hrun]
  cases hdocument : f.toDocument with
  | error fault =>
      refine .unused (fun server x hasks => ?_) .same rfl
      obtain ⟨command, hcommand, _⟩ := hasks
      cases hdocument.symm.trans hcommand
  | ok command =>
      have hasks : f.Asks encoder database s.session =
          (Call.ofModification f encoder database command).Asks
            s.session.registry.decodeDocument s.session := by
        funext server x
        simp [FindAndModify.Asks, hdocument]
      have hpasses : PoolDirectory.Passes c _ s.directory s.books
          ((Call.ofModification f encoder database command).execute
            (PoolDirectory.source c.booked) s.session s.directory s.books).1.2
          ((Call.ofModification f encoder database command).execute
            (PoolDirectory.source c.booked) s.session s.directory s.books).2 :=
        Session.execute_passes (Call.ofModification f encoder database command)
          s.session.registry.decodeDocument s.session c hs s.books
      rw [hasks]
      dsimp only
      rw [bind_state]
      rcases hcall : (Call.ofModification f encoder database command).execute
        (PoolDirectory.source c.booked) s.session s.directory s.books with
        ⟨⟨⟨outcome, session⟩, directory⟩, books⟩
      rw [hcall] at hpasses
      cases outcome with
      | error e => exact hpasses
      | ok result => exact hpasses

-- No command leaks a loan, whatever the program has done before and has in its hands.
theorem no_loan_leaks (c : Connector (StateM ω) κ) (session : Session) (config : PoolConfig)
    (outside : ω) (errands : List Errand) :
    (run c errands (start session config outside)).LosesNothing c := by
  have hs := run_balanced c errands (start_balanced session config outside)
  refine ⟨fun database command routing preference => ?_, fun f database encoder decoder => ?_⟩
  · exact restores_of_passes hs (Session.execute_passes
      (Call.ofCommand database command routing preference) _ _ c hs _)
  · exact restores_of_passes hs (modification_passes c hs f database encoder decoder)

end Borrower

end DocWire
