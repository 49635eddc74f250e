import DocWire.Proofs.Session.Run

namespace DocWire

variable {ω σ : Type}

-- The result that a call brings, as a success or inside a failure of its command.
def broughtBy : Except CommandError CommandResult → Option CommandResult
  | .ok r => some r
  | .error e => e.result?

-- A result comes with the first document of the reply that was read, as one whole message, after
-- the request of the call had been written to the same connection; and it is a success if the
-- server says so.
def BringsOwnReply (x : Exchange) (k k' : Line σ) (result : Except CommandError CommandResult) :
    Prop :=
  ∀ r, broughtBy result = some r → ∃ motions request reply,
    Completes x motions request reply ∧ k.Continues k' motions ∧
      FirstDocument x.decoder reply r.response ∧
      ((∃ success, result = .ok success) ↔ Succeeds r.response)

-- No call is lent the connection of a number.
def NeverLent (number : Nat) (events : List (Event σ)) : Prop :=
  ∀ x l k, .lent x l ∈ events → l.connection = some k → k.number ≠ number

theorem NeverLent.append {number : Nat} {a b : List (Event σ)} (ha : NeverLent number a)
    (hb : NeverLent number b) : NeverLent number (a ++ b) := by
  intro x l k hmem hconnection
  rcases List.mem_append.mp hmem with h | h
  · exact ha x l k h hconnection
  · exact hb x l k h hconnection

-- A connection on which sending, receiving or reading a reply has failed is closed, and it is not
-- lent again.
def GivesUp (x : Exchange) (k' : Line σ) (result : Except CommandError CommandResult)
    (later : List (Event σ)) : Prop :=
  ∀ request e, x.request = .ok request → result = .error e → (∀ d, e ≠ .queryFailure d) →
    e ≠ .emptyReply → (∀ r, e ≠ .commandFailure r) → k'.isOpen = false ∧ NeverLent k'.number later

-- How an event must stand to those that come later. A connection is lent while it is open, and when
-- all that has moved on it are exchanges in full.
def Event.Proper : Event σ → List (Event σ) → Prop
  | .refused _, _ => True
  | .lent _ l, _ => ∃ k, l.connection = some k ∧ k.isOpen = true ∧ InStep k.motions
  | .ended x before after result, later => ∃ k k',
      before.connection = some k ∧ after.connection = some k' ∧
        x.decoder = x.registry.decodeDocument ∧ BringsOwnReply x k k' result ∧
        GivesUp x k' result later

def Separate : List (Event σ) → Prop
  | [] => True
  | e :: later => e.Proper later ∧ Separate later

-- Connections that can be lent: no two are the same, and each stands between two messages.
structure Orderly (lines : List (Line σ)) (opened : Nat) : Prop where
  distinct : (lines.map Line.number).Nodup
  sound : ∀ k ∈ lines, k.number < opened ∧ k.isOpen = true ∧ InStep k.motions

-- A connection that was opened once and is there no more.
def Gone (number : Nat) (lines : List (Line σ)) (opened : Nat) : Prop :=
  number < opened ∧ ∀ k ∈ lines, k.number ≠ number

theorem Opened.number_bounds {opened : Nat} {fresh : List (Line σ)} (h : Opened opened fresh)
    {k : Line σ} (hk : k ∈ fresh) : opened ≤ k.number ∧ k.number < opened + fresh.length := by
  have hnumber : k.number ∈ fresh.map Line.number := List.mem_map_of_mem hk
  rw [h.numbers] at hnumber
  exact List.mem_range'_1.mp hnumber

namespace Supplies

variable {before after : List (Line σ)} {opened opened' : Nat}

theorem origin (h : Supplies before opened after opened') {k : Line σ} (hk : k ∈ after) :
    k ∈ before ∨ (opened ≤ k.number ∧ k.number < opened' ∧ k.isOpen = true ∧ k.motions = []) := by
  obtain ⟨fresh, lost, hfresh, rfl, hperm⟩ := h
  have hwhere : k ∈ before ++ fresh := hperm.mem_iff.mpr (List.mem_append_left lost hk)
  rcases List.mem_append.mp hwhere with hbefore | hnew
  · exact .inl hbefore
  · obtain ⟨hlow, hhigh⟩ := hfresh.number_bounds hnew
    exact .inr ⟨hlow, hhigh, hfresh.unused k hnew⟩

theorem opened_le (h : Supplies before opened after opened') : opened ≤ opened' := by
  obtain ⟨fresh, lost, _, rfl, _⟩ := h
  exact Nat.le_add_right _ _

theorem orderly (h : Supplies before opened after opened') (hbefore : Orderly before opened) :
    Orderly after opened' := by
  constructor
  · obtain ⟨fresh, lost, hfresh, rfl, hperm⟩ := h
    have hall : ((before ++ fresh).map Line.number).Nodup := by
      rw [List.map_append, List.nodup_append, hfresh.numbers]
      refine ⟨hbefore.distinct, List.nodup_range', fun old hold new hnew heq => ?_⟩
      obtain ⟨k, hk, rfl⟩ := List.mem_map.mp hold
      have hlow := (List.mem_range'_1.mp hnew).1
      have hhigh := (hbefore.sound k hk).1
      omega
    have hrest := (hperm.map Line.number).nodup_iff.mp hall
    rw [List.map_append] at hrest
    exact (List.nodup_append.mp hrest).1
  · intro k hk
    rcases h.origin hk with hold | ⟨_, hhigh, hopen, hunused⟩
    · obtain ⟨hnumber, hsound⟩ := hbefore.sound k hold
      exact ⟨Nat.lt_of_lt_of_le hnumber h.opened_le, hsound⟩
    · refine ⟨hhigh, hopen, ?_⟩
      rw [hunused]
      exact .fresh

theorem gone (h : Supplies before opened after opened') {number : Nat}
    (hgone : Gone number before opened) : Gone number after opened' := by
  refine ⟨Nat.lt_of_lt_of_le hgone.1 h.opened_le, fun k hk => ?_⟩
  rcases h.origin hk with hold | ⟨hlow, _⟩
  · exact hgone.2 k hold
  · have hnumber := hgone.1
    omega

end Supplies

namespace Orderly

variable {others : List (Line σ)} {k k' : Line σ} {opened : Nat}

theorem perm {lines lines' : List (Line σ)} (h : Orderly lines opened)
    (hperm : lines.Perm lines') : Orderly lines' opened :=
  ((Supplies.refl lines opened).perm_right hperm).orderly h

theorem tail (h : Orderly (k :: others) opened) : Orderly others opened := by
  refine ⟨(List.nodup_cons.mp h.distinct).2, fun other hother => ?_⟩
  exact h.sound other (List.mem_cons_of_mem k hother)

-- A connection that is kept after an exchange takes the place of what it was before.
theorem exchange (h : Orderly (k :: others) opened) (hnumber : k'.number = k.number)
    (hstep : k'.isOpen = true → InStep k'.motions) :
    Orderly (Session.kept k' ++ others) opened := by
  unfold Session.kept
  by_cases hopen : k'.isOpen = true
  · rw [if_pos hopen]
    constructor
    · have hdistinct := h.distinct
      rw [List.map_cons, ← hnumber] at hdistinct
      exact hdistinct
    · intro other hother
      rcases List.mem_cons.mp hother with rfl | hold
      · refine ⟨?_, hopen, hstep hopen⟩
        rw [hnumber]
        exact (h.sound k (List.mem_cons_self ..)).1
      · exact h.tail.sound other hold
  · rw [if_neg hopen]
    exact h.tail

-- One that is not kept is gone.
theorem gone (h : Orderly (k :: others) opened) : Gone k.number others opened := by
  refine ⟨(h.sound k (List.mem_cons_self ..)).1, fun other hother heq => ?_⟩
  have hnot := (List.nodup_cons.mp h.distinct).1
  rw [← heq] at hnot
  exact hnot (List.mem_map_of_mem hother)

end Orderly

theorem Gone.exchange {number opened : Nat} {others : List (Line σ)} {k k' : Line σ}
    (h : Gone number (k :: others) opened) (hnumber : k'.number = k.number) :
    Gone number (Session.kept k' ++ others) opened := by
  refine ⟨h.1, fun other hother => ?_⟩
  rcases List.mem_append.mp hother with hkept | hold
  · unfold Session.kept at hkept
    split at hkept
    · rw [List.mem_singleton.mp hkept, hnumber]
      exact h.2 k (List.mem_cons_self ..)
    · cases hkept
  · exact h.2 other (List.mem_cons_of_mem k hold)

theorem Gone.perm {number opened : Nat} {lines lines' : List (Line σ)}
    (h : Gone number lines opened) (hperm : lines.Perm lines') : Gone number lines' opened :=
  ((Supplies.refl lines opened).perm_right hperm).gone h

namespace Client

-- All connections that a client holds.
def lines (s : Client ω σ) : List (Line σ) :=
  s.directory.idle ++ s.calls.flatMap fun call => call.2.lines

-- What holds of a client at all times.
structure Sound (s : Client ω σ) : Prop where
  orderly : Orderly s.lines s.world.opened
  ready : ∀ call ∈ s.calls, Session.Ready call.1 call.2

-- What a move of a client does to the connections that it holds.
structure Advances (s t : Client ω σ) : Prop where
  sound : Sound t
  gone : ∀ number, Gone number s.lines s.world.opened → Gone number t.lines t.world.opened

theorem advances_of_supplies {s t : Client ω σ} (hs : s.Sound)
    (h : Supplies s.lines s.world.opened t.lines t.world.opened)
    (hready : ∀ call ∈ t.calls, Session.Ready call.1 call.2) : Advances s t :=
  ⟨⟨h.orderly hs.orderly, hready⟩, fun _ hgone => h.gone hgone⟩

theorem start_sound (session : Session) (config : PoolConfig) (outside : ω) :
    Sound (start session config outside : Client ω σ) := by
  constructor
  · refine ⟨List.nodup_nil, fun k hk => ?_⟩
    cases hk
  · intro call hcall
    cases hcall

theorem update_advances {s : Client ω σ} (hs : s.Sound) (cluster : Cluster) :
    Advances s (s.update cluster) :=
  advances_of_supplies hs (.refl s.lines s.world.opened) hs.ready

theorem close_advances (p : Outside ω σ) {s : Client ω σ} (hs : s.Sound) :
    Advances s (s.close p) := by
  have hclose := PoolDirectory.close_circulates p s.directory s.world
  rw [List.append_nil, List.append_nil] at hclose
  exact advances_of_supplies hs (hclose.append_right _) hs.ready

-- What an event tells of the client behind it. A connection that has been lent is one that the
-- client holds, and one that was closed in an exchange is gone.
def Tells (t : Client ω σ) : Event σ → Prop
  | .refused _ => True
  | .lent _ l => ∃ k ∈ t.lines, l.connection = some k
  | .ended x before after result => x.decoder = x.registry.decodeDocument ∧
      ∃ k response k', before.connection = some k ∧ after.connection = some k' ∧
        Exchange.Outcome x k response k' ∧ Session.Reports x response result ∧
        (k'.isOpen = false → Gone k'.number t.lines t.world.opened)

theorem begin_advances (p : Outside ω σ) (call : Call) {s : Client ω σ} (hs : s.Sound) :
    Advances s (s.begin p call).2 ∧
      ∀ e, (s.begin p call).1 = some e → (s.begin p call).2.Tells e := by
  have hsupplies := Session.prepare_circulates p call.routing call.preference
    s.session.registry.decodeDocument call.build s.session s.directory s.world
  have hprepared := Session.prepare_ready p call.routing call.preference call.build s.session
    s.directory s.world
  unfold begin
  rcases hprepare : Session.prepare (PoolDirectory.source p.connector) call.routing call.preference
    s.session.registry.decodeDocument call.build s.session s.directory s.world with
    ⟨⟨⟨outcome, session⟩, directory⟩, world⟩
  have hrun : (Session.prepare (PoolDirectory.source p.connector) call.routing call.preference
    s.session.registry.decodeDocument call.build).run s.session s.directory s.world =
      (((outcome, session), directory), world) := hprepare
  rw [hrun, List.append_nil] at hsupplies
  rw [hrun] at hprepared
  cases outcome with
  | error e =>
      refine ⟨advances_of_supplies hs ?_ hs.ready, fun event h => ?_⟩
      · have hidle : Supplies s.directory.idle s.world.opened (directory.idle ++ [])
          world.opened := hsupplies
        rw [List.append_nil] at hidle
        exact hidle.append_right _
      · cases h
        trivial
  | ok borrowed =>
      obtain ⟨x, l⟩ := borrowed
      have hready := hprepared x l rfl
      have hlines : (⟨session, directory, world, s.calls ++ [(x, l)]⟩ : Client ω σ).lines =
          directory.idle ++ ((s.calls.flatMap fun call => call.2.lines) ++ l.lines) := by
        rw [lines, List.flatMap_append, List.flatMap_singleton]
      refine ⟨advances_of_supplies hs ?_ ?_, ?_⟩
      · rw [hlines]
        have hmore := hsupplies.append_right (s.calls.flatMap fun call => call.2.lines)
        rw [List.append_assoc directory.idle] at hmore
        exact hmore.perm_right (List.perm_append_comm.append_left directory.idle)
      · intro other hother
        rcases List.mem_append.mp hother with hold | hnew
        · exact hs.ready other hold
        · rw [List.mem_singleton.mp hnew]
          exact hready
      · intro event h
        cases h
        obtain ⟨k, hk⟩ := hready.onLoan
        have hconnection : l.connection = some k := by rw [hk]
        refine ⟨k, ?_, hconnection⟩
        rw [hlines, Lease.lines, hconnection]
        exact List.mem_append_right _ (List.mem_append_right _ (List.mem_singleton_self k))

-- The connection of a call among all others that the client holds.
theorem calls_perm {s : Client ω σ} {place : Nat} {x : Exchange} {l : Lease (Line σ)} {k : Line σ}
    (h : s.calls[place]? = some (x, l)) (hk : l.connection = some k) :
    s.lines.Perm
      (k :: (s.directory.idle ++ (s.calls.eraseIdx place).flatMap fun call => call.2.lines)) := by
  obtain ⟨hplace, hcall⟩ := List.getElem?_eq_some_iff.mp h
  have hsplit : s.calls = s.calls.take place ++ (x, l) :: s.calls.drop (place + 1) := by
    rw [← hcall, List.getElem_cons_drop, List.take_append_drop]
  have hall := congrArg (List.flatMap fun call => call.2.lines) hsplit
  have hown : l.lines = [k] := by rw [Lease.lines, hk, Option.toList]
  rw [List.flatMap_append, List.flatMap_cons, hown] at hall
  rw [lines, hall, List.eraseIdx_eq_take_drop_succ, List.flatMap_append, List.singleton_append,
    ← List.append_assoc, ← List.append_assoc]
  exact List.perm_middle

theorem spent_eq (p : Outside ω σ) (x : Exchange) {l : Lease (Line σ)} {k : Line σ}
    (hl : l = ⟨l.place, l.address, some k⟩) (d : PoolDirectory (Line σ)) (w : World ω) :
    ((x.roundTrip (Lease.channel p.connector)).run l d w).1.1.2 =
      ⟨l.place, l.address, some (x.talk (Recorded.stream p.stream) k).2⟩ := by
  have htalk := Exchange.roundTrip_carries (Session.channel_carries p) x k
  have htrip := Lease.roundTrip_run p.connector x l.place l.address k
  rw [id, id] at htalk
  rw [← hl, htalk] at htrip
  rw [htrip]
  rfl

theorem finish_advances (p : Outside ω σ) (place : Nat) {s : Client ω σ} (hs : s.Sound) :
    Advances s (s.finish p place).2 ∧
      ∀ e, (s.finish p place).1 = some e → (s.finish p place).2.Tells e := by
  unfold finish
  cases hcall : s.calls[place]? with
  | none =>
      refine ⟨⟨hs, fun _ hgone => hgone⟩, fun event h => ?_⟩
      cases h
  | some call =>
      obtain ⟨x, l⟩ := call
      have hready : Session.Ready x l := hs.ready (x, l) (List.mem_of_getElem? hcall)
      obtain ⟨k, hk⟩ := hready.onLoan
      have hconnection : l.connection = some k := by rw [hk]
      have hperm := calls_perm hcall hconnection
      have houtcome := x.talk_outcome p.stream k
      have hreports := Session.converse_reports p hready.handsBack l.place l.address k
        s.directory s.world
      have hsupplies := Session.converse_circulates p hready.handsBack l.place l.address k
        s.directory s.world
      rw [← hk] at hreports hsupplies
      dsimp only
      rw [spent_eq p x hk]
      rcases hconverse : Session.converse (PoolDirectory.source p.connector) x l s.directory
        s.world with ⟨⟨result, directory⟩, world⟩
      rw [hconverse] at hreports hsupplies
      have hlent := hs.orderly.perm hperm
      have hstep := (hlent.sound k (List.mem_cons_self ..)).2.2
      have hback : Supplies (Session.kept (x.talk (Recorded.stream p.stream) k).2 ++
          (s.directory.idle ++ (s.calls.eraseIdx place).flatMap fun call => call.2.lines))
          s.world.opened
          (directory.idle ++ (s.calls.eraseIdx place).flatMap fun call => call.2.lines)
          world.opened := by
        rw [List.append_nil] at hsupplies
        have hbeside := hsupplies.append_right
          ((s.calls.eraseIdx place).flatMap fun call => call.2.lines)
        rw [List.append_assoc] at hbeside
        exact hbeside.perm_left (List.perm_append_comm_assoc ..)
      refine ⟨⟨⟨?_, fun call hold => ?_⟩, fun number hgone => ?_⟩, fun event h => ?_⟩
      · exact hback.orderly (hlent.exchange houtcome.number_eq (houtcome.inStep hstep))
      · exact hs.ready call (List.mem_of_mem_eraseIdx hold)
      · exact hback.gone ((hgone.perm hperm).exchange houtcome.number_eq)
      · cases h
        refine ⟨hready.reads, k, _, _, hconnection, rfl, houtcome, hreports, fun hclosed => ?_⟩
        rw [Session.kept, hclosed] at hback
        rw [houtcome.number_eq]
        exact hback.gone hlent.gone

theorem step_advances (p : Outside ω σ) (move : Move) {s : Client ω σ} (hs : s.Sound) :
    Advances s (step p move s).2 ∧ ∀ e, (step p move s).1 = some e → (step p move s).2.Tells e := by
  cases move with
  | update cluster =>
      refine ⟨update_advances hs cluster, fun event h => ?_⟩
      cases h
  | begin call => exact begin_advances p call hs
  | finish place => exact finish_advances p place hs
  | close =>
      refine ⟨close_advances p hs, fun event h => ?_⟩
      cases h

end Client

theorem broughtBy_judge (r : CommandResult) : broughtBy (Exchange.judge r) = some r := by
  unfold Exchange.judge
  split
  · rfl
  · rfl

theorem judge_ok_iff (r : CommandResult) :
    (∃ success, Exchange.judge r = .ok success) ↔ Succeeds r.response := by
  rw [← r.isOk_iff, Exchange.judge]
  by_cases hok : r.isOk = true
  · rw [if_pos hok]
    exact ⟨fun _ => hok, fun _ => ⟨r, rfl⟩⟩
  · rw [if_neg hok]
    refine ⟨fun h => ?_, fun h => absurd h hok⟩
    obtain ⟨success, hsuccess⟩ := h
    cases hsuccess

namespace Exchange.Outcome

variable {x : Exchange} {k k' : Line σ} {response : Except CommandError Document}
  {result : Except CommandError CommandResult}

theorem bringsOwnReply (h : Outcome x k response k')
    (hreports : Session.Reports x response result) : BringsOwnReply x k k' result := by
  intro r hr
  cases hreports with
  | failed e =>
      have hnone : e.result? = none := by
        cases h with
        | unwritten hrequest => exact request_hasNoResult hrequest
        | refused _ _ _ he =>
            rcases (CommandError.leavesInStep_iff _).mp he with ⟨d, rfl⟩ | rfl
            · rfl
            · rfl
        | broken _ _ hresult => exact hresult
      rw [broughtBy, hnone] at hr
      cases hr
  | judged d server elapsed =>
      rw [broughtBy_judge] at hr
      cases hr
      cases h with
      | answered hexchange hcontinues _ hfirst =>
          exact ⟨_, _, _, hexchange, hcontinues, hfirst, judge_ok_iff _⟩

theorem closed_of_error {request : ByteArray} {e : CommandError} (h : Outcome x k response k')
    (hreports : Session.Reports x response result) (hrequest : x.request = .ok request)
    (hresult : result = .error e) (hquery : ∀ d, e ≠ .queryFailure d) (hempty : e ≠ .emptyReply)
    (hfailure : ∀ r, e ≠ .commandFailure r) : k'.isOpen = false := by
  cases hreports with
  | failed fault =>
      cases hresult
      cases h with
      | unwritten hnone =>
          rw [hrequest] at hnone
          cases hnone
      | refused _ _ _ he =>
          rcases (CommandError.leavesInStep_iff _).mp he with ⟨d, rfl⟩ | rfl
          · exact absurd rfl (hquery d)
          · exact absurd rfl hempty
      | broken _ hclosed _ => exact hclosed
  | judged d server elapsed =>
      unfold judge at hresult
      split at hresult
      · cases hresult
      · cases hresult
        exact absurd rfl (hfailure _)

end Exchange.Outcome

namespace Client

variable {s t : Client ω σ}

-- An event that tells of a client is proper if connections that are gone are not lent later on.
theorem Tells.proper {e : Event σ} {later : List (Event σ)} (h : t.Tells e) (ht : t.Sound)
    (hlater : ∀ number, Gone number t.lines t.world.opened → NeverLent number later) :
    e.Proper later := by
  cases e with
  | refused e => trivial
  | lent x l =>
      obtain ⟨k, hk, hconnection⟩ := h
      obtain ⟨_, hopen, hstep⟩ := ht.orderly.sound k hk
      exact ⟨k, hconnection, hopen, hstep⟩
  | ended x before after result =>
      obtain ⟨hreads, k, response, k', hbefore, hafter, houtcome, hreports, hgone⟩ := h
      refine ⟨k, k', hbefore, hafter, hreads, houtcome.bringsOwnReply hreports, ?_⟩
      intro request e hrequest hresult hquery hempty hfailure
      have hclosed :=
        houtcome.closed_of_error hreports hrequest hresult hquery hempty hfailure
      exact ⟨hclosed, hlater _ (hgone hclosed)⟩

-- Nor is one that is gone lent in the event itself.
theorem Tells.not_lent {e : Event σ} (h : t.Tells e) {number : Nat}
    (hgone : Gone number t.lines t.world.opened) : NeverLent number [e] := by
  intro x l k hmem hconnection
  rw [List.mem_singleton] at hmem
  subst hmem
  obtain ⟨held, hheld, hsame⟩ := h
  rw [hconnection] at hsame
  cases hsame
  exact hgone.2 k hheld

theorem run_separate (p : Outside ω σ) (moves : List Move) (hs : s.Sound) :
    Separate (run p moves s).1 ∧
      ∀ number, Gone number s.lines s.world.opened → NeverLent number (run p moves s).1 := by
  induction moves generalizing s with
  | nil =>
      refine ⟨trivial, fun number _ x l k hmem => ?_⟩
      cases hmem
  | cons move rest ih =>
      obtain ⟨hadvances, htells⟩ := step_advances p move hs
      rcases hstep : step p move s with ⟨event, middle⟩
      rw [hstep] at hadvances htells
      obtain ⟨hseparate, hnever⟩ := ih hadvances.sound
      rw [run, hstep]
      dsimp only
      cases event with
      | none => exact ⟨hseparate, fun number hgone => hnever number (hadvances.gone number hgone)⟩
      | some e =>
          have htold := htells e rfl
          refine ⟨⟨htold.proper hadvances.sound hnever, hseparate⟩, fun number hgone => ?_⟩
          have hgone' := hadvances.gone number hgone
          exact (htold.not_lent hgone').append (hnever number hgone')

end Client

-- However the calls of a client follow upon one another or overlap, and whatever its peers do, each
-- call gets its own reply or none, and no connection is used again that is not in step.
theorem calls_stay_apart (p : Outside ω σ) (session : Session) (config : PoolConfig) (outside : ω)
    (moves : List Move) : Separate (Client.run p moves (.start session config outside)).1 :=
  (Client.run_separate p moves (Client.start_sound session config outside)).1

end DocWire
