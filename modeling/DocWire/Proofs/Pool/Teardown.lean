import DocWire.Proofs.Pool.Custody
import Mathlib.Data.List.Nodup

namespace DocWire.Custody

variable {ω α ε : Type}

def Event.discarded? : Event → Option Nat
  | .discarded number => some number
  | _ => none

-- What closing makes of a pool: all that was idle is disposed of, each instance once, and what is
-- counted from then on is what is on loan or being created.
structure Closes (s t : Custody ω α) : Prop where
  closed : t.pool.closed = true
  idle : t.pool.idle = []
  total : t.pool.total = s.loans.length + s.pending
  disposed : t.books.cleaned = s.books.cleaned ++ numbers s.pool.idle
  once : ∀ number ∈ numbers s.pool.idle, t.books.cleaned.count number = 1
  created : t.books.created = s.books.created
  loans : t.loans = s.loans
  pending : t.pending = s.pending

-- What happens to a closed pool in the course of some events. Each instance that comes back is
-- disposed of, and a creation that had got leave before can still end, either way.
structure Dwindles (s : Custody ω α) (events : List Event) (t : Custody ω α) : Prop where
  closed : t.pool.closed = true
  idle : t.pool.idle = []
  disposed : t.books.cleaned = s.books.cleaned ++ events.filterMap Event.discarded?
  total : t.pool.total + (events.filterMap Event.discarded?).length + events.count .failed =
    s.pool.total
  created : t.books.created + t.pending + events.count .failed = s.books.created + s.pending

-- An instance is disposed of for the first time, and there is one less.
def Disposes (s : Custody ω α) (r : Numbered α)
    (after : (Except PoolFault Wake × Pool (Numbered α)) × Books ω) : Prop :=
  r.number ∉ s.books.cleaned ∧ 1 ≤ s.pool.total ∧ ∃ outside, after =
    ((.ok .one, s.pool.shrink), ⟨outside, s.books.created, s.books.cleaned ++ [r.number]⟩)

-- All that can still be done with a closed pool. Nothing is lent any more, nothing is kept, and
-- when all that was on loan is back, whatever was ever created has been disposed of. Whoever asks is
-- told that the pool is closed, but who would wait for too long does not get so far.
structure Ended (manager : Manager (StateM ω) α ε) (config : PoolConfig) (s : Custody ω α) :
    Prop where
  counted : s.pool.total = s.loans.length + s.pending
  refuses : ∀ now limit, Pool.acquireWithin manager.booked now limit s.pool s.books =
    ((.error (if Pool.endsInTime now limit then .closed config.name else .overflow), s.pool),
      s.books)
  releases : ∀ (place : Nat) (r : Numbered α), s.loans[place]? = some r →
    s.Disposes r (Pool.release manager.booked r s.pool s.books)
  removes : ∀ (place : Nat) (r : Numbered α), s.loans[place]? = some r →
    s.Disposes r (Pool.remove manager.booked r s.pool s.books)
  closes : Pool.close manager.booked s.pool s.books = ((.ok .nobody, s.pool), s.books)
  settled : s.loans = [] → s.pending = 0 →
    s.pool.total = 0 ∧ s.books.cleaned.Perm (List.range s.books.created) ∧
      s.books.cleaned.length = s.books.created

-- No instance is in two places, so those on loan or idle have not been disposed of.
theorem Balanced.nodup {s : Custody ω α} (hs : s.Balanced) :
    (numbers s.pool.idle ++ numbers s.loans ++ s.books.cleaned).Nodup :=
  hs.placed.nodup_iff.mpr List.nodup_range

theorem Balanced.not_cleaned {s : Custody ω α} (hs : s.Balanced) {place : Nat} {r : Numbered α}
    (hheld : s.loans[place]? = some r) : r.number ∉ s.books.cleaned := by
  have hloan : r.number ∈ numbers s.loans := List.mem_map_of_mem (List.mem_of_getElem? hheld)
  have hapart := (List.nodup_append.mp hs.nodup).2.2
  intro hcleaned
  exact hapart _ (List.mem_append_right _ hloan) _ hcleaned rfl

theorem Dwindles.refl {s : Custody ω α} (hclosed : s.pool.closed = true) (hidle : s.pool.idle = []) :
    Dwindles s [] s :=
  ⟨hclosed, hidle, (List.append_nil _).symm, rfl, rfl⟩

theorem Dwindles.trans {s t u : Custody ω α} {events later : List Event} (h : Dwindles s events t)
    (h' : Dwindles t later u) : Dwindles s (events ++ later) u where
  closed := h'.closed
  idle := h'.idle
  disposed := by
    rw [h'.disposed, h.disposed, List.filterMap_append, List.append_assoc]
  total := by
    have hfirst := h.total
    have hthen := h'.total
    rw [List.filterMap_append, List.length_append, List.count_append]
    omega
  created := by
    have hfirst := h.created
    have hthen := h'.created
    rw [List.count_append]
    omega

-- One dealing with a closed pool. There is nothing idle to lend, no leave is given to create, and
-- nothing is kept.
theorem Becomes.dwindles {s t : Custody ω α} {event : Option Event} (h : Becomes s event t)
    (hs : s.Balanced) (hclosed : s.pool.closed = true) : Dwindles s event.toList t := by
  have hidle := hs.emptied hclosed
  have hcounted := hs.counted
  cases h with
  | unchanged => exact .refl hclosed hidle
  | altered content hheld => exact ⟨hclosed, hidle, (List.append_nil _).symm, rfl, rfl⟩
  | reused hopen hfirst => cases hopen.symm.trans hclosed
  | reserved hopen hnone hroom => cases hopen.symm.trans hclosed
  | kept hheld hopen hroom => cases hopen.symm.trans hclosed
  | closed hopen => cases hopen.symm.trans hclosed
  | created hpending hnumber =>
      refine ⟨hclosed, hidle, (List.append_nil _).symm, rfl, ?_⟩
      change s.books.created + 1 + (s.pending - 1) + 0 = s.books.created + s.pending
      omega
  | failed hpending =>
      refine ⟨hclosed, hidle, (List.append_nil _).symm, ?_, ?_⟩
      · change s.pool.total - 1 + 0 + 1 = s.pool.total
        omega
      · change s.books.created + (s.pending - 1) + 1 = s.books.created + s.pending
        omega
  | discarded hheld =>
      obtain ⟨hplace, _⟩ := List.getElem?_eq_some_iff.mp hheld
      refine ⟨hclosed, hidle, rfl, ?_, rfl⟩
      change s.pool.total - 1 + 1 + 0 = s.pool.total
      omega

section

variable (manager : Manager (StateM ω) α ε)

theorem run_dwindles {s : Custody ω α} (hs : s.Balanced) (hclosed : s.pool.closed = true)
    (dealings : List (Dealing α)) :
    Dwindles s (run manager dealings s).1 (run manager dealings s).2 := by
  induction dealings using List.reverseRecOn with
  | nil => exact .refl hclosed (hs.emptied hclosed)
  | append_singleton dealings dealing ih =>
      have hbalanced := (run_keeps manager hs dealings).1
      rw [run_concat]
      exact ih.trans ((step_becomes manager hbalanced dealing).dwindles hbalanced ih.closed)

-- A pool that is closed again has nothing idle to dispose of, and stays as it is.
theorem close_again {s : Custody ω α} (hs : s.Balanced) (hclosed : s.pool.closed = true) :
    Pool.close manager.booked s.pool s.books = ((.ok .nobody, s.pool), s.books) := by
  have hidle : s.pool.idle.length ≤ s.pool.total := by
    rw [hs.emptied hclosed]
    exact Nat.zero_le _
  rw [Pool.close_run manager.booked hidle, if_pos hclosed]

theorem close_closes {s : Custody ω α} (hs : s.Balanced) : Closes s (s.close manager).2 := by
  have hcounted := hs.counted
  have honce : ∀ number ∈ numbers s.pool.idle,
      (s.books.cleaned ++ numbers s.pool.idle).count number = 1 := by
    intro number hnumber
    refine List.nodup_iff_count_eq_one.mp (List.nodup_append_comm.mp ?_) number
      (List.mem_append_right _ hnumber)
    exact hs.nodup.sublist ((List.sublist_append_left _ _).append (List.Sublist.refl _))
  have hidle : s.pool.idle.length ≤ s.pool.total := by omega
  obtain ⟨outside, hcleanups⟩ := manager.booked_cleanups s.pool.idle s.books
  unfold close
  by_cases hclosed : s.pool.closed = true
  · have hnone := hs.emptied hclosed
    rw [close_again manager hs hclosed]
    rw [hnone] at hcounted honce
    refine ⟨hclosed, hnone, ?_, ?_, ?_, rfl, rfl, rfl⟩
    · simpa using hcounted
    · simp [hnone, numbers]
    · simp [hnone, numbers]
  · rw [Pool.close_run manager.booked hidle, if_neg hclosed, hcleanups]
    refine ⟨rfl, rfl, ?_, rfl, honce, rfl, rfl, rfl⟩
    change s.pool.total - s.pool.idle.length = _
    omega

theorem acquire_refused {s : Custody ω α} (hs : s.Balanced) (hclosed : s.pool.closed = true)
    (now : Span) (limit : Option Span) :
    Pool.acquireWithin manager.booked now limit s.pool s.books =
      ((.error (if Pool.endsInTime now limit then .closed s.pool.config.name else .overflow),
        s.pool), s.books) := by
  cases htime : Pool.endsInTime now limit with
  | true =>
      have hrequest : (s.pool.request : Grant (Numbered α) ε × Pool (Numbered α)) =
          (.refuse (.closed s.pool.config.name), s.pool) := by
        unfold Pool.request
        rw [hs.sound, hclosed]
        rfl
      rw [Pool.acquireWithin_of_endsInTime manager.booked htime, Pool.borrow_run, Pool.attempt_run,
        hrequest]
      rfl
  | false =>
      rw [Pool.acquireWithin_overflow manager.booked htime]
      rfl

theorem remove_disposes {s : Custody ω α} (hs : s.Balanced) {place : Nat} {r : Numbered α}
    (hheld : s.loans[place]? = some r) :
    s.Disposes r (Pool.remove manager.booked r s.pool s.books) :=
  ⟨hs.not_cleaned hheld, one_le_total hs hheld, remove_answers manager hs hheld⟩

-- Whatever its manager thinks of an instance, a closed pool does not keep it.
theorem release_disposes {s : Custody ω α} (hs : s.Balanced) (hclosed : s.pool.closed = true)
    {place : Nat} {r : Numbered α} (hheld : s.loans[place]? = some r) :
    s.Disposes r (Pool.release manager.booked r s.pool s.books) := by
  refine ⟨hs.not_cleaned hheld, one_le_total hs hheld, ?_⟩
  obtain ⟨_, hopen, _⟩ | hdiscarded := release_answers manager hs hheld
  · cases hopen.symm.trans hclosed
  · exact hdiscarded

theorem ended_of_closed {s : Custody ω α} {config : PoolConfig} (hs : s.Balanced)
    (hconfig : s.pool.config = config) (hclosed : s.pool.closed = true) : s.Ended manager config where
  counted := by
    have hcounted := hs.counted
    rw [hs.emptied hclosed] at hcounted
    simpa using hcounted
  refuses := by
    rw [← hconfig]
    exact acquire_refused manager hs hclosed
  releases _ _ := release_disposes manager hs hclosed
  removes _ _ := remove_disposes manager hs
  closes := close_again manager hs hclosed
  settled := by
    intro hloans hpending
    have hcounted := hs.counted
    have hplaced := hs.placed
    rw [hs.emptied hclosed, hloans] at hcounted hplaced
    have hlength := hplaced.length_eq
    rw [List.length_range] at hlength
    refine ⟨?_, hplaced, hlength⟩
    rw [hcounted, hpending]
    rfl

-- However a pool has been used before it is closed, and whatever is done with it afterwards, it is
-- never opened again, and it ends with all that was ever created disposed of.
theorem teardown_settles (config : PoolConfig) (outside : ω) {pool : Pool (Numbered α)}
    {books : Books ω} (h : Pool.start manager.booked config (.empty outside) = (.ok pool, books))
    (before after : List (Dealing α)) :
    let s := (run manager before (start pool books)).2
    let closed := (s.close manager).2
    Closes s closed ∧ Dwindles closed (run manager after closed).1 (run manager after closed).2 ∧
      (run manager after closed).2.Ended manager config := by
  intro s closed
  obtain ⟨hs, _, hconfig⟩ := run_keeps manager (start_balanced manager h) before
  have hcloses := close_closes manager hs
  have hbecomes := close_becomes manager hs
  have hclosed := hbecomes.balanced hs
  obtain ⟨hafter, _, hkept⟩ := run_keeps manager hclosed after
  have hdwindles := run_dwindles manager hclosed hcloses.closed after
  have hstart : (start pool books).pool.config = config := by
    obtain ⟨idle, _, rfl, _, _⟩ := manager.booked_start_ok h
    rfl
  exact ⟨hcloses, hdwindles, ended_of_closed manager hafter
    (hkept.trans (hbecomes.config_eq.trans (hconfig.trans hstart))) hdwindles.closed⟩

-- One of two widgets is idle when the pool is closed, and the other one comes back unsound, between
-- two more attempts to close the pool and one to borrow.
theorem widgets_disposed :
    let config : PoolConfig := ⟨"widgets", 1, none, none, none⟩
    let pool : Pool (Numbered Widget) := .ofIdle config [⟨0, ⟨0, true⟩⟩]
    let books : Books Workshop := ⟨⟨[], 1, 1, []⟩, 1, []⟩
    let closed : Custody Workshop Widget :=
      ⟨⟨config, [], 1, true, false⟩, ⟨⟨[], 2, 2, [0]⟩, 2, [0]⟩, [⟨1, ⟨1, true⟩⟩], 0⟩
    let last : Custody Workshop Widget :=
      ⟨⟨config, [], 0, true, false⟩, ⟨⟨[], 2, 2, [0, 1]⟩, 2, [0, 1]⟩, [], 0⟩
    let before : List (Dealing Widget) := [.request, .request, .create, .release 0]
    let after : List (Dealing Widget) :=
      [.close, .request, .alter 0 ⟨1, false⟩, .release 0, .close]
    Pool.start Workshop.manager.booked config (.empty (.refusing [])) = (.ok pool, books) ∧
      ((run Workshop.manager before (start pool books)).2.close Workshop.manager).2 = closed ∧
      run Workshop.manager after closed = ([.discarded 1], last) ∧
      last.Ended Workshop.manager config := by
  intro config pool books closed last before after
  have hstart : Pool.start Workshop.manager.booked config (.empty (.refusing [])) =
    (.ok pool, books) := rfl
  have hclosed : ((run Workshop.manager before (start pool books)).2.close Workshop.manager).2 =
    closed := rfl
  have hlast : run Workshop.manager after closed = ([.discarded 1], last) := rfl
  obtain ⟨_, _, hended⟩ := teardown_settles Workshop.manager config _ hstart before after
  rw [hclosed, hlast] at hended
  exact ⟨hstart, hclosed, hlast, hended⟩

-- A closed pool does not tell everybody that it is closed: who would wait for the longest time that
-- there is gets no answer from it.
theorem longest_wait_unanswered :
    let config : PoolConfig := ⟨"widgets", 0, none, none, none⟩
    let books : Books Workshop := .empty (.refusing [])
    let closed := ((start (.ofIdle config []) books).close Workshop.manager).2
    Pool.start Workshop.manager.booked config books = (.ok (.ofIdle config []), books) ∧
      closed.pool.closed = true ∧
      Pool.acquireWithin Workshop.manager.booked ⟨0⟩ (some .longest) closed.pool closed.books =
        ((.error .overflow, closed.pool), closed.books) ∧
      ¬∀ limit, (Pool.acquireWithin Workshop.manager.booked ⟨0⟩ limit closed.pool
        closed.books).1.1 = .error (.closed "widgets") := by
  intro config books closed
  have hrun : Pool.acquireWithin Workshop.manager.booked ⟨0⟩ (some .longest) closed.pool
      closed.books = ((.error .overflow, closed.pool), closed.books) :=
    Pool.acquireWithin_overflow Workshop.manager.booked (by decide) closed.pool closed.books
  refine ⟨rfl, rfl, hrun, fun hrefused => ?_⟩
  have hlongest := hrefused (some .longest)
  rw [hrun] at hlongest
  cases hlongest

end

end DocWire.Custody
