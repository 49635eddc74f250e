import DocWire.Pool.Workshop
import DocWire.Proofs.Pool.Books
import Mathlib.Data.List.Induction
import Mathlib.Data.List.Perm.Basic

namespace DocWire

variable {ω α ε : Type}

-- A pool and those who deal with it: the instances on loan, each with its holder, and the count of
-- creations that have got leave but have not ended.
structure Custody (ω α : Type) where
  pool : Pool (Numbered α)
  books : Books ω
  loans : List (Numbered α)
  pending : Nat

-- What can be done with a pool. To acquire is to make a request and then, if it brings leave to
-- create, to create; others can come in between. A holder can do anything to its instance, and
-- hands it back once.
inductive Dealing (α : Type) where
  | request
  | create
  | alter (place : Nat) (content : α)
  | release (place : Nat)
  | remove (place : Nat)
  | close

-- What can be seen of that, with the numbers of the instances: one that was idle is lent, leave to
-- create is given, a creation succeeds and its instance is lent, or it fails, an instance that came
-- back is kept or disposed of, and the pool is closed.
inductive Custody.Event where
  | reused (number : Nat)
  | reserved
  | created (number : Nat)
  | failed
  | kept (number : Nat)
  | discarded (number : Nat)
  | closed
deriving DecidableEq

namespace Custody

-- A pool that has just been started.
def start (pool : Pool (Numbered α)) (books : Books ω) : Custody ω α := ⟨pool, books, [], 0⟩

def numbers (rs : List (Numbered α)) : List Nat := rs.map Numbered.number

def request (manager : Manager (StateM ω) α ε) (s : Custody ω α) : Option Event × Custody ω α :=
  match (s.pool.request : Grant (Numbered α) ε × Pool (Numbered α)) with
  | (.create, pool) => (some .reserved, { s with pool := pool, pending := s.pending + 1 })
  | (grant, pool) =>
    match Pool.fulfil manager.booked grant pool s.books with
    | ((.lent r, pool), books) =>
      (some (.reused r.number), { s with pool := pool, books := books, loans := s.loans ++ [r] })
    | ((_, pool), books) => (none, { s with pool := pool, books := books })

def create (manager : Manager (StateM ω) α ε) (s : Custody ω α) : Option Event × Custody ω α :=
  if s.pending = 0 then (none, s)
  else
    match Pool.fulfil manager.booked .create s.pool s.books with
    | ((.lent r, pool), books) =>
      (some (.created r.number), ⟨pool, books, s.loans ++ [r], s.pending - 1⟩)
    | ((_, pool), books) => (some .failed, ⟨pool, books, s.loans, s.pending - 1⟩)

def alter (place : Nat) (content : α) (s : Custody ω α) : Custody ω α :=
  match s.loans[place]? with
  | none => s
  | some r => { s with loans := s.loans.set place { r with content := content } }

-- An instance that has not been disposed of has been kept.
def handBack (back : Numbered α → Pool.Action (StateM (Books ω)) (Numbered α) (Except PoolFault Wake))
    (place : Nat) (s : Custody ω α) : Option Event × Custody ω α :=
  match s.loans[place]? with
  | none => (none, s)
  | some r =>
    match back r s.pool s.books with
    | ((_, pool), books) =>
      (some (if books.cleaned = s.books.cleaned then .kept r.number else .discarded r.number),
        ⟨pool, books, s.loans.eraseIdx place, s.pending⟩)

def close (manager : Manager (StateM ω) α ε) (s : Custody ω α) : Option Event × Custody ω α :=
  match Pool.close manager.booked s.pool s.books with
  | ((_, pool), books) =>
    (if s.pool.closed then none else some .closed, { s with pool := pool, books := books })

def step (manager : Manager (StateM ω) α ε) : Dealing α → Custody ω α → Option Event × Custody ω α
  | .request, s => s.request manager
  | .create, s => s.create manager
  | .alter place content, s => (none, s.alter place content)
  | .release place, s => s.handBack (Pool.release manager.booked) place
  | .remove place, s => s.handBack (Pool.remove manager.booked) place
  | .close, s => s.close manager

def run (manager : Manager (StateM ω) α ε) : List (Dealing α) → Custody ω α → List Event × Custody ω α
  | [], s => ([], s)
  | dealing :: rest, s =>
    match step manager dealing s with
    | (event, middle) =>
      match run manager rest middle with
      | (later, last) => (event.toList ++ later, last)

-- Every instance that was created is idle, on loan or disposed of, and in one of these places
-- only; and the count of the pool is that of the instances that are idle, on loan or being created.
structure Balanced (s : Custody ω α) : Prop where
  sound : s.pool.broken = false
  counted : s.pool.total = s.pool.idle.length + s.loans.length + s.pending
  placed : (numbers s.pool.idle ++ numbers s.loans ++ s.books.cleaned).Perm
    (List.range s.books.created)
  emptied : s.pool.closed = true → s.pool.idle = []

-- All that a dealing can come to. Leave to create is given only when nothing is idle and the pool is
-- below its limit, and what came back is kept only below the limit for idle instances.
inductive Becomes (s : Custody ω α) : Option Event → Custody ω α → Prop where
  | unchanged : Becomes s none s
  | altered {place : Nat} {r : Numbered α} (content : α) (hheld : s.loans[place]? = some r) :
      Becomes s none { s with loans := s.loans.set place { r with content := content } }
  | reused {r : Numbered α} {rest : List (Numbered α)} (hopen : s.pool.closed = false)
      (hidle : s.pool.idle = r :: rest) :
      Becomes s (some (.reused r.number))
        { s with pool := { s.pool with idle := rest }, loans := s.loans ++ [r] }
  | reserved (hopen : s.pool.closed = false) (hidle : s.pool.idle = [])
      (hroom : ∀ most, s.pool.config.maxTotal = some most → s.pool.total < most) :
      Becomes s (some .reserved)
        { s with pool := { s.pool with total := s.pool.total + 1 }, pending := s.pending + 1 }
  | created {outside : ω} {r : Numbered α} (hpending : 0 < s.pending)
      (hnumber : r.number = s.books.created) :
      Becomes s (some (.created r.number))
        ⟨s.pool, ⟨outside, s.books.created + 1, s.books.cleaned⟩, s.loans ++ [r], s.pending - 1⟩
  | failed {outside : ω} (hpending : 0 < s.pending) :
      Becomes s (some .failed)
        ⟨{ s.pool with total := s.pool.total - 1 }, { s.books with outside := outside }, s.loans,
          s.pending - 1⟩
  | kept {outside : ω} {place : Nat} {r : Numbered α} (hheld : s.loans[place]? = some r)
      (hopen : s.pool.closed = false)
      (hroom : ∀ most, s.pool.config.maxIdle = some most → s.pool.idle.length < most) :
      Becomes s (some (.kept r.number))
        ⟨{ s.pool with idle := s.pool.idle ++ [r] }, { s.books with outside := outside },
          s.loans.eraseIdx place, s.pending⟩
  | discarded {outside : ω} {place : Nat} {r : Numbered α} (hheld : s.loans[place]? = some r) :
      Becomes s (some (.discarded r.number))
        ⟨{ s.pool with total := s.pool.total - 1 },
          ⟨outside, s.books.created, s.books.cleaned ++ [r.number]⟩, s.loans.eraseIdx place,
          s.pending⟩
  | closed {outside : ω} (hopen : s.pool.closed = false) :
      Becomes s (some .closed)
        ⟨{ s.pool with
            idle := [], closed := true, total := s.pool.total - s.pool.idle.length },
          ⟨outside, s.books.created, s.books.cleaned ++ numbers s.pool.idle⟩, s.loans, s.pending⟩

variable (manager : Manager (StateM ω) α ε)

theorem request_becomes (s : Custody ω α) :
    Becomes s (s.request manager).1 (s.request manager).2 := by
  unfold request
  rcases hrequest : (s.pool.request : Grant (Numbered α) ε × Pool (Numbered α)) with ⟨grant, pool⟩
  cases Pool.request_grants hrequest with
  | interrupted hbroken => exact .unchanged
  | closed hbroken hclosed => exact .unchanged
  | wait hbroken hopen hidle hfull => exact .unchanged
  | reuse hbroken hopen hidle => exact .reused hopen hidle
  | create hbroken hopen hidle hroom => exact .reserved hopen hidle (s.pool.mayGrow_iff.mp hroom)

-- A creation brings a new instance, or gives its place back.
theorem create_answers {s : Custody ω α} (hs : s.Balanced) (hpending : 0 < s.pending) :
    (∃ r outside, r.number = s.books.created ∧
      Pool.fulfil manager.booked .create s.pool s.books =
        ((.lent r, s.pool), ⟨outside, s.books.created + 1, s.books.cleaned⟩)) ∨
    ∃ reason outside, Pool.fulfil manager.booked .create s.pool s.books =
      ((.refused (.create reason) .one, s.pool.shrink), { s.books with outside := outside }) := by
  have hone : 1 ≤ s.pool.total := by
    have hcounted := hs.counted
    omega
  rw [Pool.fulfil_create_run]
  rcases hcreate : manager.booked.create.run s.books with ⟨outcome, books⟩
  cases outcome with
  | ok r =>
      obtain ⟨hnumber, outside, rfl⟩ := manager.booked_create_ok hcreate
      exact .inl ⟨r, outside, hnumber, rfl⟩
  | error reason =>
      obtain ⟨outside, rfl⟩ := manager.booked_create_error hcreate
      exact .inr ⟨reason, outside, Pool.abandon_run reason hone _⟩

theorem create_becomes {s : Custody ω α} (hs : s.Balanced) :
    Becomes s (s.create manager).1 (s.create manager).2 := by
  unfold create
  by_cases hpending : s.pending = 0
  · rw [if_pos hpending]
    exact .unchanged
  rw [if_neg hpending]
  have hpositive := Nat.pos_of_ne_zero hpending
  obtain ⟨r, outside, hnumber, hcreate⟩ | ⟨reason, outside, hcreate⟩ :=
    create_answers manager hs hpositive
  · rw [hcreate]
    exact .created hpositive hnumber
  · rw [hcreate]
    exact .failed hpositive

theorem alter_becomes (place : Nat) (content : α) (s : Custody ω α) :
    Becomes s none (s.alter place content) := by
  unfold alter
  cases hheld : s.loans[place]? with
  | none => exact .unchanged
  | some r => exact .altered content hheld

theorem one_le_total {s : Custody ω α} (hs : s.Balanced) {place : Nat} {r : Numbered α}
    (hheld : s.loans[place]? = some r) : 1 ≤ s.pool.total := by
  have hcounted := hs.counted
  obtain ⟨hplace, _⟩ := List.getElem?_eq_some_iff.mp hheld
  omega

theorem handBack_kept {back : Numbered α →
      Pool.Action (StateM (Books ω)) (Numbered α) (Except PoolFault Wake)}
    {s : Custody ω α} {place : Nat} {r : Numbered α} (hheld : s.loans[place]? = some r)
    {answer : Except PoolFault Wake} {pool : Pool (Numbered α)} {outside : ω}
    (hback : back r s.pool s.books = ((answer, pool), { s.books with outside := outside })) :
    s.handBack back place = (some (.kept r.number),
      ⟨pool, { s.books with outside := outside }, s.loans.eraseIdx place, s.pending⟩) := by
  unfold handBack
  simp only [hheld, hback, if_true]

theorem handBack_discarded {back : Numbered α →
      Pool.Action (StateM (Books ω)) (Numbered α) (Except PoolFault Wake)}
    {s : Custody ω α} {place : Nat} {r : Numbered α} (hheld : s.loans[place]? = some r)
    {answer : Except PoolFault Wake} {pool : Pool (Numbered α)} {outside : ω}
    (hback : back r s.pool s.books =
      ((answer, pool), ⟨outside, s.books.created, s.books.cleaned ++ [r.number]⟩)) :
    s.handBack back place = (some (.discarded r.number),
      ⟨pool, ⟨outside, s.books.created, s.books.cleaned ++ [r.number]⟩, s.loans.eraseIdx place,
        s.pending⟩) := by
  have hmore : s.books.cleaned ++ [r.number] ≠ s.books.cleaned := by simp
  unfold handBack
  simp only [hheld, hback, if_neg hmore]

theorem remove_answers {s : Custody ω α} (hs : s.Balanced) {place : Nat} {r : Numbered α}
    (hheld : s.loans[place]? = some r) :
    ∃ outside, Pool.remove manager.booked r s.pool s.books =
      ((.ok .one, s.pool.shrink), ⟨outside, s.books.created, s.books.cleaned ++ [r.number]⟩) := by
  obtain ⟨outside, hcleanup⟩ := manager.booked_cleanup r s.books
  refine ⟨outside, ?_⟩
  rw [Pool.remove_run manager.booked (one_le_total hs hheld), hcleanup]

-- An instance that comes back is kept, or disposed of as one that must not be used again.
theorem release_answers {s : Custody ω α} (hs : s.Balanced) {place : Nat} {r : Numbered α}
    (hheld : s.loans[place]? = some r) :
    (∃ outside, s.pool.closed = false ∧ s.pool.mayKeep = true ∧
      Pool.release manager.booked r s.pool s.books =
        ((.ok .one, s.pool.keep r), { s.books with outside := outside })) ∨
    ∃ outside, Pool.release manager.booked r s.pool s.books =
      ((.ok .one, s.pool.shrink), ⟨outside, s.books.created, s.books.cleaned ++ [r.number]⟩) := by
  have hrelease := Pool.release_run manager.booked r s.pool s.books
  obtain ⟨outside, hvalidate⟩ := manager.booked_validate r s.books
  rcases hanswer : manager.booked.validate r s.books with ⟨valid, books⟩
  rw [hanswer] at hrelease hvalidate
  subst hvalidate
  dsimp only at hrelease
  by_cases hkept : (valid && !s.pool.closed && s.pool.mayKeep) = true
  · rw [if_pos hkept] at hrelease
    simp only [Bool.and_eq_true, Bool.not_eq_true'] at hkept
    exact .inl ⟨outside, hkept.1.2, hkept.2, hrelease⟩
  · obtain ⟨outside', hcleanup⟩ := manager.booked_cleanup r { s.books with outside := outside }
    rw [if_neg hkept, Pool.remove_run manager.booked (one_le_total hs hheld), hcleanup] at hrelease
    exact .inr ⟨outside', hrelease⟩

theorem remove_becomes {s : Custody ω α} (hs : s.Balanced) (place : Nat) :
    Becomes s (s.handBack (Pool.remove manager.booked) place).1
      (s.handBack (Pool.remove manager.booked) place).2 := by
  cases hheld : s.loans[place]? with
  | none =>
      unfold handBack
      rw [hheld]
      exact .unchanged
  | some r =>
      obtain ⟨outside, hremove⟩ := remove_answers manager hs hheld
      rw [handBack_discarded hheld hremove]
      exact .discarded hheld

theorem release_becomes {s : Custody ω α} (hs : s.Balanced) (place : Nat) :
    Becomes s (s.handBack (Pool.release manager.booked) place).1
      (s.handBack (Pool.release manager.booked) place).2 := by
  cases hheld : s.loans[place]? with
  | none =>
      unfold handBack
      rw [hheld]
      exact .unchanged
  | some r =>
      obtain ⟨outside, hopen, hroom, hrelease⟩ | ⟨outside, hrelease⟩ :=
        release_answers manager hs hheld
      · rw [handBack_kept hheld hrelease]
        exact .kept hheld hopen (s.pool.mayKeep_iff.mp hroom)
      · rw [handBack_discarded hheld hrelease]
        exact .discarded hheld

theorem close_becomes {s : Custody ω α} (hs : s.Balanced) :
    Becomes s (s.close manager).1 (s.close manager).2 := by
  have hidle : s.pool.idle.length ≤ s.pool.total := by
    have hcounted := hs.counted
    omega
  obtain ⟨outside, hcleanups⟩ := manager.booked_cleanups s.pool.idle s.books
  unfold close
  rw [Pool.close_run manager.booked hidle, hcleanups]
  by_cases hclosed : s.pool.closed = true
  · rw [if_pos hclosed, if_pos hclosed]
    exact .unchanged
  · rw [if_neg hclosed, if_neg hclosed]
    exact .closed ((Bool.not_eq_true _).mp hclosed)

theorem step_becomes {s : Custody ω α} (hs : s.Balanced) (dealing : Dealing α) :
    Becomes s (step manager dealing s).1 (step manager dealing s).2 := by
  cases dealing with
  | request => exact request_becomes manager s
  | create => exact create_becomes manager hs
  | alter place content => exact alter_becomes place content s
  | release place => exact release_becomes manager hs place
  | remove place => exact remove_becomes manager hs place
  | close => exact close_becomes manager hs

theorem numbers_append (a b : List (Numbered α)) : numbers (a ++ b) = numbers a ++ numbers b :=
  List.map_append

-- A holder cannot change the number of its instance.
theorem numbers_alter {loans : List (Numbered α)} {place : Nat} {r : Numbered α}
    (hheld : loans[place]? = some r) (content : α) :
    numbers (loans.set place { r with content := content }) = numbers loans := by
  obtain ⟨hplace, hr⟩ := List.getElem?_eq_some_iff.mp hheld
  unfold numbers
  have hbound : place < (loans.map Numbered.number).length := by simpa using hplace
  have hsame : r.number = (loans.map Numbered.number)[place] := by simp [hr]
  rw [List.map_set, hsame, List.set_getElem_self]

-- What is handed back was one of the instances on loan.
theorem count_eraseIdx {loans : List (Numbered α)} {place : Nat} {r : Numbered α}
    (hheld : loans[place]? = some r) (n : Nat) :
    (numbers loans).count n = (numbers (loans.eraseIdx place)).count n + [r.number].count n := by
  obtain ⟨hplace, rfl⟩ := List.getElem?_eq_some_iff.mp hheld
  have hperm := (List.getElem_cons_eraseIdx_perm hplace).map Numbered.number
  have hcount := hperm.count_eq n
  rw [List.map_cons, List.count_cons] at hcount
  rw [List.count_singleton]
  exact hcount.symm

theorem length_eraseIdx {loans : List (Numbered α)} {place : Nat} {r : Numbered α}
    (hheld : loans[place]? = some r) : (loans.eraseIdx place).length + 1 = loans.length := by
  obtain ⟨hplace, _⟩ := List.getElem?_eq_some_iff.mp hheld
  rw [List.length_eraseIdx_of_lt hplace]
  omega

-- Where an instance is, told by its number.
theorem placed_iff (s : Custody ω α) :
    (numbers s.pool.idle ++ numbers s.loans ++ s.books.cleaned).Perm (List.range s.books.created) ↔
      ∀ n, (numbers s.pool.idle).count n + (numbers s.loans).count n + s.books.cleaned.count n =
        (List.range s.books.created).count n := by
  rw [List.perm_iff_count]
  simp only [List.count_append]

theorem Becomes.balanced {s t : Custody ω α} {event : Option Event} (h : Becomes s event t)
    (hs : s.Balanced) : t.Balanced := by
  have hcounted := hs.counted
  have hplaced := (placed_iff s).mp hs.placed
  cases h with
  | unchanged => exact hs
  | altered content hheld =>
      refine ⟨hs.sound, ?_, ?_, hs.emptied⟩
      · rw [List.length_set]
        exact hcounted
      · rw [numbers_alter hheld]
        exact hs.placed
  | @reused r rest hopen hidle =>
      rw [hidle] at hcounted
      refine ⟨hs.sound, ?_, (placed_iff _).mpr fun n => ?_, fun hclosed => ?_⟩
      · simp only [List.length_cons, List.length_append, List.length_nil] at hcounted ⊢
        omega
      · have hn := hplaced n
        rw [hidle] at hn
        simp only [numbers, List.map_cons, List.map_append, List.map_nil, List.count_append,
          List.count_cons, List.count_nil] at hn ⊢
        omega
      · rw [hopen] at hclosed
        cases hclosed
  | reserved hopen hidle hroom =>
      refine ⟨hs.sound, ?_, hs.placed, hs.emptied⟩
      dsimp only
      omega
  | @created outside r hpending hnumber =>
      refine ⟨hs.sound, ?_, (placed_iff _).mpr fun n => ?_, hs.emptied⟩
      · simp only [List.length_append, List.length_singleton]
        omega
      · have hn := hplaced n
        simp only [numbers_append, List.range_succ, List.count_append] at hn ⊢
        simp only [numbers, List.map_cons, List.map_nil, hnumber]
        simp only [numbers] at hn
        omega
  | failed hpending =>
      refine ⟨hs.sound, ?_, hs.placed, hs.emptied⟩
      dsimp only
      omega
  | @kept outside place r hheld hopen hroom =>
      have hlength := length_eraseIdx hheld
      refine ⟨hs.sound, ?_, (placed_iff _).mpr fun n => ?_, fun hclosed => ?_⟩
      · simp only [List.length_append, List.length_singleton]
        omega
      · have hn := hplaced n
        rw [count_eraseIdx hheld] at hn
        simp only [numbers_append, List.count_append]
        simp only [numbers, List.map_cons, List.map_nil] at hn ⊢
        omega
      · change s.pool.closed = true at hclosed
        rw [hopen] at hclosed
        cases hclosed
  | @discarded outside place r hheld =>
      have hlength := length_eraseIdx hheld
      refine ⟨hs.sound, ?_, (placed_iff _).mpr fun n => ?_, hs.emptied⟩
      · dsimp only
        omega
      · have hn := hplaced n
        rw [count_eraseIdx hheld] at hn
        simp only [List.count_append]
        omega
  | @closed outside hopen =>
      refine ⟨hs.sound, ?_, (placed_iff _).mpr fun n => ?_, fun _ => rfl⟩
      · simp only [List.length_nil]
        omega
      · have hn := hplaced n
        simp only [List.count_append]
        simp only [numbers, List.map_nil, List.count_nil] at hn ⊢
        omega

def Event.kept? : Event → Option Nat
  | .kept number => some number
  | _ => none

def Event.reused? : Event → Option Nat
  | .reused number => some number
  | _ => none

-- The instances that are lent once more are, in order, the first of those that were idle to begin
-- with and those that came back. The others are still idle, unless the pool has been closed.
def InOrder (first : List Nat) (events : List Event) (s : Custody ω α) : Prop :=
  ∃ rest, first ++ events.filterMap Event.kept? = events.filterMap Event.reused? ++ rest ∧
    (s.pool.closed = false → rest = numbers s.pool.idle)

theorem filterMap_event (f : Event → Option Nat) (events : List Event) (event : Option Event) :
    (events ++ event.toList).filterMap f = events.filterMap f ++ (event.bind f).toList := by
  rw [List.filterMap_append]
  cases event with
  | none => rfl
  | some e => cases hf : f e <;> simp [hf]

theorem Becomes.inOrder {s t : Custody ω α} {event : Option Event} (h : Becomes s event t)
    {first : List Nat} {events : List Event} (hs : s.InOrder first events) :
    t.InOrder first (events ++ event.toList) := by
  obtain ⟨rest, hevents, hrest⟩ := hs
  unfold InOrder
  rw [filterMap_event, filterMap_event, ← List.append_assoc, hevents]
  cases h with
  | @reused r idle hopen hidle =>
      refine ⟨numbers idle, ?_, fun _ => rfl⟩
      rw [hrest hopen, hidle]
      simp [Event.kept?, Event.reused?, numbers]
  | @kept outside place r hheld hopen hroom =>
      refine ⟨rest ++ [r.number], ?_, fun _ => ?_⟩
      · simp [Event.kept?, Event.reused?]
      · rw [hrest hopen, numbers_append]
        rfl
  | closed hopen =>
      refine ⟨rest, by simp [Event.kept?, Event.reused?], fun hclosed => ?_⟩
      cases hclosed
  | _ => exact ⟨rest, by simp [Event.kept?, Event.reused?], hrest⟩

theorem run_concat (dealings : List (Dealing α)) (dealing : Dealing α) (s : Custody ω α) :
    run manager (dealings ++ [dealing]) s =
      match run manager dealings s with
      | (events, middle) =>
        match step manager dealing middle with
        | (event, last) => (events ++ event.toList, last) := by
  induction dealings generalizing s with
  | nil => simp [run]
  | cons first rest ih => simp [run, ih]

theorem Becomes.config_eq {s t : Custody ω α} {event : Option Event} (h : Becomes s event t) :
    t.pool.config = s.pool.config := by
  cases h with
  | _ => rfl

-- What holds of a run from its first state on.
theorem run_keeps {s : Custody ω α} (hs : s.Balanced) (dealings : List (Dealing α)) :
    (run manager dealings s).2.Balanced ∧
      (run manager dealings s).2.InOrder (numbers s.pool.idle) (run manager dealings s).1 ∧
      (run manager dealings s).2.pool.config = s.pool.config := by
  induction dealings using List.reverseRecOn with
  | nil => exact ⟨hs, ⟨numbers s.pool.idle, by simp [run], fun _ => rfl⟩, rfl⟩
  | append_singleton dealings dealing ih =>
      obtain ⟨hbalanced, hinOrder, hconfig⟩ := ih
      have hbecomes := step_becomes manager hbalanced dealing
      rw [run_concat]
      exact ⟨hbecomes.balanced hbalanced, hbecomes.inOrder hinOrder,
        hbecomes.config_eq.trans hconfig⟩

theorem start_balanced {config : PoolConfig} {outside : ω} {pool : Pool (Numbered α)}
    {books : Books ω} (h : Pool.start manager.booked config (.empty outside) = (.ok pool, books)) :
    (start pool books).Balanced := by
  obtain ⟨idle, outside', rfl, hnumbers, rfl⟩ := manager.booked_start_ok h
  refine ⟨rfl, rfl, ?_, nofun⟩
  have hfirst : numbers idle = List.range config.minSize :=
    hnumbers.trans List.range_eq_range'.symm
  change (numbers idle ++ [] ++ []).Perm (List.range (0 + config.minSize))
  rw [List.append_nil, List.append_nil, Nat.zero_add, hfirst]

-- To acquire without being interrupted is to make a request and, if it brings leave to create, to
-- create. Where that comes to nothing, the pool is as it was.
structure Acquires (s : Custody ω α) (outcome : Except (PoolError ε) (Numbered α))
    (pool : Pool (Numbered α)) (books : Books ω) : Prop where
  dealings : ∃ dealings, (dealings = [.request] ∨ dealings = [.request, .create]) ∧
    (run manager dealings s).2 = ⟨pool, books, s.loans ++ outcome.toOption.toList, s.pending⟩
  unharmed : ∀ e, outcome = .error e → pool = s.pool

theorem acquires_nothing {s : Custody ω α} {dealings : List (Dealing α)} {books : Books ω}
    (hdealings : dealings = [.request] ∨ dealings = [.request, .create])
    (hrun : (run manager dealings s).2 = ⟨s.pool, books, s.loans, s.pending⟩) (e : PoolError ε) :
    Acquires manager s (.error e) s.pool books := by
  refine ⟨⟨dealings, hdealings, ?_⟩, fun _ _ => rfl⟩
  rw [hrun, show (Except.error e).toOption.toList = ([] : List (Numbered α)) from rfl,
    List.append_nil]

theorem acquireWithin_acquires (s : Custody ω α) {now : Span} {limit : Option Span}
    (htime : Pool.endsInTime now limit = true) :
    Acquires manager s (Pool.acquireWithin manager.booked now limit s.pool s.books).1.1
      (Pool.acquireWithin manager.booked now limit s.pool s.books).1.2
      (Pool.acquireWithin manager.booked now limit s.pool s.books).2 := by
  rw [Pool.acquireWithin_of_endsInTime manager.booked htime, Pool.borrow_run, Pool.attempt_run]
  rcases hrequest : (s.pool.request : Grant (Numbered α) ε × Pool (Numbered α)) with ⟨grant, pool⟩
  have hfirst : (run manager [.request] s).2 = (s.request manager).2 := rfl
  rw [request, hrequest] at hfirst
  have hboth : (run manager [.request, .create] s).2 = ((s.request manager).2.create manager).2 :=
    rfl
  rw [request, hrequest] at hboth
  cases Pool.request_grants hrequest with
  | interrupted hbroken => exact acquires_nothing manager (.inl rfl) hfirst _
  | closed hbroken hclosed => exact acquires_nothing manager (.inl rfl) hfirst _
  | wait hbroken hopen hidle hfull => exact acquires_nothing manager (.inl rfl) hfirst _
  | reuse hbroken hopen hidle => exact ⟨⟨[.request], .inl rfl, hfirst⟩, nofun⟩
  | create hbroken hopen hidle hroom =>
      dsimp only at hboth ⊢
      rw [create, if_neg (Nat.succ_ne_zero s.pending)] at hboth
      rw [Pool.fulfil_create_run] at hboth ⊢
      rcases hcreate : manager.booked.create.run s.books with ⟨outcome, books⟩
      rw [hcreate] at hboth
      cases outcome with
      | ok r => exact ⟨⟨_, .inr rfl, hboth⟩, nofun⟩
      | error reason =>
          dsimp only at hboth ⊢
          rw [Pool.abandon_run reason (Nat.le_add_left 1 s.pool.total)] at hboth ⊢
          exact acquires_nothing manager (.inr rfl) hboth _

-- What holds of a pool after anything that has been done with it, and of all that can be done next.
structure Accounted (config : PoolConfig) (first : List Nat) (events : List Event)
    (s : Custody ω α) : Prop where
  balanced : s.Balanced
  config_eq : s.pool.config = config
  inOrder : s.InOrder first events
  becomes : ∀ dealing, Becomes s (step manager dealing s).1 (step manager dealing s).2
  acquires : ∀ now limit, Pool.endsInTime now limit = true →
    Acquires manager s (Pool.acquireWithin manager.booked now limit s.pool s.books).1.1
      (Pool.acquireWithin manager.booked now limit s.pool s.books).1.2
      (Pool.acquireWithin manager.booked now limit s.pool s.books).2
  overflows : ∀ now limit, Pool.endsInTime now limit = false →
    Pool.acquireWithin manager.booked now limit s.pool s.books =
      ((.error .overflow, s.pool), s.books)

-- Whatever is done with a pool, and whatever its manager does, every instance is accounted for.
theorem instances_accounted (config : PoolConfig) (outside : ω) {pool : Pool (Numbered α)}
    {books : Books ω} (h : Pool.start manager.booked config (.empty outside) = (.ok pool, books))
    (dealings : List (Dealing α)) :
    Accounted manager config (numbers pool.idle) (run manager dealings (start pool books)).1
      (run manager dealings (start pool books)).2 := by
  obtain ⟨hbalanced, hinOrder, hconfig⟩ := run_keeps manager (start_balanced manager h) dealings
  obtain ⟨idle, outside', hpool, _, _⟩ := manager.booked_start_ok h
  refine ⟨hbalanced, hconfig.trans ?_, hinOrder, step_becomes manager hbalanced,
    fun _ _ => acquireWithin_acquires manager _,
    fun _ _ htime => Pool.acquireWithin_overflow manager.booked htime _ _⟩
  rw [start, hpool, Pool.ofIdle]

-- One widget is made at the start, the next attempt is refused while the first one is on loan, and
-- there is no room for the second one when both have come back.
theorem widgets_accounted :
    let config : PoolConfig := ⟨"widgets", 1, some 1, some 2, none⟩
    let pool : Pool (Numbered Widget) := .ofIdle config [⟨0, ⟨0, true⟩⟩]
    let books : Books Workshop := ⟨⟨[1], 1, 1, []⟩, 1, []⟩
    let dealings : List (Dealing Widget) :=
      [.request, .request, .create, .request, .create, .release 0, .release 0]
    Pool.start Workshop.manager.booked config (.empty (.refusing [1])) = (.ok pool, books) ∧
      (run Workshop.manager dealings (start pool books)).1 =
        [.reused 0, .reserved, .failed, .reserved, .created 1, .kept 0, .discarded 1] ∧
      (run Workshop.manager dealings (start pool books)).2.Balanced := by
  intro config pool books dealings
  have hstart : Pool.start Workshop.manager.booked config (.empty (.refusing [1])) =
    (.ok pool, books) := rfl
  have hrun := instances_accounted Workshop.manager config _ hstart dealings
  exact ⟨hstart, rfl, hrun.balanced⟩

end Custody

end DocWire
