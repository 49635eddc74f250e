import DocWire.Proofs.Pool.Custody

namespace DocWire

variable {ω α ε : Type}

-- How often that wakes one who waits alone.
def Wake.count : Wake → Nat
  | .nobody => 0
  | .one => 1
  | .everybody => 1

-- Whom the end of an attempt wakes.
def Attempt.wake {ρ : Type} : Attempt ρ ε → Wake
  | .lent _ => .nobody
  | .refused _ wake => wake
  | .wait => .nobody

namespace Custody

-- What one who waits has waited for: an instance has come back, a place has become free, or there
-- is no use in waiting any more.
def Event.matters : Event → Bool
  | .reused _ => false
  | .reserved => false
  | .created _ => false
  | .failed => true
  | .kept _ => true
  | .discarded _ => true
  | .closed => true

-- A pool that is open, has nothing idle and may not grow.
structure Full (s : Custody ω α) : Prop where
  isOpen : s.pool.closed = false
  unused : s.pool.idle = []
  noRoom : ∃ most, s.pool.config.maxTotal = some most ∧ most ≤ s.pool.total

-- What does not matter to one who waits leaves a full pool full.
theorem Becomes.full {s t : Custody ω α} {event : Option Event} (h : Becomes s event t)
    (hs : s.Full) (hevent : event.any Event.matters = false) : t.Full := by
  cases h with
  | unchanged => exact hs
  | altered content hheld => exact ⟨hs.isOpen, hs.unused, hs.noRoom⟩
  | reused hopen hidle => cases hs.unused.symm.trans hidle
  | reserved hopen hidle hroom =>
      obtain ⟨most, hmost, hle⟩ := hs.noRoom
      exact absurd (hroom most hmost) (Nat.not_lt_of_le hle)
  | created hpending hnumber => exact ⟨hs.isOpen, hs.unused, hs.noRoom⟩
  | failed hpending => cases hevent
  | kept hheld hopen hroom => cases hevent
  | discarded hheld => cases hevent
  | closed hopen => cases hevent

theorem full_of_wait {s : Custody ω α}
    (h : (s.pool.request : Grant (Numbered α) ε × Pool (Numbered α)).1 = .wait) : s.Full := by
  rcases hrequest : (s.pool.request : Grant (Numbered α) ε × Pool (Numbered α)) with ⟨grant, pool⟩
  rw [hrequest] at h
  subst h
  cases Pool.request_grants hrequest with
  | wait hbroken hopen hidle hfull => exact ⟨hopen, hidle, s.pool.mayGrow_eq_false.mp hfull⟩

section

variable (manager : Manager (StateM ω) α ε)

def requestWake (s : Custody ω α) : Wake :=
  match (s.pool.request : Grant (Numbered α) ε × Pool (Numbered α)) with
  | (.create, _) => .nobody
  | (grant, pool) => (Pool.fulfil manager.booked grant pool s.books).1.1.wake

def createWake (s : Custody ω α) : Wake :=
  if s.pending = 0 then .nobody
  else (Pool.fulfil manager.booked .create s.pool s.books).1.1.wake

def handBackWake (back : Numbered α →
      Pool.Action (StateM (Books ω)) (Numbered α) (Except PoolFault Wake))
    (place : Nat) (s : Custody ω α) : Wake :=
  match s.loans[place]? with
  | none => .nobody
  | some r => (back r s.pool s.books).1.1.toOption.getD .nobody

-- Whom a dealing wakes, as the pool says at its end.
def wake : Dealing α → Custody ω α → Wake
  | .request, s => s.requestWake manager
  | .create, s => s.createWake manager
  | .alter _ _, _ => .nobody
  | .release place, s => s.handBackWake (Pool.release manager.booked) place
  | .remove place, s => s.handBackWake (Pool.remove manager.booked) place
  | .close, s => (Pool.close manager.booked s.pool s.books).1.1.toOption.getD .nobody

theorem requestWake_eq (s : Custody ω α) : s.requestWake manager = .nobody := by
  unfold requestWake
  rcases hrequest : (s.pool.request : Grant (Numbered α) ε × Pool (Numbered α)) with ⟨grant, pool⟩
  cases Pool.request_grants hrequest with
  | _ => rfl

theorem request_matters (s : Custody ω α) :
    (s.request manager).1.any Event.matters = false := by
  unfold request
  rcases hrequest : (s.pool.request : Grant (Numbered α) ε × Pool (Numbered α)) with ⟨grant, pool⟩
  cases Pool.request_grants hrequest with
  | _ => rfl

theorem handBackWake_eq {back : Numbered α →
      Pool.Action (StateM (Books ω)) (Numbered α) (Except PoolFault Wake)}
    {s : Custody ω α} {place : Nat} {r : Numbered α} (hheld : s.loans[place]? = some r)
    {wake : Wake} {pool : Pool (Numbered α)} {books : Books ω}
    (hback : back r s.pool s.books = ((.ok wake, pool), books)) :
    s.handBackWake back place = wake := by
  simp only [handBackWake, hheld, hback]
  rfl

theorem handBack_none {back : Numbered α →
      Pool.Action (StateM (Books ω)) (Numbered α) (Except PoolFault Wake)}
    {s : Custody ω α} {place : Nat} (hheld : s.loans[place]? = none) :
    s.handBack back place = (none, s) ∧ s.handBackWake back place = .nobody := by
  simp only [handBack, handBackWake, hheld, and_self]

-- What matters to one who waits wakes it, and nothing else does.
theorem wake_count {s : Custody ω α} (hs : s.Balanced) (dealing : Dealing α) :
    (s.wake manager dealing).count = ((step manager dealing s).1.any Event.matters).toNat := by
  cases dealing with
  | request =>
      change (s.requestWake manager).count = ((s.request manager).1.any Event.matters).toNat
      rw [requestWake_eq, request_matters]
      rfl
  | create =>
      change (s.createWake manager).count = ((s.create manager).1.any Event.matters).toNat
      unfold createWake create
      by_cases hpending : s.pending = 0
      · rw [if_pos hpending, if_pos hpending]
        rfl
      rw [if_neg hpending, if_neg hpending]
      obtain ⟨r, outside, _, hcreate⟩ | ⟨reason, outside, hcreate⟩ :=
        create_answers manager hs (Nat.pos_of_ne_zero hpending)
      · rw [hcreate]
        rfl
      · rw [hcreate]
        rfl
  | alter place content => rfl
  | release place =>
      change (s.handBackWake (Pool.release manager.booked) place).count =
        ((s.handBack (Pool.release manager.booked) place).1.any Event.matters).toNat
      cases hheld : s.loans[place]? with
      | none =>
          rw [(handBack_none hheld).1, (handBack_none hheld).2]
          rfl
      | some r =>
          obtain ⟨outside, _, _, hrelease⟩ | ⟨outside, hrelease⟩ := release_answers manager hs hheld
          · rw [handBack_kept hheld hrelease, handBackWake_eq hheld hrelease]
            rfl
          · rw [handBack_discarded hheld hrelease, handBackWake_eq hheld hrelease]
            rfl
  | remove place =>
      change (s.handBackWake (Pool.remove manager.booked) place).count =
        ((s.handBack (Pool.remove manager.booked) place).1.any Event.matters).toNat
      cases hheld : s.loans[place]? with
      | none =>
          rw [(handBack_none hheld).1, (handBack_none hheld).2]
          rfl
      | some r =>
          obtain ⟨outside, hremove⟩ := remove_answers manager hs hheld
          rw [handBack_discarded hheld hremove, handBackWake_eq hheld hremove]
          rfl
  | close =>
      have hidle : s.pool.idle.length ≤ s.pool.total := by
        have hcounted := hs.counted
        omega
      change ((Pool.close manager.booked s.pool s.books).1.1.toOption.getD .nobody).count =
        ((s.close manager).1.any Event.matters).toNat
      unfold close
      rw [Pool.close_run manager.booked hidle]
      by_cases hclosed : s.pool.closed = true
      · rw [if_pos hclosed, if_pos hclosed]
        rfl
      · rw [if_neg hclosed, if_neg hclosed]
        rfl

end

end Custody

-- How one fares who found nothing in a pool: it sleeps, or it has been woken and will look again, or
-- it has got leave to create, or it is done.
inductive Waiter (α ε : Type) where
  | asleep
  | woken
  | creating
  | done (outcome : Except (PoolError ε) (Numbered α))

namespace Waiter

def waits : Waiter α ε → Bool
  | .asleep => true
  | .woken => true
  | .creating => false
  | .done _ => false

-- The leave to create that is its own.
def leave : Waiter α ε → Nat
  | .asleep => 0
  | .woken => 0
  | .creating => 1
  | .done _ => 0

-- It waits, or it was refused without having got leave to create.
def emptyHanded : Waiter α ε → Bool
  | .asleep => true
  | .woken => true
  | .creating => false
  | .done (.ok _) => false
  | .done (.error (.create _)) => false
  | .done (.error _) => true

def rouse : Waiter α ε → Waiter α ε
  | .asleep => .woken
  | .woken => .woken
  | .creating => .creating
  | .done outcome => .done outcome

-- After a look at the pool. Only one who waits for a limited time gives up when it is late.
def afterLook (limit : Option Span) (late : Bool) (name : String) :
    Grant (Numbered α) ε → Waiter α ε
  | .reuse r => .done (.ok r)
  | .create => .creating
  | .refuse e => .done (.error e)
  | .wait =>
    match late, limit with
    | true, some span => .done (.error (.exhausted name span))
    | true, none => .asleep
    | false, _ => .asleep

def afterCreation : Attempt (Numbered α) ε → Waiter α ε
  | .lent r => .done (.ok r)
  | .refused e _ => .done (.error e)
  | .wait => .asleep

variable {waiter : Waiter α ε}

theorem emptyHanded_of_waits (h : waiter.waits = true) : waiter.emptyHanded = true := by
  cases waiter with
  | asleep => rfl
  | woken => rfl
  | creating => cases h
  | done outcome => cases h

theorem leave_of_emptyHanded (h : waiter.emptyHanded = true) : waiter.leave = 0 := by
  cases waiter with
  | creating => cases h
  | _ => rfl

theorem rouse_ne_asleep : waiter.rouse ≠ .asleep := by
  cases waiter with
  | _ => exact nofun

theorem leave_rouse : waiter.rouse.leave = waiter.leave := by
  cases waiter with
  | _ => rfl

theorem emptyHanded_rouse : waiter.rouse.emptyHanded = waiter.emptyHanded := by
  cases waiter with
  | _ => rfl

end Waiter

-- One who waits for a pool while others deal with it. They wake it only after they have let go of
-- the pool, so that wake-ups can be under way: `calls` of them.
structure Vigil (ω α ε : Type) where
  custody : Custody ω α
  waiter : Waiter α ε
  calls : Nat

-- What can happen next: somebody else deals with the pool, a wake-up arrives, or the one who waits
-- goes on. It may also look without having been woken, and it may be late then.
inductive Turn (α : Type) where
  | other (dealing : Dealing α)
  | call
  | look (late : Bool)
  | create

def Turn.dealing? : Turn α → Option (Dealing α)
  | .other dealing => some dealing
  | .call => none
  | .look _ => none
  | .create => none

namespace Vigil

section

variable (manager : Manager (StateM ω) α ε)

def deal (dealing : Dealing α) (v : Vigil ω α ε) : Vigil ω α ε where
  custody := (Custody.step manager dealing v.custody).2
  waiter := v.waiter
  calls := v.calls + (v.custody.wake manager dealing).count

-- Others cannot use leave to create that is not theirs.
def other (dealing : Dealing α) (v : Vigil ω α ε) : Vigil ω α ε :=
  match dealing with
  | .create => if v.custody.pending ≤ v.waiter.leave then v else v.deal manager .create
  | dealing => v.deal manager dealing

-- A wake-up is lost on one who does not sleep.
def call (v : Vigil ω α ε) : Vigil ω α ε :=
  if v.calls = 0 then v else { v with waiter := v.waiter.rouse, calls := v.calls - 1 }

-- To look and to fall asleep again is one step: the pool is let go of in sleep only.
def look (limit : Option Span) (late : Bool) (v : Vigil ω α ε) : Vigil ω α ε :=
  if v.waiter.waits then
    { v.deal manager .request with
      waiter := .afterLook limit late v.custody.pool.config.name
        (v.custody.pool.request : Grant (Numbered α) ε × Pool (Numbered α)).1 }
  else v

def create (v : Vigil ω α ε) : Vigil ω α ε :=
  match v.waiter with
  | .creating =>
    { v.deal manager .create with
      waiter := .afterCreation
        (Pool.fulfil manager.booked .create v.custody.pool v.custody.books).1.1 }
  | _ => v

def turn (limit : Option Span) : Turn α → Vigil ω α ε → Vigil ω α ε
  | .other dealing, v => v.other manager dealing
  | .call, v => v.call
  | .look late, v => v.look manager limit late
  | .create, v => v.create manager

def run (limit : Option Span) : List (Turn α) → Vigil ω α ε → Vigil ω α ε
  | [], v => v
  | next :: rest, v => run limit rest (v.turn manager limit next)

-- All that a look can come to.
inductive Looks (limit : Option Span) (late : Bool) (s : Custody ω α) :
    Waiter α ε → Custody ω α → Prop where
  | closed (hclosed : s.pool.closed = true) :
      Looks limit late s (.done (.error (.closed s.pool.config.name))) s
  | reused {r : Numbered α} {rest : List (Numbered α)} (hopen : s.pool.closed = false)
      (hidle : s.pool.idle = r :: rest) :
      Looks limit late s (.done (.ok r))
        { s with pool := { s.pool with idle := rest }, loans := s.loans ++ [r] }
  | reserved (hopen : s.pool.closed = false) (hidle : s.pool.idle = [])
      (hroom : ∀ most, s.pool.config.maxTotal = some most → s.pool.total < most) :
      Looks limit late s .creating
        { s with pool := { s.pool with total := s.pool.total + 1 }, pending := s.pending + 1 }
  | again (hfull : s.Full) (hpatient : late = true → limit = none) : Looks limit late s .asleep s
  | exhausted {span : Span} (hfull : s.Full) (hlate : late = true) (hlimit : limit = some span) :
      Looks limit late s (.done (.error (.exhausted s.pool.config.name span))) s

-- A pool that is not full does not let anybody wait, or give up.
theorem Looks.served {limit : Option Span} {late : Bool} {s t : Custody ω α} {waiter : Waiter α ε}
    (h : Looks limit late s waiter t) (hs : ¬ s.Full) :
    waiter.waits = false ∧ ∀ name span, waiter ≠ .done (.error (.exhausted name span)) := by
  cases h with
  | closed hclosed => exact ⟨rfl, nofun⟩
  | reused hopen hidle => exact ⟨rfl, nofun⟩
  | reserved hopen hidle hroom => exact ⟨rfl, nofun⟩
  | again hfull hpatient => exact absurd hfull hs
  | exhausted hfull hlate hlimit => exact absurd hfull hs

-- All that a creation by the one who waits can come to. What is created is its own at once, and is
-- never idle.
inductive Creates (v : Vigil ω α ε) : Vigil ω α ε → Prop where
  | created {outside : ω} {r : Numbered α} (hnumber : r.number = v.custody.books.created) :
      Creates v ⟨⟨v.custody.pool, ⟨outside, v.custody.books.created + 1, v.custody.books.cleaned⟩,
        v.custody.loans ++ [r], v.custody.pending - 1⟩, .done (.ok r), v.calls⟩
  | failed {outside : ω} {reason : ε} :
      Creates v ⟨⟨{ v.custody.pool with total := v.custody.pool.total - 1 },
        { v.custody.books with outside := outside }, v.custody.loans, v.custody.pending - 1⟩,
        .done (.error (.create reason)), v.calls + 1⟩

variable {v : Vigil ω α ε}

theorem look_waits (hwaits : v.waiter.waits = true) (limit : Option Span) (late : Bool) :
    v.look manager limit late = ⟨(v.custody.request manager).2,
      .afterLook limit late v.custody.pool.config.name
        (v.custody.pool.request : Grant (Numbered α) ε × Pool (Numbered α)).1,
      v.calls + (v.custody.requestWake manager).count⟩ :=
  if_pos hwaits

theorem look_looks (hv : v.custody.Balanced) (hwaits : v.waiter.waits = true)
    (limit : Option Span) (late : Bool) :
    Looks limit late v.custody (v.look manager limit late).waiter
      (v.look manager limit late).custody := by
  rw [look_waits manager hwaits]
  unfold Custody.request
  rcases hrequest : (v.custody.pool.request : Grant (Numbered α) ε × Pool (Numbered α))
    with ⟨grant, pool⟩
  cases Pool.request_grants hrequest with
  | interrupted hbroken => cases hv.sound.symm.trans hbroken
  | closed hbroken hclosed => exact .closed hclosed
  | reuse hbroken hopen hidle => exact .reused hopen hidle
  | create hbroken hopen hidle hroom =>
      exact .reserved hopen hidle (v.custody.pool.mayGrow_iff.mp hroom)
  | wait hbroken hopen hidle hroom =>
      have hfull : v.custody.Full := ⟨hopen, hidle, v.custody.pool.mayGrow_eq_false.mp hroom⟩
      cases late with
      | false => exact .again hfull nofun
      | true =>
          cases limit with
          | none => exact .again hfull fun _ => rfl
          | some span => exact .exhausted hfull rfl rfl

theorem look_calls (hwaits : v.waiter.waits = true) (limit : Option Span) (late : Bool) :
    (v.look manager limit late).calls = v.calls := by
  rw [look_waits manager hwaits, Custody.requestWake_eq]
  rfl

theorem create_creating (hwaiter : v.waiter = .creating) :
    v.create manager = ⟨(v.custody.create manager).2, .afterCreation
      (Pool.fulfil manager.booked .create v.custody.pool v.custody.books).1.1,
      v.calls + (v.custody.createWake manager).count⟩ := by
  simp only [create, hwaiter]
  rfl

theorem create_creates (hv : v.custody.Balanced) (hwaiter : v.waiter = .creating)
    (hpending : 0 < v.custody.pending) : Creates v (v.create manager) := by
  rw [create_creating manager hwaiter]
  unfold Custody.create Custody.createWake
  rw [if_neg (Nat.ne_of_gt hpending), if_neg (Nat.ne_of_gt hpending)]
  obtain ⟨r, outside, hnumber, hfulfil⟩ | ⟨reason, outside, hfulfil⟩ :=
    Custody.create_answers manager hv hpending
  · rw [hfulfil]
    exact .created hnumber
  · rw [hfulfil]
    exact .failed

-- Nobody but a creation uses leave to create.
theorem pending_le_step (s : Custody ω α) {dealing : Dealing α} (h : dealing ≠ .create) :
    s.pending ≤ (Custody.step manager dealing s).2.pending := by
  cases dealing with
  | request =>
      change s.pending ≤ (s.request manager).2.pending
      unfold Custody.request
      rcases hrequest : (s.pool.request : Grant (Numbered α) ε × Pool (Numbered α))
        with ⟨grant, pool⟩
      cases Pool.request_grants hrequest with
      | create hbroken hopen hidle hroom => exact Nat.le_succ _
      | _ => exact Nat.le_refl _
  | create => exact absurd rfl h
  | alter place content =>
      change s.pending ≤ (s.alter place content).pending
      unfold Custody.alter
      split
      · exact Nat.le_refl _
      · exact Nat.le_refl _
  | release place =>
      change s.pending ≤ (s.handBack (Pool.release manager.booked) place).2.pending
      unfold Custody.handBack
      split
      · exact Nat.le_refl _
      · exact Nat.le_refl _
  | remove place =>
      change s.pending ≤ (s.handBack (Pool.remove manager.booked) place).2.pending
      unfold Custody.handBack
      split
      · exact Nat.le_refl _
      · exact Nat.le_refl _
  | close => exact Nat.le_refl _

theorem pending_le_create (s : Custody ω α) : s.pending ≤ (s.create manager).2.pending + 1 := by
  unfold Custody.create
  split
  · exact Nat.le_succ _
  · split
    · exact Nat.le_add_of_sub_le (Nat.le_refl _)
    · exact Nat.le_add_of_sub_le (Nat.le_refl _)

theorem deal_create_none (h : v.custody.pending = 0) : v.deal manager .create = v := by
  have hstep : Custody.step manager .create v.custody = (none, v.custody) := if_pos h
  have hwake : v.custody.wake manager .create = .nobody := if_pos h
  unfold deal
  rw [hstep, hwake]
  rfl

-- Others deal with the pool as they like, but that they leave one its own leave to create.
theorem other_cases (hv : v.waiter.leave ≤ v.custody.pending) (dealing : Dealing α) :
    (v.other manager dealing = v ∧ v.waiter.leave ≠ 0) ∨
      (v.other manager dealing = v.deal manager dealing ∧
        v.waiter.leave ≤ (Custody.step manager dealing v.custody).2.pending) := by
  by_cases hcreate : dealing = .create
  · subst hcreate
    have hother : v.other manager .create =
      if v.custody.pending ≤ v.waiter.leave then v else v.deal manager .create := rfl
    rw [hother]
    by_cases hown : v.custody.pending ≤ v.waiter.leave
    · rw [if_pos hown]
      by_cases hleave : v.waiter.leave = 0
      · have hpending : v.custody.pending = 0 := by omega
        rw [deal_create_none manager hpending, hleave]
        exact .inr ⟨rfl, Nat.zero_le _⟩
      · exact .inl ⟨rfl, hleave⟩
    · have hstep := pending_le_create manager v.custody
      rw [if_neg hown]
      exact .inr ⟨rfl, by change _ ≤ (v.custody.create manager).2.pending; omega⟩
  · refine .inr ⟨?_, Nat.le_trans hv (pending_le_step manager v.custody hcreate)⟩
    cases dealing with
    | create => exact absurd rfl hcreate
    | _ => rfl

-- What holds of one who waits, whose vigil began with `first` and during which others have done
-- `dealings`.
structure Kept (first : Custody ω α) (dealings : List (Dealing α)) (v : Vigil ω α ε) : Prop where
  balanced : v.custody.Balanced
  leave : v.waiter.leave ≤ v.custody.pending
  -- one who sleeps and has not been called has nothing to wake for
  full : v.waiter = .asleep → v.calls = 0 → v.custody.Full
  -- one who has got nothing has changed nothing
  unchanged : v.waiter.emptyHanded = true → v.custody = (Custody.run manager dealings first).2

variable {manager} {first : Custody ω α} {dealings : List (Dealing α)}

theorem Kept.other (h : v.Kept manager first dealings) (dealing : Dealing α) :
    (v.other manager dealing).Kept manager first (dealings ++ [dealing]) := by
  obtain ⟨hsame, hleave⟩ | ⟨hdeal, hleave⟩ := other_cases manager h.leave dealing
  · rw [hsame]
    exact ⟨h.balanced, h.leave, h.full, fun hempty =>
      absurd (Waiter.leave_of_emptyHanded hempty) hleave⟩
  · have hbecomes := Custody.step_becomes manager h.balanced dealing
    rw [hdeal]
    refine ⟨hbecomes.balanced h.balanced, hleave, fun hasleep hcalls => ?_, fun hempty => ?_⟩
    · change v.calls + (v.custody.wake manager dealing).count = 0 at hcalls
      rw [Custody.wake_count manager h.balanced] at hcalls
      obtain ⟨hcalls, hnothing⟩ := Nat.add_eq_zero_iff.mp hcalls
      exact hbecomes.full (h.full hasleep hcalls) (Bool.toNat_eq_zero.mp hnothing)
    · rw [Custody.run_concat]
      exact congrArg (fun s => (Custody.step manager dealing s).2) (h.unchanged hempty)

theorem Kept.call (h : v.Kept manager first dealings) : v.call.Kept manager first dealings := by
  unfold Vigil.call
  split
  · exact h
  · refine ⟨h.balanced, ?_, fun hasleep => absurd hasleep Waiter.rouse_ne_asleep, fun hempty => ?_⟩
    · rw [Waiter.leave_rouse]
      exact h.leave
    · rw [Waiter.emptyHanded_rouse] at hempty
      exact h.unchanged hempty

theorem Kept.look (h : v.Kept manager first dealings) (limit : Option Span) (late : Bool) :
    (v.look manager limit late).Kept manager first dealings := by
  by_cases hwaits : v.waiter.waits = true
  · have hlooks := look_looks manager h.balanced hwaits limit late
    have hunchanged := h.unchanged (Waiter.emptyHanded_of_waits hwaits)
    have hbalanced : (v.look manager limit late).custody.Balanced := by
      rw [look_waits manager hwaits]
      exact (Custody.request_becomes manager v.custody).balanced h.balanced
    generalize v.look manager limit late = u at hlooks hbalanced ⊢
    obtain ⟨custody, waiter, calls⟩ := u
    cases hlooks with
    | closed hclosed => exact ⟨hbalanced, Nat.zero_le _, nofun, fun _ => hunchanged⟩
    | reused hopen hidle => exact ⟨hbalanced, Nat.zero_le _, nofun, nofun⟩
    | reserved hopen hidle hroom => exact ⟨hbalanced, Nat.le_add_left _ _, nofun, nofun⟩
    | again hfull hpatient => exact ⟨hbalanced, Nat.zero_le _, fun _ _ => hfull, fun _ => hunchanged⟩
    | exhausted hfull hlate hlimit =>
        exact ⟨hbalanced, Nat.zero_le _, nofun, fun _ => hunchanged⟩
  · have hsame : v.look manager limit late = v := if_neg hwaits
    rw [hsame]
    exact h

theorem Kept.create (h : v.Kept manager first dealings) :
    (v.create manager).Kept manager first dealings := by
  cases hwaiter : v.waiter with
  | creating =>
      have hpending : 0 < v.custody.pending := by
        have hleave := h.leave
        rw [hwaiter] at hleave
        exact hleave
      have hcreates := create_creates manager h.balanced hwaiter hpending
      have hbalanced : (v.create manager).custody.Balanced := by
        rw [create_creating manager hwaiter]
        exact (Custody.create_becomes manager h.balanced).balanced h.balanced
      generalize v.create manager = u at hcreates hbalanced ⊢
      cases hcreates with
      | created hnumber => exact ⟨hbalanced, Nat.zero_le _, nofun, nofun⟩
      | failed => exact ⟨hbalanced, Nat.zero_le _, nofun, nofun⟩
  | _ =>
      have hsame : v.create manager = v := by simp only [Vigil.create, hwaiter]
      rw [hsame]
      exact h

theorem Kept.turn (h : v.Kept manager first dealings) (limit : Option Span) (next : Turn α) :
    (v.turn manager limit next).Kept manager first (dealings ++ next.dealing?.toList) := by
  cases next with
  | other dealing => exact h.other dealing
  | call =>
      simpa only [Vigil.turn, Turn.dealing?, Option.toList_none, List.append_nil] using h.call
  | look late =>
      simpa only [Vigil.turn, Turn.dealing?, Option.toList_none, List.append_nil]
        using h.look limit late
  | create =>
      simpa only [Vigil.turn, Turn.dealing?, Option.toList_none, List.append_nil] using h.create

theorem Kept.run (h : v.Kept manager first dealings) (limit : Option Span)
    (turns : List (Turn α)) :
    (v.run manager limit turns).Kept manager first (dealings ++ turns.filterMap Turn.dealing?) := by
  induction turns generalizing v dealings with
  | nil => simpa only [Vigil.run, List.filterMap_nil, List.append_nil] using h
  | cons next rest ih =>
      have hdealings : (next :: rest).filterMap Turn.dealing? =
          next.dealing?.toList ++ rest.filterMap Turn.dealing? := by
        cases next with
        | _ => rfl
      rw [hdealings, ← List.append_assoc]
      exact ih (h.turn limit next)

-- A sleeper whose pool is not full has been called, and does not sleep again.
theorem Kept.served (h : v.Kept manager first dealings) (limit : Option Span)
    (hasleep : v.waiter = .asleep) (hs : ¬ v.custody.Full) :
    v.calls ≠ 0 ∧ ∀ late,
      (v.call.look manager limit late).waiter.waits = false ∧
        ∀ name span,
          (v.call.look manager limit late).waiter ≠ .done (.error (.exhausted name span)) := by
  have hcalls : v.calls ≠ 0 := fun hcalls => hs (h.full hasleep hcalls)
  have hcall : v.call = ⟨v.custody, .woken, v.calls - 1⟩ := by
    rw [Vigil.call, if_neg hcalls, hasleep]
    rfl
  refine ⟨hcalls, fun late => ?_⟩
  rw [hcall]
  exact (look_looks manager (v := ⟨v.custody, .woken, v.calls - 1⟩) h.balanced rfl limit late).served
    hs

-- What the one who waits gets, and how the pool is left, as acquiring tells it.
structure Acquires (v : Vigil ω α ε)
    (acquired : (Except (PoolError ε) (Numbered α) × Pool (Numbered α)) × Books ω) : Prop where
  waiter_eq : v.waiter = .done acquired.1.1
  pool_eq : v.custody.pool = acquired.1.2
  books_eq : v.custody.books = acquired.2

variable (manager)

-- A look by one who is late, and the creation that it may bring, are all of acquiring while nobody
-- else is at work.
theorem look_create_acquires (hv : v.custody.Balanced) (hwaits : v.waiter.waits = true)
    (now span : Span) (htime : Pool.endsInTime now (some span) = true) :
    Acquires ((v.look manager (some span) true).create manager)
      (Pool.acquireWithin manager.booked now (some span) v.custody.pool v.custody.books) := by
  rw [look_waits manager hwaits, Pool.acquireWithin_of_endsInTime manager.booked htime,
    Pool.borrow_run, Pool.attempt_run]
  unfold Custody.request
  rcases hrequest : (v.custody.pool.request : Grant (Numbered α) ε × Pool (Numbered α))
    with ⟨grant, pool⟩
  cases Pool.request_grants hrequest with
  | interrupted hbroken => cases hv.sound.symm.trans hbroken
  | closed hbroken hclosed => exact ⟨rfl, rfl, rfl⟩
  | reuse hbroken hopen hidle => exact ⟨rfl, rfl, rfl⟩
  | wait hbroken hopen hidle hfull => exact ⟨rfl, rfl, rfl⟩
  | create hbroken hopen hidle hroom =>
      dsimp only
      rw [create_creating manager rfl]
      unfold Custody.create
      rw [if_neg (Nat.succ_ne_zero v.custody.pending)]
      dsimp only [Waiter.afterLook]
      rcases hcreate : manager.booked.create.run v.custody.books with ⟨outcome, books⟩
      rw [Pool.fulfil_create_run, hcreate]
      cases outcome with
      | ok r => exact ⟨rfl, rfl, rfl⟩
      | error reason =>
          dsimp only
          rw [Pool.abandon_run reason (Nat.le_add_left 1 v.custody.pool.total)]
          exact ⟨rfl, rfl, rfl⟩

-- What one who waits can count on, whatever the others do.
structure Attended (limit : Option Span) (first : Custody ω α) (dealings : List (Dealing α))
    (v : Vigil ω α ε) : Prop where
  kept : v.Kept manager first dealings
  -- it is called by what matters to it
  others : v.waiter.waits = true → ∀ dealing, ∃ event s,
    Custody.step manager dealing v.custody = (event, s) ∧ Custody.Becomes v.custody event s ∧
      v.other manager dealing = ⟨s, v.waiter, v.calls + (event.any Custody.Event.matters).toNat⟩
  looks : v.waiter.waits = true → ∀ late, ∃ s waiter,
    v.look manager limit late = ⟨s, waiter, v.calls⟩ ∧ Looks limit late v.custody waiter s
  -- while it sleeps and there is something for it, it is being called, and will not sleep again
  served : v.waiter = .asleep → ¬ v.custody.Full → v.calls ≠ 0 ∧ ∀ late,
    (v.call.look manager limit late).waiter.waits = false ∧
      ∀ name span,
        (v.call.look manager limit late).waiter ≠ .done (.error (.exhausted name span))
  creates : v.waiter = .creating → Creates v (v.create manager)
  acquires : v.waiter.waits = true → ∀ now span, Pool.endsInTime now (some span) = true →
    Acquires ((v.look manager (some span) true).create manager)
      (Pool.acquireWithin manager.booked now (some span) v.custody.pool v.custody.books)

theorem Kept.attended {first : Custody ω α} {dealings : List (Dealing α)}
    (h : v.Kept manager first dealings) (limit : Option Span) :
    v.Attended manager limit first dealings := by
  refine ⟨h, fun hwaits dealing => ?_, fun hwaits late => ?_, h.served limit,
    fun hwaiter => ?_, fun hwaits => look_create_acquires manager h.balanced hwaits⟩
  · have hleave := Waiter.leave_of_emptyHanded (Waiter.emptyHanded_of_waits hwaits)
    obtain ⟨_, hown⟩ | ⟨hdeal, _⟩ := other_cases manager h.leave dealing
    · exact absurd hleave hown
    · refine ⟨(Custody.step manager dealing v.custody).1, (Custody.step manager dealing v.custody).2,
        rfl, Custody.step_becomes manager h.balanced dealing, ?_⟩
      rw [hdeal, deal, Custody.wake_count manager h.balanced]
  · exact ⟨_, _, congrArg (Vigil.mk _ _) (look_calls manager hwaits limit late),
      look_looks manager h.balanced hwaits limit late⟩
  · have hleave := h.leave
    rw [hwaiter] at hleave
    exact create_creates manager h.balanced hwaiter hleave

-- Whoever waits for a pool is never left behind.
theorem waiter_attended (config : PoolConfig) (outside : ω) {pool : Pool (Numbered α)}
    {books : Books ω} (h : Pool.start manager.booked config (.empty outside) = (.ok pool, books))
    (before : List (Dealing α))
    (hwait : ((Custody.run manager before (.start pool books)).2.pool.request :
      Grant (Numbered α) ε × Pool (Numbered α)).1 = .wait)
    (limit : Option Span) (calls : Nat) (turns : List (Turn α)) :
    Attended manager limit (Custody.run manager before (.start pool books)).2
      (turns.filterMap Turn.dealing?)
      (run manager limit turns
        ⟨(Custody.run manager before (.start pool books)).2, .asleep, calls⟩) := by
  obtain ⟨hbalanced, _⟩ := Custody.run_keeps manager (Custody.start_balanced manager h) before
  generalize (Custody.run manager before (.start pool books)).2 = s at hwait hbalanced ⊢
  have hkept : Kept manager s [] ⟨s, (.asleep : Waiter α ε), calls⟩ :=
    ⟨hbalanced, Nat.zero_le _, fun _ _ => Custody.full_of_wait hwait, fun _ => rfl⟩
  exact (hkept.run limit turns).attended manager limit

end

-- A pool of one widget, which is on loan.
def lentOut : Custody Workshop Widget :=
  (Custody.run Workshop.manager [.request]
    (.start (.ofIdle ⟨"widgets", 1, some 1, some 1, none⟩ [⟨0, ⟨0, true⟩⟩])
      ⟨⟨[], 1, 1, []⟩, 1, []⟩)).2

-- The widget comes back, but somebody else takes it before the one who waits has woken. When it is
-- removed, a new one is made in its place.
theorem widget_awaited :
    Pool.start Workshop.manager.booked ⟨"widgets", 1, some 1, some 1, none⟩
        (.empty (.refusing [])) =
      (.ok (.ofIdle ⟨"widgets", 1, some 1, some 1, none⟩ [⟨0, ⟨0, true⟩⟩]),
        ⟨⟨[], 1, 1, []⟩, 1, []⟩) ∧
      (lentOut.pool.request : Grant (Numbered Widget) RefusedAttempt × _).1 = .wait ∧
      ∃ last, run Workshop.manager (some ⟨5⟩) [.other (.release 0), .other .request, .call,
          .look false, .other (.remove 0), .call, .look false, .create]
          ⟨lentOut, .asleep, 0⟩ = last ∧
        last.waiter = .done (.ok ⟨1, ⟨1, true⟩⟩) ∧ last.custody.Balanced := by
  refine ⟨rfl, rfl, _, rfl, rfl, ?_⟩
  exact (waiter_attended Workshop.manager ⟨"widgets", 1, some 1, some 1, none⟩ (.refusing []) rfl
    [.request] rfl (some ⟨5⟩) 0 _).kept.balanced

end Vigil

end DocWire
