import DocWire.Proofs.Pool.Custody

namespace DocWire

variable {ω ρ α ε : Type}

namespace Pool

-- A pool that holds no more than its settings allow.
structure WithinLimits (p : Pool ρ) : Prop where
  idle_le_total : p.idle.length ≤ p.total
  total_le : ∀ most, p.config.maxTotal = some most → p.total ≤ most
  idle_le : ∀ most, p.config.maxIdle = some most → p.idle.length ≤ most

-- The same, where a limit that is below the size to start with gives way to that.
structure WithinReach (p : Pool ρ) : Prop where
  idle_le_total : p.idle.length ≤ p.total
  total_le : ∀ most, p.config.maxTotal = some most → p.total ≤ max most p.config.minSize
  idle_le : ∀ most, p.config.maxIdle = some most → p.idle.length ≤ max most p.config.minSize

end Pool

-- Settings whose limits leave room for what a pool starts with.
structure PoolConfig.Fits (config : PoolConfig) : Prop where
  total : ∀ most, config.maxTotal = some most → config.minSize ≤ most
  idle : ∀ most, config.maxIdle = some most → config.minSize ≤ most

theorem Pool.WithinReach.withinLimits {p : Pool ρ} (h : p.WithinReach) (hfits : p.config.Fits) :
    p.WithinLimits := by
  refine ⟨h.idle_le_total, fun most hmost => ?_, fun most hmost => ?_⟩
  · have hleast := hfits.total most hmost
    have htotal := h.total_le most hmost
    omega
  · have hleast := hfits.idle most hmost
    have hidle := h.idle_le most hmost
    omega

-- A pool starts with what it has to start with, whatever its limits.
theorem Pool.ofIdle_withinReach {config : PoolConfig} {idle : List ρ}
    (h : idle.length = config.minSize) : (ofIdle config idle).WithinReach := by
  refine ⟨Nat.le_refl _, fun most _ => ?_, fun most _ => ?_⟩
  · rw [ofIdle, h]
    exact Nat.le_max_right _ _
  · rw [ofIdle, h]
    exact Nat.le_max_right _ _

namespace Custody

variable (manager : Manager (StateM ω) α ε)

-- From then on the count of instances grows only below its limit, and so does that of idle ones.
theorem Becomes.withinReach {s t : Custody ω α} {event : Option Event} (h : Becomes s event t)
    (hs : s.Balanced) (hreach : s.pool.WithinReach) : t.pool.WithinReach := by
  have hbalanced := h.balanced hs
  have hidle : t.pool.idle.length ≤ t.pool.total := by
    have hcounted := hbalanced.counted
    omega
  obtain ⟨_, htotal, hkept⟩ := hreach
  refine ⟨hidle, fun most hmost => ?_, fun most hmost => ?_⟩
  · rw [h.config_eq] at hmost ⊢
    have hbefore := htotal most hmost
    cases h with
    | reserved hopen hnone hroom =>
        have hbelow := hroom most hmost
        dsimp only
        omega
    | failed hpending => exact Nat.le_trans (Nat.sub_le _ _) hbefore
    | discarded hheld => exact Nat.le_trans (Nat.sub_le _ _) hbefore
    | closed hopen => exact Nat.le_trans (Nat.sub_le _ _) hbefore
    | _ => exact hbefore
  · rw [h.config_eq] at hmost ⊢
    have hbefore := hkept most hmost
    cases h with
    | kept hheld hopen hroom =>
        have hbelow := hroom most hmost
        simp only [List.length_append, List.length_singleton]
        omega
    | reused hopen hfirst =>
        rw [hfirst, List.length_cons] at hbefore
        dsimp only
        omega
    | closed hopen => exact Nat.zero_le _
    | _ => exact hbefore

theorem run_withinReach {s : Custody ω α} (hs : s.Balanced) (hreach : s.pool.WithinReach)
    (dealings : List (Dealing α)) : (run manager dealings s).2.pool.WithinReach := by
  induction dealings using List.reverseRecOn with
  | nil => exact hreach
  | append_singleton dealings dealing ih =>
      have hbalanced := (run_keeps manager hs dealings).1
      rw [run_concat]
      exact (step_becomes manager hbalanced dealing).withinReach hbalanced ih

-- A pool never goes beyond its limits or what it started with, and it stays within its limits if
-- and only if they leave room for what it starts with.
theorem limits_hold (config : PoolConfig) (outside : ω) {pool : Pool (Numbered α)}
    {books : Books ω} (h : Pool.start manager.booked config (.empty outside) = (.ok pool, books)) :
    (∀ dealings, (run manager dealings (start pool books)).2.pool.WithinReach) ∧
      ((∀ dealings, (run manager dealings (start pool books)).2.pool.WithinLimits) ↔
        config.Fits) := by
  have hbalanced := start_balanced manager h
  obtain ⟨idle, outside', rfl, hnumbers, _⟩ := manager.booked_start_ok h
  have hlength : idle.length = config.minSize := by
    have hlengths := congrArg List.length hnumbers
    rwa [List.length_map, List.length_range'] at hlengths
  have hreach := run_withinReach manager hbalanced (Pool.ofIdle_withinReach hlength)
  refine ⟨hreach, fun hwithin => ?_, fun hfits dealings => ?_⟩
  · -- what the pool starts with is all idle
    obtain ⟨_, htotal, hidle⟩ := hwithin []
    change ∀ most, config.maxTotal = some most → idle.length ≤ most at htotal
    change ∀ most, config.maxIdle = some most → idle.length ≤ most at hidle
    rw [hlength] at htotal hidle
    exact ⟨htotal, hidle⟩
  · have hconfig := (run_keeps manager hbalanced dealings).2.2
    exact (hreach dealings).withinLimits (hconfig ▸ hfits)

theorem widgets_within_limits :
    let config : PoolConfig := ⟨"widgets", 1, some 1, some 2, none⟩
    let pool : Pool (Numbered Widget) := .ofIdle config [⟨0, ⟨0, true⟩⟩]
    let books : Books Workshop := ⟨⟨[], 1, 1, []⟩, 1, []⟩
    let dealings : List (Dealing Widget) := [.request, .request, .create, .release 1, .request]
    Pool.start Workshop.manager.booked config (.empty (.refusing [])) = (.ok pool, books) ∧
      (run Workshop.manager dealings (start pool books)).2.pool.WithinLimits := by
  intro config pool books dealings
  have hstart : Pool.start Workshop.manager.booked config (.empty (.refusing [])) =
    (.ok pool, books) := rfl
  have hfits : config.Fits := by
    constructor
    · intro most hmost
      cases hmost
      decide
    · intro most hmost
      cases hmost
      decide
  exact ⟨hstart, (limits_hold Workshop.manager config _ hstart).2.mpr hfits dealings⟩

end Custody

-- Three are too many for a pool of two, and are there all the same when it starts.
theorem Pool.start_beyond_limits :
    let config : PoolConfig := ⟨"pool", 3, none, some 2, none⟩
    let pool : Pool Widget := .ofIdle config [⟨0, true⟩, ⟨1, true⟩, ⟨2, true⟩]
    Pool.start Workshop.manager config (.refusing []) = (.ok pool, ⟨[], 3, 3, []⟩) ∧
      ¬ pool.WithinLimits := by
  intro config pool
  refine ⟨rfl, fun hwithin => ?_⟩
  exact absurd (hwithin.total_le 2 rfl) (by decide)

end DocWire
