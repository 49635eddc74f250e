import Mathlib.Data.List.Range
import DocWire.Server.Cluster

namespace DocWire.Cluster

-- A server with this role is listed at this place.
def RoleAt (c : Cluster) (role : ServerRole) (place : Nat) : Prop :=
  ∃ s, c.servers[place]? = some s ∧ s.role = role

-- The first server that is listed as primary stands at this place.
def PrimaryAt (c : Cluster) (place : Nat) : Prop :=
  c.RoleAt .primary place ∧ ∀ earlier < place, ¬c.RoleAt .primary earlier

-- Whether a command may go to the server at this place.
def Admits (c : Cluster) (routing : Routing) (preference : ReadPreference) (place : Nat) : Prop :=
  match routing, preference with
  | .requiresPrimary, _ => c.PrimaryAt place
  | .readable, .primary => c.PrimaryAt place
  | .readable, .primaryPreferred =>
    c.PrimaryAt place ∨ (∀ other, ¬c.PrimaryAt other) ∧ c.RoleAt .secondary place
  | .readable, .secondary => c.RoleAt .secondary place
  | .readable, .secondaryPreferred =>
    c.RoleAt .secondary place ∨ (∀ other, ¬c.RoleAt .secondary other) ∧ c.PrimaryAt place
  | .readable, .nearest => c.RoleAt .primary place ∨ c.RoleAt .secondary place

-- The server at this place may be taken, and of those that may be taken it is the fastest, and the
-- first of several that are equally fast.
structure Prefers (c : Cluster) (routing : Routing) (preference : ReadPreference) (place : Nat)
    (server : ServerDescription) : Prop where
  listed : c.servers[place]? = some server
  admitted : c.Admits routing preference place
  least : ∀ other t, c.servers[other]? = some t → c.Admits routing preference other →
    server.roundTrip.nanoseconds < t.roundTrip.nanoseconds ∨
      server.roundTrip.nanoseconds = t.roundTrip.nanoseconds ∧ place ≤ other

-- These are the servers at the places in question, as they are listed.
def Lists (c : Cluster) (asked : Nat → Prop) (servers : List ServerDescription) : Prop :=
  ∃ places : List Nat, places.Pairwise (· < ·) ∧ (∀ place, place ∈ places ↔ asked place) ∧
    places.map (c.servers[·]?) = servers.map some

section

variable {c : Cluster} {asked other : Nat → Prop} {servers others : List ServerDescription}

theorem Lists.congr (h : c.Lists asked servers) (hother : ∀ place, asked place ↔ other place) :
    c.Lists other servers := by
  obtain ⟨places, hsorted, hasked, hservers⟩ := h
  exact ⟨places, hsorted, fun place => (hasked place).trans (hother place), hservers⟩

theorem map_getElem?_range {α : Type} (l : List α) :
    (List.range l.length).map (l[·]?) = l.map some := by
  apply List.ext_getElem
  · simp
  · intro i hi hi'
    simp

-- What a test leaves of the servers is found where they pass it.
theorem lists_filter (c : Cluster) (test : ServerDescription → Bool) :
    c.Lists (fun place => ∃ s, c.servers[place]? = some s ∧ test s = true)
      (c.servers.filter test) := by
  refine ⟨(List.range c.servers.length).filter fun place => (c.servers[place]?).any test,
    List.pairwise_lt_range.filter _, fun place => ?_, ?_⟩
  · rw [List.mem_filter, List.mem_range, Option.any_eq_true]
    constructor
    · exact fun h => h.2
    · rintro ⟨s, hs, htest⟩
      exact ⟨(List.getElem?_eq_some_iff.mp hs).1, s, hs, htest⟩
  · have hmapped := congrArg (List.filter (Option.any test)) (map_getElem?_range c.servers)
    rw [List.filter_map, List.filter_map] at hmapped
    exact hmapped

theorem Lists.take_one (h : c.Lists asked servers) :
    c.Lists (fun place => asked place ∧ ∀ earlier < place, ¬asked earlier) (servers.take 1) := by
  obtain ⟨places, hsorted, hasked, hservers⟩ := h
  refine ⟨places.take 1, hsorted.sublist (List.take_sublist 1 places), fun place => ?_, ?_⟩
  · simp only [← hasked]
    cases places with
    | nil => simp
    | cons first rest =>
        have hfirst := (List.pairwise_cons.mp hsorted).1
        simp only [List.take_succ_cons, List.take_zero, List.mem_cons, List.not_mem_nil, or_false]
        constructor
        · rintro rfl
          refine ⟨.inl rfl, fun earlier hearlier => ?_⟩
          rintro (rfl | hmem)
          · exact Nat.lt_irrefl _ hearlier
          · exact Nat.lt_asymm hearlier (hfirst _ hmem)
        · rintro ⟨rfl | hmem, hnone⟩
          · rfl
          · exact absurd (.inl rfl) (hnone first (hfirst _ hmem))
  · rw [List.map_take, hservers, List.map_take]

theorem Lists.isEmpty_iff (h : c.Lists asked servers) :
    servers.isEmpty = true ↔ ∀ place, ¬asked place := by
  obtain ⟨places, _, hasked, hservers⟩ := h
  rw [List.isEmpty_iff, ← List.map_eq_nil_iff (f := some), ← hservers, List.map_eq_nil_iff,
    List.eq_nil_iff_forall_not_mem]
  exact forall_congr' fun place => not_congr (hasked place)

-- The second are only asked for where there are none of the first.
theorem Lists.orElse (h : c.Lists asked servers) (hother : c.Lists other others) :
    c.Lists (fun place => asked place ∨ (∀ place', ¬asked place') ∧ other place)
      (if servers.isEmpty then others else servers) := by
  by_cases hempty : servers.isEmpty = true
  · have hnone := h.isEmpty_iff.mp hempty
    rw [if_pos hempty]
    exact hother.congr fun place => by simp [hnone]
  · have hsome := mt h.isEmpty_iff.mpr hempty
    rw [if_neg hempty]
    exact h.congr fun place => by simp [hsome]

end

theorem lists_role (c : Cluster) (role : ServerRole) :
    c.Lists (c.RoleAt role) (c.servers.filter fun s => s.role = role) :=
  (c.lists_filter _).congr fun place => by simp [RoleAt]

theorem lists_primary (c : Cluster) : c.Lists c.PrimaryAt c.primary :=
  (c.lists_role .primary).take_one

-- The servers that a command may go to, as the policy says.
theorem lists_eligible (c : Cluster) (routing : Routing) (preference : ReadPreference) :
    c.Lists (c.Admits routing preference) (c.eligible routing preference) := by
  cases routing with
  | requiresPrimary => exact c.lists_primary
  | readable =>
      cases preference with
      | primary => exact c.lists_primary
      | primaryPreferred => exact c.lists_primary.orElse (c.lists_role .secondary)
      | secondary => exact c.lists_role .secondary
      | secondaryPreferred => exact (c.lists_role .secondary).orElse c.lists_primary
      | nearest =>
          refine (c.lists_filter _).congr fun place => ?_
          simp only [Bool.or_eq_true, decide_eq_true_eq, and_or_left, exists_or]
          rfl

theorem fastest_eq_none {servers : List ServerDescription} :
    fastest servers = none ↔ servers = [] := by
  cases servers with
  | nil => simp [fastest]
  | cons s rest =>
      unfold fastest
      cases fastest rest with
      | none => simp
      | some t =>
          dsimp only
          split <;> simp

-- The fastest server of a list is as fast as any, and faster than all that stand before it.
theorem fastest_least {servers : List ServerDescription} {s : ServerDescription}
    (h : fastest servers = some s) :
    ∃ i, servers[i]? = some s ∧ ∀ (j : Nat) (t : ServerDescription), servers[j]? = some t →
      s.roundTrip.nanoseconds < t.roundTrip.nanoseconds ∨
        s.roundTrip.nanoseconds = t.roundTrip.nanoseconds ∧ i ≤ j := by
  induction servers generalizing s with
  | nil => cases h
  | cons first rest ih =>
      unfold fastest at h
      cases hrest : fastest rest with
      | none =>
          rw [hrest] at h
          obtain rfl := Option.some.inj h
          obtain rfl := fastest_eq_none.mp hrest
          refine ⟨0, rfl, fun j t ht => ?_⟩
          cases j with
          | zero =>
              cases ht
              exact .inr ⟨rfl, Nat.le_refl 0⟩
          | succ j => cases ht
      | some best =>
          obtain ⟨i, hbest, hleast⟩ := ih hrest
          rw [hrest] at h
          dsimp only at h
          split at h
          · next hfaster =>
            obtain rfl := Option.some.inj h
            refine ⟨i + 1, hbest, fun j t ht => ?_⟩
            cases j with
            | zero =>
                cases ht
                exact .inl hfaster
            | succ j =>
                rcases hleast j t ht with hless | ⟨heq, hle⟩
                · exact .inl hless
                · exact .inr ⟨heq, Nat.succ_le_succ hle⟩
          · next hslower =>
            obtain rfl := Option.some.inj h
            refine ⟨0, rfl, fun j t ht => ?_⟩
            cases j with
            | zero =>
                cases ht
                exact .inr ⟨rfl, Nat.le_refl 0⟩
            | succ j =>
                have hbound := hleast j t ht
                omega

section

variable {c : Cluster} {routing : Routing} {preference : ReadPreference}

-- No two servers are preferred.
theorem Prefers.unique {place place' : Nat} {s s' : ServerDescription}
    (h : c.Prefers routing preference place s) (h' : c.Prefers routing preference place' s') :
    s = s' := by
  have hplace : place = place' := by
    have hless := h.least place' s' h'.listed h'.admitted
    have hless' := h'.least place s h.listed h.admitted
    omega
  have hlisted := h.listed
  rw [hplace, h'.listed] at hlisted
  exact (Option.some.inj hlisted).symm

-- The fastest of the listed servers is the preferred one: a server that comes before another in
-- the list does so in the cluster.
theorem prefers_of_fastest {servers : List ServerDescription} {s : ServerDescription}
    (hlists : c.Lists (c.Admits routing preference) servers) (h : fastest servers = some s) :
    ∃ place, c.Prefers routing preference place s := by
  obtain ⟨places, hsorted, hadmits, hservers⟩ := hlists
  have hplaces : ∀ j : Nat, places[j]?.map (c.servers[·]?) = servers[j]?.map some := by
    intro j
    rw [← List.getElem?_map, hservers, List.getElem?_map]
  obtain ⟨i, hs, hleast⟩ := fastest_least h
  have hplace := hplaces i
  rw [hs] at hplace
  obtain ⟨place, hi, hlisted⟩ := Option.map_eq_some_iff.mp hplace
  refine ⟨place, hlisted, (hadmits place).mp (List.mem_of_getElem? hi), fun other t ht hother => ?_⟩
  obtain ⟨j, hj⟩ := List.mem_iff_getElem?.mp ((hadmits other).mpr hother)
  have hotherPlace := hplaces j
  rw [hj, Option.map_some, ht] at hotherPlace
  obtain ⟨t', ht', heq⟩ := Option.map_eq_some_iff.mp hotherPlace.symm
  obtain rfl := Option.some.inj heq
  refine (hleast j t' ht').imp_right fun ⟨hsame, hle⟩ => ⟨hsame, ?_⟩
  obtain ⟨hbound, rfl⟩ := List.getElem?_eq_some_iff.mp hi
  obtain ⟨hbound', rfl⟩ := List.getElem?_eq_some_iff.mp hj
  rcases Nat.lt_or_eq_of_le hle with hlt | rfl
  · exact Nat.le_of_lt (List.pairwise_iff_getElem.mp hsorted i j hbound hbound' hlt)
  · exact Nat.le_refl _

theorem select_eq_ok {server : ServerDescription} :
    c.select routing preference = .ok server ↔
      ∃ place, c.Prefers routing preference place server := by
  have hlists := c.lists_eligible routing preference
  unfold select
  cases hfastest : fastest (c.eligible routing preference) with
  | none =>
      have hnone := hlists.isEmpty_iff.mp (List.isEmpty_iff.mpr (fastest_eq_none.mp hfastest))
      constructor
      · intro h
        cases h
      · rintro ⟨place, hplace⟩
        exact absurd hplace.admitted (hnone place)
  | some best =>
      obtain ⟨place, hbest⟩ := prefers_of_fastest hlists hfastest
      constructor
      · intro h
        cases h
        exact ⟨place, hbest⟩
      · rintro ⟨place', hserver⟩
        rw [hbest.unique hserver]

theorem select_eq_error {e : SelectionError} :
    c.select routing preference = .error e ↔
      e = .noServer routing preference ∧ ∀ place, ¬c.Admits routing preference place := by
  rw [← (c.lists_eligible routing preference).isEmpty_iff, List.isEmpty_iff, ← fastest_eq_none]
  unfold select
  cases fastest (c.eligible routing preference) with
  | none => simp [eq_comm]
  | some best => simp

end

-- The servers that any command may go to.
def known (c : Cluster) : List ServerDescription :=
  c.servers.filter fun s => s.role ≠ .other

-- All choices are made among these.
theorem eligible_known (c : Cluster) (routing : Routing) (preference : ReadPreference) :
    c.eligible routing preference = eligible ⟨c.known⟩ routing preference := by
  have hrole : ∀ role, role ≠ .other → c.servers.filter (fun s => s.role = role) =
      c.known.filter fun s => s.role = role := by
    intro role hrole
    rw [known, List.filter_filter]
    congr 1
    funext s
    by_cases h : s.role = role <;> simp [h, hrole]
  have hprimaries : c.primaries = primaries ⟨c.known⟩ := hrole .primary (by decide)
  have hsecondaries : c.secondaries = secondaries ⟨c.known⟩ := hrole .secondary (by decide)
  have hprimary : c.primary = primary ⟨c.known⟩ := by rw [primary, primary, hprimaries]
  have hnearest : c.preferred .nearest = preferred ⟨c.known⟩ .nearest := by
    simp only [preferred, known, List.filter_filter]
    congr 1
    funext s
    cases s.role <;> rfl
  cases routing with
  | requiresPrimary => exact hprimary
  | readable =>
      cases preference with
      | primary => exact hprimary
      | primaryPreferred => simp only [eligible, preferred, hprimary, hsecondaries]
      | secondary => exact hsecondaries
      | secondaryPreferred => simp only [eligible, preferred, hprimary, hsecondaries]
      | nearest => exact hnearest

-- A server is selected as the policy says: among those that the command may go to the fastest, and
-- of equally fast ones the first; it fails only where there are none. Servers of no known role have
-- no part in it, wherever they stand, nor has the preference where the primary is required.
theorem selects_by_policy (c : Cluster) (routing : Routing) (preference : ReadPreference) :
    c.Lists (c.Admits routing preference) (c.eligible routing preference) ∧
      (∀ server, c.select routing preference = .ok server ↔
        ∃ place, c.Prefers routing preference place server) ∧
      (∀ e, c.select routing preference = .error e ↔
        e = .noServer routing preference ∧ ∀ place, ¬c.Admits routing preference place) ∧
      (∀ d : Cluster, d.known = c.known →
        d.select routing preference = c.select routing preference) ∧
      ∀ other, (c.select .requiresPrimary other).toOption =
        (c.select .requiresPrimary preference).toOption := by
  refine ⟨c.lists_eligible routing preference, fun server => select_eq_ok,
    fun e => select_eq_error, fun d hknown => ?_, fun other => ?_⟩
  · rw [select, select, eligible_known d, eligible_known c, hknown]
  · simp only [select, eligible]
    cases fastest c.primary with
    | none => rfl
    | some server => rfl

end DocWire.Cluster
