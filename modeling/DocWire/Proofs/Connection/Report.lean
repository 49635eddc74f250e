import DocWire.Proofs.Connection.Stock
import Mathlib.Data.Prod.Lex
import Mathlib.Data.String.Basic

namespace DocWire

variable {κ : Type}

namespace ServerAddress

-- The order of addresses: by host, and for one host by port.
def Before (a b : ServerAddress) : Prop :=
  a.host < b.host ∨ (a.host = b.host ∧ a.port < b.port)

def rank (a : ServerAddress) : String ×ₗ Nat :=
  toLex (a.host, a.port.toNat)

theorem precedes_iff (a b : ServerAddress) : a.precedes b = true ↔ a.rank ≤ b.rank := by
  simp [precedes, rank, Prod.Lex.toLex_le_toLex, UInt16.le_iff_toNat_le]

theorem rank_lt_iff (a b : ServerAddress) : a.rank < b.rank ↔ a.Before b := by
  simp [Before, rank, Prod.Lex.toLex_lt_toLex, UInt16.lt_iff_toNat_lt]

theorem rank_injective {a b : ServerAddress} (h : a.rank = b.rank) : a = b := by
  obtain ⟨hhost, hport⟩ := Prod.mk.inj (toLex.injective h)
  cases a
  cases b
  rw [mk.injEq]
  exact ⟨hhost, UInt16.toNat_inj.mp hport⟩

theorem before_of_precedes {a b : ServerAddress} (h : a.precedes b = true) (hne : a ≠ b) :
    a.Before b := by
  rw [← rank_lt_iff]
  exact lt_of_le_of_ne ((precedes_iff a b).mp h) fun heq => hne (rank_injective heq)

end ServerAddress

namespace PoolDirectory

variable (d : PoolDirectory κ)

theorem stats_perm :
    d.stats.Perm ((d.pools.filter fun entry => !entry.pool.closed).map AddressPool.stats) :=
  List.mergeSort_perm _ _

-- The usage of a pool is told for the addresses whose pool is open.
theorem stats_addresses : (d.stats.map PoolStats.address).Perm d.current := by
  have hcurrent : d.current =
      ((d.pools.filter fun entry => !entry.pool.closed).map AddressPool.stats).map
        PoolStats.address := by
    rw [current, signs, List.filter_map, List.map_map, List.map_map]
    rfl
  rw [hcurrent]
  exact d.stats_perm.map PoolStats.address

theorem stats_sorted : d.stats.Pairwise fun a b => a.address.precedes b.address = true := by
  apply List.pairwise_mergeSort
  · intro a b c hab hbc
    rw [ServerAddress.precedes_iff] at hab hbc ⊢
    exact hab.trans hbc
  · intro a b
    rw [Bool.or_eq_true, ServerAddress.precedes_iff, ServerAddress.precedes_iff]
    exact le_total _ _

theorem stats_ascending (h : d.current.Nodup) :
    (d.stats.map PoolStats.address).Pairwise ServerAddress.Before := by
  have hsorted : (d.stats.map PoolStats.address).Pairwise fun a b => a.precedes b = true :=
    List.pairwise_map.mpr d.stats_sorted
  have hdistinct := d.stats_addresses.nodup_iff.mpr h
  exact (hsorted.and hdistinct).imp fun ⟨hprecedes, hne⟩ =>
    ServerAddress.before_of_precedes hprecedes hne

-- Each report is on the pool that is found for its address.
theorem stats_found (h : d.current.Nodup) {report : PoolStats} (hreport : report ∈ d.stats) :
    ∃ place entry, d.pools[place]? = some entry ∧ d.find? report.address = some place ∧
      report = entry.stats := by
  obtain ⟨entry, hentry, rfl⟩ := List.mem_map.mp (d.stats_perm.mem_iff.mp hreport)
  obtain ⟨hmem, hopen⟩ := List.mem_filter.mp hentry
  obtain ⟨place, hplace⟩ := List.mem_iff_getElem?.mp hmem
  exact ⟨place, entry, hplace, find?_eq_some h hplace (by simpa using hopen), rfl⟩

-- How much of a pool is on loan is what is held of it, and that with what is idle is the total.
theorem Accounts.stats {d : PoolDirectory κ} {held : Nat → Nat} (hd : d.Accounts held)
    (h : d.current.Nodup) {report : PoolStats} (hreport : report ∈ d.stats) :
    ∃ place, d.find? report.address = some place ∧ report.active = held place ∧
      report.total = report.idle + report.active := by
  obtain ⟨place, entry, hplace, hfind, rfl⟩ := d.stats_found h hreport
  have hlends := hd.lends place entry hplace
  have hactive : entry.stats.active = held place := hlends.active_eq
  refine ⟨place, hfind, hactive, ?_⟩
  rw [hactive]
  exact hlends

end PoolDirectory

end DocWire
