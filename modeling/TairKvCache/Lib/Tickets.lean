import Mathlib

/-!
# Numbered tickets

Tickets `0, 1, …, n - 1` have been issued, and each of them is either in the
list of settled tickets or in one of several other places; `f k` says how
often ticket `k` is found elsewhere. `Tickets l f n` says that every issued
ticket is found exactly once, and no other.
-/

namespace TairKvCache.Lib

open List

/-- Every ticket below `n` is found once, among `l` and elsewhere together. -/
def Tickets (l : List Nat) (f : Nat → Nat) (n : Nat) : Prop :=
  ∀ k, l.count k + f k = if k < n then 1 else 0

namespace Tickets

variable {l : List Nat} {f g : Nat → Nat} {n : Nat}

theorem nil : Tickets [] (fun _ => 0) 0 := fun _ => rfl

theorem congr (h : Tickets l f n) (hfg : ∀ k, g k = f k) : Tickets l g n := by
  intro k
  rw [hfg]
  exact h k

theorem le_one (h : Tickets l f n) (k : Nat) : l.count k + f k ≤ 1 := by
  rw [h k]
  split_ifs <;> omega

theorem issue (h : Tickets l f n) (hg : ∀ k, g k = f k + if k = n then 1 else 0) :
    Tickets l g (n + 1) := by
  intro k
  have := h k
  rw [hg k]
  split_ifs at this ⊢ <;> omega

theorem settle {k : Nat} (h : Tickets l f n) (hg : ∀ j, f j = g j + if j = k then 1 else 0) :
    Tickets (l ++ [k]) g n := by
  intro j
  rw [← h j, hg j, count_append, count_singleton]
  by_cases hj : j = k
  · subst hj
    simp
    omega
  · simp [hj, Ne.symm hj]

theorem nodup (h : Tickets l f n) : l.Nodup := by
  rw [nodup_iff_count_le_one]
  intro k
  have := h.le_one k
  omega

theorem subset_range (h : Tickets l f n) : l ⊆ range n := by
  intro k hk
  have hpos := count_pos_iff.mpr hk
  have := h k
  rw [mem_range]
  by_contra hlt
  rw [if_neg hlt] at this
  omega

theorem length_le (h : Tickets l f n) : l.length ≤ n := by
  simpa using (h.nodup.subperm h.subset_range).length_le

/-- When as many tickets are settled as were issued, none is elsewhere. -/
theorem eq_zero_of_length (h : Tickets l f n) (hlen : l.length = n) (k : Nat) : f k = 0 := by
  have hperm := (h.nodup.subperm h.subset_range).perm_of_length_le (by simp [hlen])
  have hk := h k
  rw [hperm.count_eq, nodup_range.count] at hk
  simp only [mem_range] at hk
  split_ifs at hk <;> omega

/-- When no ticket is elsewhere, all are settled. -/
theorem length_of_eq_zero (h : Tickets l f n) (hf : ∀ k, f k = 0) : l.length = n := by
  refine Nat.le_antisymm h.length_le ?_
  have hsub : range n ⊆ l := by
    intro k hk
    have := h k
    rw [hf k, if_pos (mem_range.mp hk)] at this
    exact count_pos_iff.mp (by omega)
  simpa using (nodup_range.subperm hsub).length_le

end Tickets

end TairKvCache.Lib
