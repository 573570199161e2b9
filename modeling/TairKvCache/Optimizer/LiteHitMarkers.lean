import TairKvCache.Optimizer.LruReference

/-!
# The markers of LiteHit

The table of last positions and the marks in the tree describe each other
(`Marked`). So the prefix sums of the tree count entries, and what a key needs
to be a hit is its depth among the entries above the watermark. Removing and
appending markers, by which a request is committed, keeps this.
-/

namespace TairKvCache.Optimizer

open Lib List

variable {K : Type}

/-! ## Markers -/

theorem sum_count_Ioc (ps : List Nat) (n : Nat) :
    ∑ j ∈ Finset.Ioc 0 n, (ps.count j : Int) = ps.countP fun p => 0 < p ∧ p ≤ n := by
  induction ps with
  | nil => simp
  | cons p ps ih =>
    simp only [count_cons, Nat.cast_add, Finset.sum_add_distrib, ih, countP_cons,
      beq_iff_eq, Nat.cast_ite, Nat.cast_one, Nat.cast_zero, Finset.sum_ite_eq, Finset.mem_Ioc]
    simp

namespace LiteHit

/-- The entries are distinct, listed from the highest position down, and marked
in the tree. -/
structure Marked (lh : LiteHit K) : Prop where
  nodup : (lh.lastPositions.map (·.1)).Nodup
  desc : lh.lastPositions.Pairwise (·.2 > ·.2)
  bounds : ∀ e ∈ lh.lastPositions, 0 < e.2 ∧ e.2 ≤ lh.fenwick.size
  marks : lh.fenwick.Represents fun j => ((lh.lastPositions.map (·.2)).count j : Int)

variable {lh : LiteHit K}

theorem Marked.prefixSum (h : lh.Marked) (i : Nat) :
    lh.fenwick.prefixSum i = lh.lastPositions.countP (·.2 ≤ i) := by
  rw [Fenwick.prefixSum_eq h.marks, sum_count_Ioc, countP_map]
  congr 1
  refine countP_congr fun e he => ?_
  have := h.bounds e he
  simp only [Function.comp_apply, decide_eq_true_eq]
  omega

theorem Marked.total (h : lh.Marked) :
    lh.fenwick.prefixSum lh.fenwick.size = lh.lastPositions.length := by
  rw [h.prefixSum, countP_eq_length.mpr fun e he => by simpa using (h.bounds e he).2]

/-- The marks below a boundary are the entries that are not at or above it. -/
theorem Marked.below (h : lh.Marked) (d : Nat) : lh.fenwick.prefixSum (d - 1) =
      (lh.lastPositions.length : Int) - (lh.lastPositions.filter (d ≤ ·.2)).length := by
  have hcount := length_eq_countP_add_countP (fun e : K × Nat => d ≤ e.2)
    (l := lh.lastPositions)
  rw [h.prefixSum, ← countP_eq_length_filter, hcount,
    show (lh.lastPositions.countP fun e => e.2 ≤ d - 1) =
        lh.lastPositions.countP fun e => ¬decide (d ≤ e.2) = true from
      countP_congr fun e he => by
        have := (h.bounds e he).1
        simp only [decide_eq_true_eq]
        omega]
  omega

theorem Marked.aliveMarkerCount (h : lh.Marked) : lh.aliveMarkerCount = lh.alive.length := by
  have hbelow := h.below lh.deadBelowPosition
  rw [LiteHit.aliveMarkerCount, h.total, alive]
  by_cases hd : lh.deadBelowPosition ≤ 1
  · rw [if_pos hd, filter_eq_self.mpr fun e he => by
      have := (h.bounds e he).1
      simp only [decide_eq_true_eq]
      omega]
  · rw [if_neg hd]
    omega

section

variable [DecidableEq K]

theorem lookup_eq_none {l : List (K × Nat)} {key : K} (h : l.lookup key = none) :
    key ∉ l.map (·.1) := by
  intro hmem
  obtain ⟨e, he, rfl⟩ := mem_map.mp hmem
  exact absurd (lookup_eq_none_iff.mp h e he) (by simp)

theorem lookup_split {l : List (K × Nat)} {key : K} {p : Nat} (h : l.lookup key = some p) :
    ∃ l₁ l₂, l = l₁ ++ (key, p) :: l₂ := append_of_mem (by
  induction l with
  | nil => cases h
  | cons e l ih =>
    rw [lookup_cons] at h
    by_cases he : key == e.1
    · rw [he] at h
      cases h
      rw [show (key, e.2) = e from Prod.ext (beq_iff_eq.mp he) rfl]
      exact mem_cons_self
    · rw [Bool.eq_false_of_not_eq_true he] at h
      exact mem_cons_of_mem _ (ih h))

/-- What a key needs is its depth among the entries above the watermark. -/
theorem Marked.required (h : lh.Marked) (key : K) :
    lh.required key = depthOf (lh.alive.map (·.1)) key := by
  rw [LiteHit.required]
  cases hlook : lh.lastPositions.lookup key with
  | none =>
    refine (depthOf_eq_none fun hmem => lookup_eq_none hlook ?_).symm
    exact (filter_sublist.map _).subset hmem
  | some p =>
    obtain ⟨l₁, l₂, hl⟩ := lookup_split hlook
    have hnodup := h.nodup
    have hdesc := h.desc
    rw [hl, map_append, map_cons] at hnodup
    rw [hl, pairwise_append] at hdesc
    obtain ⟨hkey₁, hkey₂⟩ : key ∉ l₁.map (·.1) ∧ key ∉ l₂.map (·.1) := by
      have := nodup_middle.mp hnodup
      rw [nodup_cons, mem_append, not_or] at this
      exact this.1
    have habove : ∀ e ∈ l₁, p < e.2 := fun e he => hdesc.2.2 e he _ mem_cons_self
    have hbelow : ∀ e ∈ l₂, e.2 < p := fun e he => (pairwise_cons.mp hdesc.2.1).1 e he
    simp only
    by_cases hp : lh.deadBelowPosition ≤ p
    · have halive : lh.alive.map (·.1) =
          l₁.map (·.1) ++ key :: (l₂.filter (lh.deadBelowPosition ≤ ·.2)).map (·.1) := by
        rw [alive, hl, filter_append, filter_cons_of_pos (by simpa using hp),
          filter_eq_self.mpr fun e he => by simpa using hp.trans (habove e he).le,
          map_append, map_cons]
      have hreuse : lh.reuseDistance p = l₁.length := by
        rw [reuseDistance, h.total, h.prefixSum, hl, countP_append, countP_cons,
          countP_eq_zero.mpr fun e he => by simpa using habove e he,
          countP_eq_length.mpr fun e he => by simpa using (hbelow e he).le]
        simp
      rw [if_pos hp, hreuse, halive, depthOf_split hkey₁, length_map]
      rfl
    · rw [if_neg hp, depthOf_eq_none]
      rw [alive, hl, filter_append, filter_cons_of_neg (by simpa using hp),
        map_append, mem_append, not_or]
      exact ⟨fun hm => hkey₁ ((filter_sublist.map _).subset hm),
        fun hm => hkey₂ ((filter_sublist.map _).subset hm)⟩

/-! ## Moving markers -/

theorem removeMarker_spec (h : lh.Marked) (key : K) : ∃ f : Fenwick, f.size = lh.fenwick.size ∧
      lh.removeMarker key =
        { lh with fenwick := f, lastPositions := lh.lastPositions.filter (·.1 ≠ key) } ∧
      (lh.removeMarker key).Marked := by
  rw [removeMarker]
  cases hlook : lh.lastPositions.lookup key with
  | none =>
    have hfilter : lh.lastPositions.filter (·.1 ≠ key) = lh.lastPositions := by
      refine filter_eq_self.mpr fun e he => ?_
      have : e.1 ≠ key := fun hk => lookup_eq_none hlook (hk ▸ mem_map_of_mem he)
      simpa using this
    exact ⟨lh.fenwick, rfl, by rw [hfilter], h⟩
  | some p =>
    refine ⟨lh.fenwick.add p (-1), rfl, rfl, ?_, h.desc.filter _, fun e he => ?_, ?_⟩
    · exact h.nodup.sublist (filter_sublist.map _)
    · exact h.bounds e (mem_of_mem_filter he)
    · obtain ⟨l₁, l₂, hl⟩ := lookup_split hlook
      have hp := h.bounds (key, p) (hl ▸ mem_append_right _ mem_cons_self)
      have hnodup := h.nodup
      rw [hl, map_append, map_cons] at hnodup
      have hnot := nodup_middle.mp hnodup
      rw [nodup_cons, mem_append, not_or] at hnot
      have hkeep : ∀ l : List (K × Nat), key ∉ l.map (·.1) → l.filter (·.1 ≠ key) = l := by
        intro l hk
        refine filter_eq_self.mpr fun e he => ?_
        have : e.1 ≠ key := fun hek => hk (hek ▸ mem_map_of_mem he)
        simpa using this
      have hfun : (fun j => (((lh.lastPositions.filter (·.1 ≠ key)).map (·.2)).count j : Int)) =
          fun j => ((lh.lastPositions.map (·.2)).count j : Int) + if j = p then -1 else 0 := by
        funext j
        rw [hl, filter_append, filter_cons_of_neg (by simp), hkeep _ hnot.1.1, hkeep _ hnot.1.2,
          map_append, map_append, map_cons, count_append, count_append, count_cons]
        by_cases hj : j = p
        · simp [hj]
          omega
        · simp [hj, Ne.symm hj]
      show (lh.fenwick.add p (-1)).Represents _
      rw [hfun]
      exact h.marks.add hp.1 (-1)

theorem foldl_removeMarker (h : lh.Marked) (keys : List K) :
    ∃ f : Fenwick, f.size = lh.fenwick.size ∧
      keys.foldl removeMarker lh =
        { lh with fenwick := f, lastPositions := lh.lastPositions.filter (·.1 ∉ keys) } ∧
      (keys.foldl removeMarker lh).Marked := by
  induction keys generalizing lh with
  | nil => exact ⟨lh.fenwick, rfl, by simp, h⟩
  | cons key keys ih =>
    obtain ⟨f, hsize, heq, hmarked⟩ := removeMarker_spec h key
    obtain ⟨g, hsize', heq', hmarked'⟩ := ih hmarked
    refine ⟨g, ?_, ?_, hmarked'⟩
    · rw [hsize', heq, hsize]
    · rw [foldl_cons, heq', heq]
      simp only [filter_filter]
      congr 2
      funext e
      simp [Bool.and_comm]

end

/-- Keys with the positions after `start`, the highest first. -/
def numbered (start : Nat) : List K → List (K × Nat)
  | [] => []
  | key :: keys => (key, start + keys.length + 1) :: numbered start keys

theorem map_numbered (start : Nat) (keys : List K) : (numbered start keys).map (·.1) = keys := by
  induction keys with
  | nil => rfl
  | cons key keys ih => rw [numbered, map_cons, ih]

theorem mem_numbered {start : Nat} {keys : List K} {e : K × Nat} (he : e ∈ numbered start keys) :
    start < e.2 ∧ e.2 ≤ start + keys.length := by
  induction keys with
  | nil => cases he
  | cons key keys ih =>
    rw [length_cons]
    rcases mem_cons.mp he with rfl | he
    · dsimp only
      omega
    · have := ih he
      omega

theorem appendMarkers_spec (h : lh.Marked) {keys : List K} (hnodup : keys.Nodup)
    (hnew : ∀ k ∈ keys, k ∉ lh.lastPositions.map (·.1)) :
    ∃ f : Fenwick, f.size = lh.fenwick.size + keys.length ∧
      lh.appendMarkers keys =
        { lh with
          fenwick := f, lastPositions := numbered lh.fenwick.size keys ++ lh.lastPositions } ∧
      (lh.appendMarkers keys).Marked := by
  induction keys with
  | nil => exact ⟨lh.fenwick, rfl, rfl, h⟩
  | cons key keys ih =>
    rw [nodup_cons] at hnodup
    obtain ⟨f, hsize, heq, hmarked⟩ := ih hnodup.2 fun k hk => hnew k (mem_cons_of_mem _ hk)
    show ∃ g : Fenwick, _ ∧ (lh.appendMarkers keys).appendMarker key = _ ∧
      ((lh.appendMarkers keys).appendMarker key).Marked
    rw [heq] at hmarked ⊢
    have hgrown : f.appendZero.size = f.size + 1 := rfl
    refine ⟨f.appendZero.add f.appendZero.size 1, ?_, ?_, ?_, ?_, ?_, ?_⟩
    · show f.size + 1 = _
      rw [hsize, length_cons]
      omega
    · show LiteHit.mk .. = _
      rw [numbered, cons_append, ← hsize]
      rfl
    · show (key :: (numbered _ keys ++ lh.lastPositions).map (·.1)).Nodup
      rw [nodup_cons]
      refine ⟨?_, hmarked.nodup⟩
      rw [map_append, map_numbered, mem_append, not_or]
      exact ⟨hnodup.1, hnew key mem_cons_self⟩
    · refine pairwise_cons.mpr ⟨fun e he => ?_, hmarked.desc⟩
      exact Nat.lt_succ_of_le (hmarked.bounds e he).2
    · intro e he
      rcases mem_cons.mp he with rfl | he
      · exact ⟨Nat.succ_pos _, le_rfl⟩
      · have := hmarked.bounds e he
        exact ⟨this.1, this.2.trans (Nat.le_succ f.size)⟩
    · have hzero : ((((numbered lh.fenwick.size keys ++ lh.lastPositions).map (·.2)).count
          (f.size + 1) : Nat) : Int) = 0 := by
        rw [Nat.cast_eq_zero, count_eq_zero]
        intro hmem
        obtain ⟨e, he, heq⟩ := mem_map.mp hmem
        have := (hmarked.bounds e he).2
        dsimp only at this
        omega
      have hadd := (hmarked.marks.appendZero hzero).add (i := f.size + 1) (Nat.succ_pos _) 1
      show (f.appendZero.add (f.size + 1) 1).Represents fun j =>
        (((f.size + 1) :: (numbered _ keys ++ lh.lastPositions).map (·.2)).count j : Int)
      convert hadd using 2 with j
      rw [count_cons, Nat.cast_add]
      by_cases hj : j = f.size + 1
      · simp [hj]
      · simp [hj, Ne.symm hj]

end LiteHit

end TairKvCache.Optimizer
