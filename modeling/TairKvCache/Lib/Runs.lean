import Mathlib

/-!
# Leading runs and last members

Two numbers a scan of a sequence computes: the length of the leading run of a
predicate, and one more than the last place below a bound where it holds. Both
are determined by what the predicate says at the places around them.
-/

namespace TairKvCache.Lib

open List

/-! ## The leading run -/

/-- The length of the leading run of `p` in `0, …, n - 1`. -/
def leading (p : Nat → Bool) (n : Nat) : Nat := ((range n).takeWhile p).length

theorem takeWhile_run {α : Type*} (q : α → Bool) (l : List α) :
    (∀ j < (l.takeWhile q).length, ∃ a, l[j]? = some a ∧ q a = true) ∧
      ∀ a, l[(l.takeWhile q).length]? = some a → q a = false := by
  induction l with
  | nil => simp
  | cons x l ih =>
    cases hx : q x with
    | false => simp [hx]
    | true =>
      simp only [takeWhile_cons, hx, if_true, length_cons]
      refine ⟨fun j hj => ?_, fun a ha => ?_⟩
      · cases j with
        | zero => exact ⟨x, rfl, hx⟩
        | succ j => exact ih.1 j (Nat.lt_of_succ_lt_succ hj)
      · exact ih.2 a (by simpa using ha)

theorem takeWhile_length_mono {α : Type*} {p q : α → Bool} (h : ∀ a, p a → q a) (l : List α) :
    (l.takeWhile p).length ≤ (l.takeWhile q).length := by
  induction l with
  | nil => exact le_rfl
  | cons a l ih =>
    rw [takeWhile_cons, takeWhile_cons]
    by_cases hp : p a
    · rw [if_pos hp, if_pos (h a hp)]
      exact Nat.succ_le_succ ih
    · rw [if_neg hp]
      exact Nat.zero_le _

theorem leading_le (p : Nat → Bool) (n : Nat) : leading p n ≤ n := by
  have := ( takeWhile_prefix p (l := range n)).length_le
  simpa [leading] using this

variable {p : Nat → Bool} {n m : Nat}

theorem of_lt_leading {j : Nat} (h : j < leading p n) : p j = true := by
  obtain ⟨a, ha, hp⟩ := (takeWhile_run p (range n)).1 j h
  have hj : j < n := h.trans_le (leading_le p n)
  obtain rfl : j = a := by simpa [hj] using ha
  exact hp

theorem at_leading (h : leading p n < n) : p (leading p n) = false :=
  (takeWhile_run p (range n)).2 _ (by simpa [leading] using getElem?_range h)

theorem leading_eq (hle : m ≤ n) (hrun : ∀ j < m, p j = true) (hend : m < n → p m = false) :
    leading p n = m := by
  rcases Nat.lt_trichotomy (leading p n) m with hlt | heq | hgt
  · have := at_leading (hlt.trans_le hle)
    rw [hrun _ hlt] at this
    cases this
  · exact heq
  · have hmn := hgt.trans_le (leading_le p n)
    have := of_lt_leading hgt
    rw [hend hmn] at this
    cases this

theorem leading_congr {q : Nat → Bool} (h : ∀ i < n, p i = q i) : leading p n = leading q n := by
  refine leading_eq (leading_le q n) (fun j hj => ?_) fun hlt => ?_
  · rw [h j (hj.trans_le (leading_le q n))]
    exact of_lt_leading hj
  · rw [h _ hlt]
    exact at_leading hlt

theorem length_takeWhile_eq {α : Type*} {q : α → Bool} {l : List α}
    (h : ∀ i a, l[i]? = some a → q a = p i) : (l.takeWhile q).length = leading p l.length := by
  have hle := ( takeWhile_prefix q (l := l)).length_le
  refine (leading_eq hle (fun j hj => ?_) fun hlt => ?_).symm
  · obtain ⟨a, ha, hq⟩ := (takeWhile_run q l).1 j hj
    rw [← h j a ha, hq]
  · have ha := getElem?_eq_getElem hlt
    rw [← h _ _ ha, (takeWhile_run q l).2 _ ha]

/-! ## The last member below a bound -/

/-- One more than the largest number below `n` that satisfies `p`, 0 if there
is none. -/
def lastBelow (p : Nat → Bool) : Nat → Nat
  | 0 => 0
  | n + 1 => if p n then n + 1 else lastBelow p n

theorem lastBelow_eq_of_gap (hmn : m ≤ n) (h : ∀ i, m ≤ i → i < n → p i = false) :
    lastBelow p n = lastBelow p m := by
  induction n, hmn using Nat.le_induction with
  | base => rfl
  | succ n hmn ih =>
    simp only [lastBelow, h n hmn (Nat.lt_succ_self n), Bool.false_eq_true, if_false]
    exact ih fun i hi hlt => h i hi (Nat.lt_succ_of_lt hlt)

theorem lastBelow_le (p : Nat → Bool) (n : Nat) : lastBelow p n ≤ n := by
  induction n with
  | zero => exact Nat.le_refl 0
  | succ n ih =>
    simp only [lastBelow]
    split
    · exact le_rfl
    · exact Nat.le_succ_of_le ih

theorem lt_lastBelow {i : Nat} (hi : i < n) (hp : p i = true) : i < lastBelow p n := by
  induction n with
  | zero => exact absurd hi (Nat.not_lt_zero i)
  | succ n ih =>
    simp only [lastBelow]
    split
    · exact hi
    · next hn =>
      have hne : i ≠ n := fun h => hn (h ▸ hp)
      exact ih (by omega)

theorem lastBelow_eq_iff (hmn : m ≤ n) :
    lastBelow p n = lastBelow p m ↔ ∀ i, m ≤ i → i < n → p i = false := by
  refine ⟨fun heq i hi hlt => ?_, lastBelow_eq_of_gap hmn⟩
  by_contra hp
  have hbelow := lt_lastBelow hlt (Bool.not_eq_false _ ▸ hp)
  have := lastBelow_le p m
  omega

theorem lastBelow_congr {q : Nat → Bool} (h : ∀ i < n, p i = q i) :
    lastBelow p n = lastBelow q n := by
  induction n with
  | zero => rfl
  | succ n ih =>
    simp only [lastBelow, h n (Nat.lt_succ_self n), ih fun i hi => h i (Nat.lt_succ_of_lt hi)]

end TairKvCache.Lib
