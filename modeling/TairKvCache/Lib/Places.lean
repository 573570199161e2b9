import Mathlib

/-!
# Sums over places

A list of places, each with a value in a commutative monoid (the tokens it
holds, its weight), and what the sum of the values becomes when one place is
changed or removed. Stated without subtraction, so that it holds of multisets
of tokens and of natural numbers alike.
-/

namespace TairKvCache.Lib

open List

variable {α M : Type*} [AddCommMonoid M]

theorem sum_map_set (f : α → M) {l : List α} {i : Nat} {a : α} (b : α) (h : l[i]? = some a) :
    f a + ((l.set i b).map f).sum = f b + (l.map f).sum := by
  induction l generalizing i with
  | nil => cases h
  | cons x l ih =>
    cases i with
    | zero =>
      obtain rfl : x = a := by simpa using h
      simp only [set_cons_zero, map_cons, sum_cons]
      abel
    | succ i =>
      have ih := ih (by simpa using h)
      simp only [set_cons_succ, map_cons, sum_cons]
      calc f a + (f x + ((l.set i b).map f).sum)
          = f x + (f a + ((l.set i b).map f).sum) := by abel
        _ = f x + (f b + (l.map f).sum) := by rw [ih]
        _ = f b + (f x + (l.map f).sum) := by abel

theorem sum_map_eraseIdx (f : α → M) {l : List α} {i : Nat} {a : α} (h : l[i]? = some a) :
    f a + ((l.eraseIdx i).map f).sum = (l.map f).sum := by
  induction l generalizing i with
  | nil => cases h
  | cons x l ih =>
    cases i with
    | zero =>
      obtain rfl : x = a := by simpa using h
      rfl
    | succ i =>
      have ih := ih (by simpa using h)
      simp only [eraseIdx_cons_succ, map_cons, sum_cons, ← ih]
      abel

/-- A place `w` gives up `a` for `b`, and the pool `q` with the supply `r`
balances the exchange: what made up the supply makes up the new one. -/
theorem exchange_balance {M : Type*} [AddCancelCommMonoid M] {a b w w' q q' r r' x : M}
    (hplace : a + w' = b + w) (hpool : b + q' + r = a + q + r') (htotal : q + w + x = r) :
    q' + w' + x = r' := by
  have h : (q' + w' + x) + (a + b + w + q) = r' + (a + b + w + q) := by
    calc (q' + w' + x) + (a + b + w + q)
        = (a + w') + (b + q' + (q + w + x)) := by abel
      _ = (b + w) + (b + q' + r) := by rw [hplace, htotal]
      _ = (b + w) + (a + q + r') := by rw [hpool]
      _ = r' + (a + b + w + q) := by abel
  exact add_right_cancel h

end TairKvCache.Lib
