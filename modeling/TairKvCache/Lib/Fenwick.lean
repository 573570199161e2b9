import Mathlib

/-!
# Growing Fenwick trees

A binary indexed tree over positions `1, …, size`: node `m` holds the sum of
the values at the `lowBit m` positions that end with `m`. `Represents` says so
for a function of values, and the three operations keep it.
-/

namespace TairKvCache.Lib

open Function

/-- The lowest set bit, `n & (~n + 1)`. -/
def lowBit (n : Nat) : Nat := n - (n &&& (n - 1))

theorem lowBit_odd (n : Nat) : lowBit (2 * n + 1) = 1 := by
  have h : (2 * n + 1) &&& (2 * n) = 2 * n := by
    apply Nat.eq_of_testBit_eq
    intro j
    cases j with
    | zero => simp
    | succ j =>
      rw [Nat.testBit_succ, Nat.testBit_succ, Nat.and_div_two,
        show (2 * n + 1) / 2 = n by omega, show 2 * n / 2 = n by omega, Nat.and_self]
  rw [lowBit, Nat.add_sub_cancel, h]
  omega

theorem lowBit_double {n : Nat} (hn : 0 < n) : lowBit (2 * n) = 2 * lowBit n := by
  have h : (2 * n) &&& (2 * n - 1) = 2 * (n &&& (n - 1)) := by
    apply Nat.eq_of_testBit_eq
    intro j
    cases j with
    | zero => simp
    | succ j =>
      rw [Nat.testBit_succ, Nat.testBit_succ, Nat.and_div_two,
        Nat.mul_div_cancel_left _ (by decide), Nat.mul_div_cancel_left _ (by decide),
        show (2 * n - 1) / 2 = n - 1 by omega]
  rw [lowBit, lowBit, h, Nat.mul_sub]

theorem lowBit_pos {n : Nat} (hn : 0 < n) : 0 < lowBit n := by
  have : n &&& (n - 1) ≤ n - 1 := Nat.and_le_right
  rw [lowBit]
  omega

/-- Position `i` is under node `m` exactly if the node after `i` is. Both
sides are read off the last bits: an odd node has only its own position, and
at an even node the last bit of both can be dropped. -/
theorem lowBit_chain (m i : Nat) (hi : 0 < i) (him : i < m) :
    m - lowBit m < i ↔ m - lowBit m < i + lowBit i ∧ i + lowBit i ≤ m := by
  induction m using Nat.strong_induction_on generalizing i with
  | _ m ih =>
    obtain ⟨m', rfl | rfl⟩ := m.even_or_odd'
    · obtain ⟨i', rfl | rfl⟩ := i.even_or_odd'
      · have := ih m' (by omega) i' (by omega) (by omega)
        rw [lowBit_double (by omega), lowBit_double (by omega)]
        omega
      · rw [lowBit_double (by omega), lowBit_odd]
        omega
    · obtain ⟨i', rfl | rfl⟩ := i.even_or_odd'
      · rw [lowBit_odd, lowBit_double (by omega)]
        omega
      · rw [lowBit_odd, lowBit_odd]
        omega

structure Fenwick where
  size : Nat
  tree : Nat → Int

namespace Fenwick

def empty : Fenwick := ⟨0, fun _ => 0⟩

def sumFrom (tree : Nat → Int) : Nat → Nat → Int
  | 0, _ => 0
  | fuel + 1, i => if i = 0 then 0 else tree i + sumFrom tree fuel (i - lowBit i)

def prefixSum (f : Fenwick) (i : Nat) : Int := sumFrom f.tree (min i f.size) (min i f.size)

def addFrom (size : Nat) (delta : Int) : Nat → Nat → (Nat → Int) → Nat → Int
  | 0, _, tree => tree
  | fuel + 1, i, tree =>
    if 0 < i ∧ i ≤ size then
      addFrom size delta fuel (i + lowBit i) (update tree i (tree i + delta))
    else tree

def add (f : Fenwick) (i : Nat) (delta : Int) : Fenwick :=
  ⟨f.size, addFrom f.size delta (f.size + 1 - i) i f.tree⟩

def appendZero (f : Fenwick) : Fenwick :=
  let new := f.size + 1
  ⟨new, update f.tree new (f.prefixSum (new - 1) - f.prefixSum (new - lowBit new))⟩

def Represents (f : Fenwick) (a : Nat → Int) : Prop :=
  ∀ m, 0 < m → m ≤ f.size → f.tree m = ∑ j ∈ Finset.Ioc (m - lowBit m) m, a j

variable {f : Fenwick} {a : Nat → Int}

theorem represents_empty (a : Nat → Int) : empty.Represents a :=
  fun m hm hle => absurd hle (by show ¬m ≤ 0; omega)

theorem prefixSum_eq (h : f.Represents a) (i : Nat) :
    f.prefixSum i = ∑ j ∈ Finset.Ioc 0 (min i f.size), a j := by
  have hsum : ∀ fuel k, k ≤ fuel → k ≤ f.size →
      sumFrom f.tree fuel k = ∑ j ∈ Finset.Ioc 0 k, a j := by
    intro fuel
    induction fuel with
    | zero =>
      intro k hk _
      obtain rfl : k = 0 := by omega
      rfl
    | succ fuel ih =>
      intro k hk hsize
      rw [sumFrom]
      rcases eq_or_ne k 0 with rfl | h0
      · rfl
      · have hpos := lowBit_pos (Nat.pos_of_ne_zero h0)
        rw [if_neg h0, h k (Nat.pos_of_ne_zero h0) hsize, ih _ (by omega) (by omega), add_comm]
        exact Finset.sum_Ioc_consecutive a (Nat.zero_le _) (Nat.sub_le _ _)
  exact hsum _ _ le_rfl (min_le_right _ _)

theorem addFrom_eq (size : Nat) (delta : Int) (fuel i m : Nat) (tree : Nat → Int) (hi : 0 < i)
    (hfuel : size < fuel + i) : addFrom size delta fuel i tree m =
      tree m + if m ≤ size ∧ m - lowBit m < i ∧ i ≤ m then delta else 0 := by
  induction fuel generalizing i tree with
  | zero =>
    rw [addFrom, if_neg (by omega), add_zero]
  | succ fuel ih =>
    have hpos := lowBit_pos hi
    rw [addFrom]
    by_cases hle : i ≤ size
    · rw [if_pos ⟨hi, hle⟩, ih _ _ (by omega) (by omega)]
      rcases lt_trichotomy m i with hlt | rfl | hgt
      · rw [update_of_ne hlt.ne, if_neg (by omega), if_neg (by omega)]
      · rw [update_self, if_neg (by omega), if_pos (by omega), add_zero]
      · have hchain := lowBit_chain m i hi hgt
        rw [update_of_ne hgt.ne']
        congr 2
        rw [hchain]
        simp only [hgt.le, and_true]
    · rw [if_neg (by omega), if_neg (by omega), add_zero]

theorem Represents.add (h : f.Represents a) {i : Nat} (hi : 0 < i) (delta : Int) :
    (f.add i delta).Represents fun j => a j + if j = i then delta else 0 := by
  intro m hm hle
  show addFrom f.size delta _ i f.tree m = _
  rw [addFrom_eq f.size delta _ i m f.tree hi (by omega), h m hm hle, Finset.sum_add_distrib,
    Finset.sum_ite_eq']
  congr 2
  rw [Finset.mem_Ioc, eq_iff_iff]
  exact and_iff_right hle

theorem Represents.appendZero (h : f.Represents a) (hzero : a (f.size + 1) = 0) :
    f.appendZero.Represents a := by
  intro m hm (hle : m ≤ f.size + 1)
  show update f.tree (f.size + 1) _ m = _
  by_cases hnew : m = f.size + 1
  · have hpos := lowBit_pos hm
    have hstart : m - lowBit m ≤ f.size := by omega
    subst hnew
    rw [update_self, prefixSum_eq h, prefixSum_eq h, Nat.add_sub_cancel, min_self,
      min_eq_left hstart, sub_eq_iff_eq_add, Finset.sum_Ioc_succ_top hstart, hzero, add_zero,
      add_comm, Finset.sum_Ioc_consecutive a (Nat.zero_le _) hstart]
  · rw [update_of_ne hnew]
    exact h m hm (by omega)

end Fenwick

end TairKvCache.Lib
