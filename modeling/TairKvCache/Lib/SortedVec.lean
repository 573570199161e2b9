import Mathlib

/-!
# Sorted vectors without repetition

`std::sort` followed by `std::unique`, and the position of an element by
`std::lower_bound`. A strictly sorted list is determined by its members, so the
vector lists what an ordered map with the same keys lists.
-/

namespace TairKvCache.Lib

open List

variable {α : Type*} [LinearOrder α]

def sortUnique (l : List α) : List α := l.dedup.insertionSort (· ≤ ·)

@[simp] theorem mem_sortUnique {l : List α} {x : α} : x ∈ sortUnique l ↔ x ∈ l := by
  rw [sortUnique, (perm_insertionSort (· ≤ ·) l.dedup).mem_iff, mem_dedup]

theorem sorted_sortUnique (l : List α) : (sortUnique l).Pairwise (· < ·) := by
  have hle := pairwise_insertionSort (· ≤ ·) l.dedup
  have hnd : (sortUnique l).Nodup :=
    (perm_insertionSort (· ≤ ·) l.dedup).nodup_iff.mpr l.nodup_dedup
  exact hle.imp₂ (fun _ _ hab hne => lt_of_le_of_ne hab hne) hnd

theorem eq_of_sorted_of_mem_iff {l m : List α} (hl : l.Pairwise (· < ·))
    (hm : m.Pairwise (· < ·)) (h : ∀ x, x ∈ l ↔ x ∈ m) : l = m := by
  have hperm : l.Perm m :=
    (perm_ext_iff_of_nodup (hl.imp fun hlt => ne_of_lt hlt)
      (hm.imp fun hlt => ne_of_lt hlt)).mpr h
  exact hperm.eq_of_pairwise (fun _ _ _ _ hab hba => absurd hba (lt_asymm hab)) hl hm

/-- `std::lower_bound`, and the test that it found the element. -/
def findSorted (l : List α) (x : α) : Option Nat :=
  let i := (l.takeWhile (· < x)).length
  if l[i]? = some x then some i else none

theorem getElem?_of_findSorted {l : List α} {x : α} {i : Nat} (h : findSorted l x = some i) :
    l[i]? = some x := by
  simp only [findSorted] at h
  split at h
  · next hx => exact Option.some.inj h ▸ hx
  · cases h

theorem findSorted_eq_some_iff {l : List α} (hl : l.Pairwise (· < ·)) {x : α} {i : Nat} :
    findSorted l x = some i ↔ l[i]? = some x := by
  have hpos : ∀ i, l[i]? = some x → (l.takeWhile (· < x)).length = i := by
    induction l with
    | nil => simp
    | cons y l ih =>
      obtain ⟨hy, hl'⟩ := pairwise_cons.mp hl
      intro i hi
      cases i with
      | zero =>
        obtain rfl : y = x := by simpa using hi
        simp
      | succ i =>
        have hi' : l[i]? = some x := by simpa using hi
        have hyx : y < x := hy x (mem_of_getElem? hi')
        simp [hyx, ih hl' i hi']
  refine ⟨getElem?_of_findSorted, fun h => ?_⟩
  simp only [findSorted, hpos i h, h, if_true]

end TairKvCache.Lib
