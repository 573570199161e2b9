import Mathlib

/-!
# Sets that are disjoint unions

A set kept beside a collection of owners, each with the list of its elements:
elements are inserted when an owner comes and erased when it goes. As long as
no element has two owners the set is the union, and erasing the elements of
one owner leaves the elements of the others.
-/

namespace TairKvCache.Lib

open List

variable {α : Type*} [DecidableEq α]

theorem foldl_erase (l : List α) (s : Finset α) : l.foldl Finset.erase s = s \ l.toFinset := by
  induction l generalizing s with
  | nil => simp
  | cons a l ih =>
    rw [foldl_cons, ih]
    ext k
    simp only [Finset.mem_sdiff, Finset.mem_erase, mem_toFinset, mem_cons]
    tauto

theorem foldl_insert (l : List α) (s : Finset α) :
    l.foldl (fun s a => insert a s) s = s ∪ l.toFinset := by
  induction l generalizing s with
  | nil => simp
  | cons a l ih =>
    rw [foldl_cons, ih]
    ext k
    simp only [Finset.mem_union, Finset.mem_insert, mem_toFinset, mem_cons]
    tauto

theorem release_owned {l m : List α} (h : (l ++ m).Nodup) :
    l.foldl Finset.erase (l ++ m).toFinset = m.toFinset := by
  rw [foldl_erase]
  ext k
  simp only [Finset.mem_sdiff, mem_toFinset, mem_append]
  have hd : k ∈ l → k ∉ m := fun hl hm => (nodup_append.mp h).2.2 k hl k hm rfl
  tauto

/-- Releasing an owner among others, those before it and those after it. -/
theorem release_owned_middle {l m n : List α} (h : (l ++ (m ++ n)).Nodup) :
    m.foldl Finset.erase (l ++ (m ++ n)).toFinset = (l ++ n).toFinset := by
  have hperm : (l ++ (m ++ n)).Perm (m ++ (l ++ n)) := by
    rw [← append_assoc, ← append_assoc]
    exact perm_append_comm.append_right _
  rw [toFinset_eq_of_perm _ _ hperm]
  exact release_owned (hperm.nodup_iff.mp h)

omit [DecidableEq α] in
theorem owner_unique {β : Type*} {f : β → List α} {l : List β} (h : (l.flatMap f).Nodup)
    {i j : Nat} {a b : β} {k : α} (hi : l[i]? = some a) (hj : l[j]? = some b) (hka : k ∈ f a)
    (hkb : k ∈ f b) : i = j := by
  have hpair := pairwise_iff_getElem.mp (nodup_flatMap.mp h).2
  obtain ⟨hilt, rfl⟩ := List.getElem?_eq_some_iff.mp hi
  obtain ⟨hjlt, rfl⟩ := List.getElem?_eq_some_iff.mp hj
  by_contra hne
  rcases Nat.lt_or_gt_of_ne hne with hlt | hlt
  · exact hpair i j hilt hjlt hlt hka hkb
  · exact hpair j i hjlt hilt hlt hkb hka

end TairKvCache.Lib
