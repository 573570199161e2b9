import TairKvCache.EventReport.SpecUri
import TairKvCache.Lib.OrdMap

/-!
# Printing a URI and parsing it again

`ToUriString` and `ToUriStringWithExtraParam` (`common/standard_uri.cc`). What
the parser returns has no delimiter where it would cut again (`Clean`), so it
prints to a text with the same cuts, with one exception: an empty user-info is
not printed, and then the first `@` of the host name ends a user-info.
-/

namespace TairKvCache.StandardUri

open Lib List Option

variable {c : Char} {s l r : List Char}

theorem splitAt?_append (h : c ∉ l) (r : List Char) : splitAt? c (l ++ c :: r) = some (l, r) := by
  have hall : ∀ x ∈ l, decide (x ≠ c) = true := by
    intro x hx
    simpa using ne_of_mem_of_not_mem hx h
  have hdrop : (l ++ c :: r).dropWhile (· ≠ c) = c :: r := by
    rw [dropWhile_append_of_pos hall, dropWhile_cons_of_neg (by simp)]
  have htake : (l ++ c :: r).takeWhile (· ≠ c) = l := by
    rw [takeWhile_append_of_pos hall, takeWhile_cons_of_neg (by simp), append_nil]
  simp only [splitAt?, hdrop, htake]

theorem splitAt?_of_not_mem (h : c ∉ s) : splitAt? c s = none := by
  have : s.dropWhile (· ≠ c) = [] :=
    dropWhile_eq_nil_iff.mpr fun x hx => by simpa using ne_of_mem_of_not_mem hx h
  simp only [splitAt?, this]

theorem splitAt?_cases (c : Char) (s : List Char) : (c ∉ s ∧ splitAt? c s = none) ∨
    ∃ l r, s = l ++ c :: r ∧ c ∉ l ∧ splitAt? c s = some (l, r) := by
  by_cases h : c ∈ s
  · obtain ⟨l, r, rfl, hl⟩ := eq_append_cons_of_mem h
    exact .inr ⟨l, r, rfl, hl, splitAt?_append hl r⟩
  · exact .inl ⟨h, splitAt?_of_not_mem h⟩

variable {ps : List (String × String)} {k v : String}

def paramText (p : String × String) : List Char := p.1.toList ++ '=' :: p.2.toList

/-- The keys in increasing order, and no delimiter that would end a part. -/
structure CleanParams (ps : List (String × String)) : Prop where
  sorted : ps.Pairwise (·.1 < ·.1)
  texts : ∀ p ∈ ps, '=' ∉ p.1.toList ∧ '&' ∉ paramText p

theorem setParam_eq (ps : List (String × String)) (k v : String) :
    setParam ps k v = OrdMap.insertEntry k v ps := by
  induction ps with
  | nil => rfl
  | cons p ps ih =>
    rw [setParam, OrdMap.insertEntry, ih]
    by_cases heq : k = p.1
    · rw [if_pos heq, if_neg heq.not_lt, if_pos heq]
    · simp only [if_neg heq]

theorem CleanParams.set (h : CleanParams ps) (hk : '=' ∉ k.toList)
    (ht : '&' ∉ paramText (k, v)) : CleanParams (setParam ps k v) := by
  rw [setParam_eq]
  refine ⟨OrdMap.sorted_insertEntry k v h.sorted, fun p hp => ?_⟩
  rcases mem_cons.mp ((OrdMap.insertEntry_perm_filter k v h.sorted).mem_iff.mp hp) with rfl | hp
  · exact ⟨hk, ht⟩
  · exact h.texts p (mem_of_mem_filter hp)

theorem CleanParams.parseParam (h : CleanParams ps) {seg : List Char} (hseg : '&' ∉ seg) :
    CleanParams (parseParam ps seg) := by
  rw [StandardUri.parseParam]
  rcases splitAt?_cases '=' seg with ⟨hnot, hcut⟩ | ⟨l, r, rfl, hl, hcut⟩
  · rw [hcut]
    exact h.set (by simpa using hnot) (by simpa [paramText] using hseg)
  · rw [hcut]
    exact h.set (by simpa using hl) (by simpa [paramText] using hseg)

variable {u : StandardUri}

end TairKvCache.StandardUri
