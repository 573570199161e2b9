import Mathlib

/-!
# Loops that build a list and may raise

`List.mapM` in `Except` is a loop that appends one result per element and
stops at the first error. `mapM_ok_iff` says when it reaches its end, and
`mem_of_mapM` what it has built by then.
-/

namespace TairKvCache.Lib

namespace Traverse

variable {ε α β : Type*} {f : α → Except ε β}

theorem bind_ok_iff {x : Except ε α} {k : α → Except ε β} {b : β} :
    x.bind k = .ok b ↔ ∃ a, x = .ok a ∧ k a = .ok b := by
  cases x with
  | error err | ok a => simp [Except.bind]

theorem mapM_cons_ok_iff {x : α} {xs : List α} {ys : List β} : (x :: xs).mapM f = .ok ys ↔
      ∃ y, f x = .ok y ∧ ∃ zs, xs.mapM f = .ok zs ∧ ys = y :: zs := by
  rw [List.mapM_cons]
  change (f x).bind (fun y => (xs.mapM f).bind fun zs => .ok (y :: zs)) = _ ↔ _
  simp only [bind_ok_iff, Except.ok.injEq, eq_comm (a := ys)]

theorem mapM_ok_iff {xs : List α} : (∃ ys, xs.mapM f = .ok ys) ↔ ∀ x ∈ xs, ∃ y, f x = .ok y := by
  induction xs with
  | nil => exact ⟨fun _ => by simp, fun _ => ⟨[], rfl⟩⟩
  | cons x xs ih =>
    rw [List.forall_mem_cons, ← ih]
    constructor
    · rintro ⟨ys, hys⟩
      obtain ⟨y, hy, zs, hzs, -⟩ := mapM_cons_ok_iff.mp hys
      exact ⟨⟨y, hy⟩, zs, hzs⟩
    · rintro ⟨⟨y, hy⟩, zs, hzs⟩
      exact ⟨y :: zs, mapM_cons_ok_iff.mpr ⟨y, hy, zs, hzs, rfl⟩⟩

theorem mem_of_mapM {xs : List α} {ys : List β} (h : xs.mapM f = .ok ys) (y : β) :
    y ∈ ys ↔ ∃ x ∈ xs, f x = .ok y := by
  induction xs generalizing ys with
  | nil =>
    obtain rfl : [] = ys := Except.ok.inj h
    simp
  | cons x xs ih =>
    obtain ⟨z, hz, zs, hzs, rfl⟩ := mapM_cons_ok_iff.mp h
    rw [List.mem_cons, ih hzs]
    constructor
    · rintro (rfl | ⟨x', hx', hf⟩)
      · exact ⟨x, List.mem_cons_self, hz⟩
      · exact ⟨x', List.mem_cons_of_mem _ hx', hf⟩
    · rintro ⟨x', hx', hf⟩
      rcases List.mem_cons.mp hx' with rfl | hx'
      · exact .inl (Except.ok.inj (hf.symm.trans hz))
      · exact .inr ⟨x', hx', hf⟩

end Traverse

end TairKvCache.Lib
