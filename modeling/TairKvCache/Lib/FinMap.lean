import Mathlib

/-!
# Batch updates of finite maps

Finite maps are Mathlib's association lists with constant value type.
`insertAll` writes all the bindings of another map, and `eraseAll` erases a
list of keys.
-/

namespace TairKvCache.Lib

namespace FinMap

variable {K V : Type*}

variable [DecidableEq K]

/-! ## Writing all the bindings of a map -/

def insertAll (m upd : AList (fun _ : K => V)) : AList (fun _ : K => V) :=
  upd.entries.foldl (fun m e => m.insert e.1 e.2) m

theorem lookup_insertAll_go (l : List (Sigma fun _ : K => V)) (hl : l.NodupKeys)
    (m : AList (fun _ : K => V)) (a : K) : (l.foldl (fun m e => m.insert e.1 e.2) m).lookup a
      = (List.dlookup a l).or (m.lookup a) := by
  induction l generalizing m with
  | nil => simp
  | cons e l ih =>
    obtain ⟨b, v⟩ := e
    rw [List.nodupKeys_cons] at hl
    rw [List.foldl_cons, ih hl.2]
    rcases eq_or_ne a b with rfl | hab
    · rw [List.dlookup_eq_none.mpr hl.1, List.dlookup_cons_eq, AList.lookup_insert]
      rfl
    · rw [List.dlookup_cons_ne _ _ hab, AList.lookup_insert_ne hab]

theorem lookup_insertAll (m upd : AList (fun _ : K => V)) (a : K) :
    (insertAll m upd).lookup a = (upd.lookup a).or (m.lookup a) :=
  lookup_insertAll_go upd.entries upd.nodupKeys m a

/-! ## Erasing a list of keys -/

def eraseAll (m : AList (fun _ : K => V)) (ids : List K) : AList (fun _ : K => V) :=
  ids.foldl (fun m a => m.erase a) m

theorem lookup_eraseAll (m : AList (fun _ : K => V)) (ids : List K) (a : K) :
    (eraseAll m ids).lookup a = if a ∈ ids then none else m.lookup a := by
  induction ids generalizing m with
  | nil => simp [eraseAll]
  | cons b ids ih =>
    show (eraseAll (m.erase b) ids).lookup a = _
    rw [ih]
    by_cases hab : a = b
    · subst hab; simp
    · simp [hab, AList.lookup_erase_ne hab]

end FinMap

end TairKvCache.Lib
