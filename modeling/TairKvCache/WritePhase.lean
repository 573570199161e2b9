import TairKvCache.KeyFrame

/-!
# The codes of the write phase

Which code each decision ends up with. An upsert that capacity lets through
takes the manager's code for its slot, and one that is turned away reports
`EC_NOSPC`; a delete takes the code of its slot; everything else keeps
`EC_OK`.
-/

namespace TairKvCache

open Lib List Backend Decision

/-! ## One code per slot -/

namespace Hot

@[simp] theorem conditional_length {α : Type} (op : Store → α → Store × ErrorCode) (s : Store)
    (items : List α) (prev : List ErrorCode) :
    (conditional op s items prev).2.length = min items.length prev.length := by
  simp [conditional]

end Hot

namespace Manager

variable (m : Manager) (f : WriteFaults)

@[simp] theorem delete_length (keys : List KeyType) : (m.delete f keys).2.length = keys.length := by
  unfold delete
  cases m.cache <;> simp

@[simp] theorem deleteTargets_length (items : List DeleteItem) :
    (m.deleteTargets f items).2.length = items.length := by
  unfold deleteTargets
  cases m.cache with
  | none => simp
  | some c => dsimp only; split <;> simp

theorem maintenanceCodes_length (ps : List MaintenancePlan) (ts ws : List ErrorCode) :
    (maintenanceCodes ps ts ws).length = ps.length := by
  induction ps generalizing ts ws with
  | nil => rfl
  | cons p ps ih => cases p <;> simp [maintenanceCodes, ih]

@[simp] theorem deleteLocationsForMaintenance_length (items : List DeleteItem) :
    (m.deleteLocationsForMaintenance f items).2.1.length = items.length := by
  unfold deleteLocationsForMaintenance
  split <;> simp [maintenanceCodes_length]

theorem deleteTargets_nil : m.deleteTargets f [] = (m, []) := by
  unfold deleteTargets
  cases hc : m.cache with
  | none => simp [batch, ← hc]
  | some c =>
    have hh : m.hydrate f c [] = (c, true) := by
      unfold hydrate ensureKeyInCache
      split <;> simp
    simp [hh, batch, Hot.conditional, ← hc]

theorem delete_nil : m.delete f [] = (m, []) := by
  unfold delete
  cases hc : m.cache with
  | none => simp [batch, ← hc]
  | some c => simp [batch, Hot.conditional, ← hc]

theorem deleteLocations_nil : m.deleteLocations f [] = (m, [], 0) := by
  simp [deleteLocations, deleteTargets_nil, maybeReclaimEmptyKeys, reclaimKeys, delete_nil]

end Manager

namespace Indexer

@[simp] theorem executeRmwDelete_length (m : Manager) (f : WriteFaults) (mode : DeleteMode)
    (items : List DeleteItem) : (executeRmwDelete m f mode items).2.1.length = items.length := by
  unfold executeRmwDelete
  split
  · rename_i h
    simp [isEmpty_iff.mp h]
  · cases mode with
    | wholeKey => simp
    | targets => exact m.deleteTargets_length f items
    | maintenance => exact m.deleteLocationsForMaintenance_length f items

/-! ## The code of a decision -/

variable {π : Type} {ix : Indexer} {env : BatchFaults} {mode : DeleteMode} {preserve : Bool}
  {ds : List (Decision π)}

theorem deleteIndices_sublist (ds : List (Decision π)) :
    ((ds.filterMap delete?).map (·.index)).Sublist (ds.map (·.index)) :=
  filterMap_labels_sublist fun _ _ _ h => (delete?_key h).2

theorem upsert?_delete? {d : Decision π} {u : RmwUpsert} (h : d.upsert? = some u) :
    d.delete? = none := by
  unfold upsert? at h
  unfold delete?
  cases hi : d.intent <;> simp_all

theorem index_not_mem_upserts (hnd : (ds.map (·.index)).Nodup) {d : Decision π} (hd : d ∈ ds)
    (hnone : d.upsert? = none) : d.index ∉ (ds.filterMap upsert?).map (·.index) := by
  intro hmem
  obtain ⟨u, hu, hidx⟩ := mem_map.mp hmem
  obtain ⟨d', hd', hu'⟩ := mem_filterMap.mp hu
  have := inj_on_of_nodup_map hnd hd' hd (by rw [← (upsert?_key hu').2, hidx])
  rw [this, hnone] at hu'
  cases hu'

theorem map_fst_zip_subset {α β : Type} (as : List α) (bs : List β) :
    (as.zip bs).map (·.1) ⊆ as := by
  intro a ha
  obtain ⟨p, hp, rfl⟩ := mem_map.mp ha
  exact (of_mem_zip hp).1

theorem rmwCode_delete (hnd : (ds.map (·.index)).Nodup) {x : RmwDelete} {c : ErrorCode}
    (hx : (x, c) ∈ (ds.filterMap delete?).zip
      (ix.deletePhase env mode preserve ds).2.1) :
    ix.rmwCode env mode preserve ds x.index = c := by
  obtain ⟨d, hd, hdel⟩ := mem_filterMap.mp (of_mem_zip hx).1
  have hu : d.upsert? = none := by
    cases h : d.upsert? with
    | none => rfl
    | some u => rw [upsert?_delete? h] at hdel; cases hdel
  have hnot := index_not_mem_upserts hnd hd hu
  rw [← (delete?_key hdel).2] at hnot
  unfold rmwCode
  rw [labelled_append_right _ fun h => hnot (map_fst_zip_subset _ _ h)]
  refine labelled_of_mem _ ?_ ?_
  · rw [map_fst_zip (by simp [deletePhase])]
    exact (deleteIndices_sublist ds).nodup hnd
  · obtain ⟨i, hi⟩ := mem_iff_getElem?.mp hx
    obtain ⟨h₁, h₂⟩ := getElem?_zip_eq_some.mp hi
    refine mem_iff_getElem?.mpr ⟨i, getElem?_zip_eq_some.mpr ⟨?_, h₂⟩⟩
    simp [h₁]

/-! ## The delete sub-batch -/

def deletesOf {π : Type} (ds : List (Decision π)) : List DeleteItem :=
  (ds.filterMap delete?).map (·.item)

theorem executeRmwDelete_targets (m : Manager) (f : WriteFaults) (items : List DeleteItem) :
    executeRmwDelete m f .targets items = m.deleteLocations f items := by
  unfold executeRmwDelete
  split
  · rename_i h
    rw [isEmpty_iff.mp h, Manager.deleteLocations_nil]
  · rfl

theorem upsertPhase_none (ix : Indexer) (env : BatchFaults) (preserve : Bool)
    (h : ∀ d ∈ ds, d.upsert? = none) :
    ix.upsertPhase env preserve ds = (ix.manager, [], 0) := by
  have hnil : ds.filterMap upsert? = [] := filterMap_eq_nil_iff.mpr h
  simp [upsertPhase, hnil, executeRmwUpsert]

theorem deletePhase_targets (ix : Indexer) (env : BatchFaults) (preserve : Bool)
    (h : ∀ d ∈ ds, d.upsert? = none) :
    ix.deletePhase env .targets preserve ds
      = ix.manager.deleteLocations env.delete (deletesOf ds) := by
  rw [deletePhase, ix.upsertPhase_none env preserve h, executeRmwDelete_targets]
  rfl

end Indexer

end TairKvCache
