import TairKvCache.Registry.Recovery

/-!
# Storage requests that fail

`AddStorage` and `RemoveStorage` change the persisted map first and the
registered storages second, and `UpdateStorage` is the one after the other; no
path takes the first half back when the second one fails.
`failed_storage_request_iff` says for every request that answered an error
when it nevertheless left both as they were.
-/

namespace TairKvCache.Registry

open StorageMap Table

variable {V σ γ μ : Type} {c : Codecs V σ γ μ}

inductive StorageRequest (σ : Type)
  | add (env : StorageEnv σ) (config : StorageConfig σ)
  | update (env : StorageEnv σ) (config : StorageConfig σ)
  | enable (name : String)
  | disable (name : String)
  | remove (env : StorageEnv σ) (name : String)

namespace RegistryManager

variable {s : RegistryManager V σ γ μ} {env : StorageEnv σ} {config : StorageConfig σ}
  {name : String}

def serveStorage (c : Codecs V σ γ μ) (s : RegistryManager V σ γ μ) :
    StorageRequest σ → ErrorCode × RegistryManager V σ γ μ
  | .add env config => s.addStorage c env config
  | .update env config => s.updateStorage c env config
  | .enable name => s.enableStorage c name
  | .disable name => s.disableStorage c name
  | .remove env name => s.removeStorage env name

/-- The same persisted storages, and the same registered ones with the same
configs. -/
def SameStorages (s s' : RegistryManager V σ γ μ) : Prop :=
  (∀ name, s'.table.entry registryStorageKey name = s.table.entry registryStorageKey name) ∧
    ∀ name, (s'.storages name).map (·.config) = (s.storages name).map (·.config)

theorem sameStorages_refl (s : RegistryManager V σ γ μ) : SameStorages s s :=
  ⟨fun _ => rfl, fun _ => rfl⟩

/-! ## Adding -/

theorem addStorage_error (h : (s.addStorage c env config).1 ≠ .ok) : (s.addStorage c env config).2
      = { s with table := (s.table.loadAndSave registryStorageKey config.globalUniqueName
          (c.storage.toJson config)).2 } := by
  rw [addStorage, persist_loadAndSave] at h ⊢
  rw [withStorages, registerStorage_error h]

theorem addStorage_same_iff (h : (s.addStorage c env config).1 ≠ .ok) :
    SameStorages s (s.addStorage c env config).2 ↔
      s.table.entry registryStorageKey config.globalUniqueName
        = some (c.storage.toJson config) := by
  rw [addStorage_error h]
  constructor
  · rintro ⟨htable, -⟩
    rw [← htable, entry_loadAndSave, if_pos ⟨rfl, rfl⟩]
  · refine fun hentry => ⟨fun name => ?_, fun _ => rfl⟩
    rw [entry_loadAndSave]
    split_ifs with hname
    · rw [← hname.2, hentry]
    · rfl

/-! ## Enabling and disabling -/

/-- Only a storage that is not registered is refused, before anything is
written. -/
theorem setStorageAvailable_error {available : Bool}
    (h : (s.setStorageAvailable c name available).1 ≠ .ok) :
    (s.setStorageAvailable c name available).2 = s := by
  rw [setStorageAvailable] at h ⊢
  cases hst : s.storages name with
  | none => rfl
  | some st =>
    rw [hst] at h
    dsimp only at h
    rw [persist_loadAndSave, withStorages, setAvailable_of_some hst] at h
    exact absurd rfl h

/-! ## Removing -/

theorem removeStorage_error (h : (s.removeStorage env name).1 ≠ .ok) : (s.removeStorage env name).2
      = { s with table := (s.table.loadAndDelete registryStorageKey name).2 } := by
  rw [removeStorage, persist] at h ⊢
  by_cases hdelete : (s.table.loadAndDelete registryStorageKey name).1 ≠ .ok
  · rw [if_pos hdelete]
  · rw [if_neg hdelete] at h ⊢
    rw [withStorages, unRegisterStorage_error h]

theorem removeStorage_same_iff (h : (s.removeStorage env name).1 ≠ .ok) :
    SameStorages s (s.removeStorage env name).2 ↔
      s.table.entry registryStorageKey name = none := by
  rw [removeStorage_error h]
  constructor
  · rintro ⟨htable, -⟩
    rw [← htable, entry_loadAndDelete, if_pos ⟨rfl, rfl⟩]
  · refine fun hentry => ⟨fun name' => ?_, fun _ => rfl⟩
    rw [entry_loadAndDelete]
    split_ifs with hname
    · rw [← hname.2, hentry]
    · rfl

def RemovalFails (env : StorageEnv σ) (s : RegistryManager V σ γ μ) (name : String) : Prop :=
  s.table registryStorageKey = none ∨ s.storages name = none ∨ env.closes name ≠ .ok

theorem removeStorage_ok_iff : (s.removeStorage env name).1 = .ok ↔ ¬ s.RemovalFails env name := by
  rw [removeStorage, persist, loadAndDelete_code, RemovalFails]
  cases hkey : s.table registryStorageKey with
  | none => simp
  | some m =>
    cases hst : s.storages name with
    | none => simp [withStorages, unRegisterStorage, hst]
    | some st =>
      by_cases hclose : env.closes name = .ok
      · simp [withStorages, unRegisterStorage, hst, hclose]
      · simp [withStorages, unRegisterStorage, hst, hclose]

theorem removeStorage_gone (h : (s.removeStorage env name).1 = .ok) :
    (∃ st, s.storages name = some st) ∧ (s.removeStorage env name).2.storages name = none := by
  have hremove := persist_ok h
  rw [removeStorage, hremove] at h ⊢
  obtain ⟨hst, hunregister⟩ := unRegisterStorage_ok h
  rw [withStorages, hunregister]
  exact ⟨hst, Function.update_self ..⟩

/-! ## All requests -/

/-- When a request that fails leaves the storages alone: the text that an
addition writes is there already, a removal finds nothing to erase, and an
update gets no further than such a removal. -/
def LeavesStorages (c : Codecs V σ γ μ) (s : RegistryManager V σ γ μ) : StorageRequest σ → Prop
  | .add _ config =>
    s.table.entry registryStorageKey config.globalUniqueName = some (c.storage.toJson config)
  | .update env config =>
    s.updateRejected config = true ∨
      (s.RemovalFails env config.globalUniqueName ∧
        s.table.entry registryStorageKey config.globalUniqueName = none)
  | .enable _ | .disable _ => True
  | .remove _ name => s.table.entry registryStorageKey name = none

theorem updateStorage_same_iff (h : (s.updateStorage c env config).1 ≠ .ok) :
    SameStorages s (s.updateStorage c env config).2 ↔ LeavesStorages c s (.update env config) := by
  rw [LeavesStorages]
  rw [updateStorage] at h ⊢
  by_cases hrejected : s.updateRejected config = true
  · rw [if_pos hrejected]
    exact ⟨fun _ => .inl hrejected, fun _ => sameStorages_refl s⟩
  · rw [if_neg hrejected] at h ⊢
    by_cases hremove : (s.removeStorage env config.globalUniqueName).1 = .ok
    · -- The storage is gone from the memory, and the addition did not bring it back.
      rw [if_neg (not_not_intro hremove)] at h ⊢
      obtain ⟨⟨st, hst⟩, hgone⟩ := removeStorage_gone hremove
      constructor
      · rintro ⟨-, hstorages⟩
        have hname := hstorages config.globalUniqueName
        rw [addStorage_error h, hst] at hname
        dsimp only at hname
        rw [hgone] at hname
        cases hname
      · rintro (hrej | ⟨hfails, -⟩)
        · exact absurd hrej hrejected
        · exact absurd hfails (removeStorage_ok_iff.mp hremove)
    · rw [if_pos hremove, removeStorage_same_iff hremove]
      have hfails := not_not.mp (mt removeStorage_ok_iff.mpr hremove)
      exact ⟨fun hentry => .inr ⟨hfails, hentry⟩,
        fun hor => hor.elim (fun hrej => absurd hrej hrejected) fun hnone => hnone.2⟩

theorem failed_storage_request_iff (c : Codecs V σ γ μ) (s : RegistryManager V σ γ μ)
    (request : StorageRequest σ) (h : (s.serveStorage c request).1 ≠ .ok) :
    SameStorages s (s.serveStorage c request).2 ↔ LeavesStorages c s request := by
  cases request with
  | add env config => exact addStorage_same_iff h
  | update env config => exact updateStorage_same_iff h
  | enable name =>
    rw [serveStorage, enableStorage, setStorageAvailable_error h]
    exact iff_of_true (sameStorages_refl s) trivial
  | disable name =>
    rw [serveStorage, disableStorage, setStorageAvailable_error h]
    exact iff_of_true (sameStorages_refl s) trivial
  | remove env name => exact removeStorage_same_iff h

/-- Disabling a storage that was never added. -/
theorem failed_storage_request_disable :
    SameStorages filledState (filledState.serveStorage docCodecs (.disable "nfs_02")).2 :=
  (failed_storage_request_iff docCodecs filledState (.disable "nfs_02") (by decide +kernel)).mpr
    trivial

/-- A name that is taken: the config of the storage that has it is overwritten
in the persisted map. -/
def duplicateConfig : StorageConfig Unit := ⟨.hf3fs, "nfs_01", .other (), true⟩

theorem duplicate_add_persisted :
    (filledState.serveStorage docCodecs (.add workingEnv duplicateConfig)).1 = .exist ∧
      ¬ SameStorages filledState
        (filledState.serveStorage docCodecs (.add workingEnv duplicateConfig)).2 := by
  refine ⟨by decide +kernel, fun ⟨htable, _⟩ => ?_⟩
  have hname := htable "nfs_01"
  revert hname
  decide +kernel

end RegistryManager

end TairKvCache.Registry
