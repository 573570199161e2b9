import TairKvCache.Registry.Recovery

/-!
# Concurrent storage requests

`AddStorage`, `EnableStorage`, `DisableStorage` and `RemoveStorage` hold no
lock of the registry: any number of them run at once, on different names, each
call of the persisted table and of the `DataStorageManager` being one step.

A request writes back the whole map that it loaded. As long as no other
request loads in between, this changes the request's own entry and nothing
else, and `storages_mirrored` holds. The requests on groups, instances and
accounts take the manager's lock for exactly that.
-/

namespace TairKvCache.Registry

open Function RegistryManager Option Lib.Machine StorageMap Table

variable {V σ γ μ ρ : Type}

/-! ## One request -/

inductive StorageCall (σ : Type)
  | add (env : StorageEnv σ) (config : StorageConfig σ)
  | setAvailable (name : String) (available : Bool)
  | remove (env : StorageEnv σ) (name : String)

def StorageCall.name : StorageCall σ → String
  | .add _ config => config.globalUniqueName
  | .setAvailable name _ => name
  | .remove _ name => name

/-- Where a request stands. `change` is the text to write, or `none` to
erase. -/
inductive CallPhase (V : Type)
  | start
  | found (value : V)
  | loaded (map : ValueMap V) (change : Option V)
  | written
  | done (code : ErrorCode)

def CallPhase.isLoaded : CallPhase V → Bool
  | .loaded _ _ => true
  | _ => false

/-- `Save` or `Delete` with the loaded map. -/
def writeBack (t : Table V) (name : String) (map : ValueMap V) : Option V → ErrorCode × Table V
  | some value => t.save registryStorageKey (map.insert name value)
  | none =>
    if (map.erase name).entries = [] then t.delete registryStorageKey
    else t.save registryStorageKey (map.erase name)

/-- The call of the `DataStorageManager` that ends a request. -/
def finish (storages : StorageMap σ) : StorageCall σ → ErrorCode × StorageMap σ
  | .add env config => storages.registerStorage env config.globalUniqueName config
  | .setAvailable name available => storages.setAvailable name available
  | .remove env name => storages.unRegisterStorage env name

/-- The next step of a request; the first one of `UpdateStorageAvailableStatus`
is `GetDataStorageBackend`. -/
def advance (c : Codecs V σ γ μ) (t : Table V) (storages : StorageMap σ) (call : StorageCall σ) :
    CallPhase V → Option (Table V × StorageMap σ × CallPhase V)
  | .start =>
    match call with
    | .add _ config =>
      some (t, storages,
        .loaded (t.load registryStorageKey).2 (some (c.storage.toJson config)))
    | .setAvailable name available =>
      match storages name with
      | none => some (t, storages, .done .noent)
      | some st =>
        some (t, storages,
          .found (c.storage.toJson { st.config with isAvailable := available }))
    | .remove _ _ => some (t, storages, .loaded (t.load registryStorageKey).2 none)
  | .found value => some (t, storages, .loaded (t.load registryStorageKey).2 (some value))
  | .loaded map change =>
    let r := writeBack t call.name map change
    some (r.2, storages, if r.1 = .ok then .written else .done r.1)
  | .written =>
    let r := finish storages call
    some (t, r.2, .done r.1)
  | .done _ => none

/-! ## All requests -/

structure StorageSystem (ρ V σ : Type) where
  table : Table V
  storages : StorageMap σ
  phase : ρ → CallPhase V

/-- The persisted entry of `name` says what is registered. -/
def MirroredAt (c : Codecs V σ γ μ) (t : Table V) (storages : StorageMap σ) (name : String) : Prop :=
  t.entry registryStorageKey name
    = (storages name).map fun st => c.storage.toJson st.persisted

namespace StorageSystem

variable [DecidableEq ρ]

def setCall (s : StorageSystem ρ V σ) (r : ρ) (next : Table V × StorageMap σ × CallPhase V) :
    StorageSystem ρ V σ :=
  ⟨next.1, next.2.1, update s.phase r next.2.2⟩

def machine (c : Codecs V σ γ μ) (calls : ρ → StorageCall σ) :
    Lib.Machine (StorageSystem ρ V σ) ρ where
  init s := (∀ name, MirroredAt c s.table s.storages name) ∧ ∀ r, s.phase r = .start
  step s r := (advance c s.table s.storages (calls r) (s.phase r)).map (s.setCall r)

/-- A map is loaded only when nobody else is about to write one back, and no
storage is added as unavailable. -/
def Alone (calls : ρ → StorageCall σ) (s : StorageSystem ρ V σ) (r : ρ) : Prop :=
  (∀ r', r' ≠ r → (s.phase r').isLoaded = false) ∧
    ∀ env config, calls r = .add env config → config.isAvailable = true

end StorageSystem

/-! ## What a request knows -/

variable {c : Codecs V σ γ μ} {t t' : Table V} {storages storages' : StorageMap σ}
  {call : StorageCall σ} {phase phase' : CallPhase V}

def Writes (c : Codecs V σ γ μ) (storages : StorageMap σ) (call : StorageCall σ)
    (change : Option V) : Prop :=
  match call with
  | .add _ config => change = some (c.storage.toJson config)
  | .setAvailable name available =>
    ∃ st, storages name = some st ∧
      change = some (c.storage.toJson { st.config with isAvailable := available })
  | .remove _ _ => change = none

def Fits (c : Codecs V σ γ μ) (t : Table V) (storages : StorageMap σ) (call : StorageCall σ) :
    CallPhase V → Prop
  | .start => MirroredAt c t storages call.name
  | .found value => MirroredAt c t storages call.name ∧ Writes c storages call (some value)
  | .loaded map change =>
    MirroredAt c t storages call.name ∧ Writes c storages call change ∧
      ∀ id, map.find id = t.entry registryStorageKey id
  | .written => ∃ change, Writes c storages call change ∧
      t.entry registryStorageKey call.name = change
  | .done code => code = .ok → MirroredAt c t storages call.name

/-- What a request knows depends on its own entry only, and on the whole map
while it holds a copy of it. -/
theorem Fits.frame (h : Fits c t storages call phase)
    (hentry : t'.entry registryStorageKey call.name = t.entry registryStorageKey call.name)
    (hstorage : storages' call.name = storages call.name) (hloaded : phase.isLoaded = true → t' = t)
      :
    Fits c t' storages' call phase := by
  have hmirror : MirroredAt c t storages call.name → MirroredAt c t' storages' call.name := by
    intro hm
    rw [MirroredAt, hentry, hstorage]
    exact hm
  have hwrites : ∀ change, Writes c storages call change → Writes c storages' call change := by
    intro change hw
    cases call with
    | add env config => exact hw
    | setAvailable name available =>
      obtain ⟨st, hst, hchange⟩ := hw
      exact ⟨st, hstorage.trans hst, hchange⟩
    | remove env name => exact hw
  cases phase with
  | start => exact hmirror h
  | found value => exact ⟨hmirror h.1, hwrites _ h.2⟩
  | loaded map change =>
    obtain ⟨hm, hw, hmap⟩ := h
    refine ⟨hmirror hm, hwrites _ hw, ?_⟩
    rw [hloaded rfl]
    exact hmap
  | written =>
    obtain ⟨change, hw, hchange⟩ := h
    exact ⟨change, hwrites _ hw, hentry.trans hchange⟩
  | done code => exact fun hok => hmirror (h hok)

/-! ## Steps of a request -/

/-- Writing back a map that is still the stored one changes one entry. -/
theorem entry_writeBack {name : String} {map : ValueMap V}
    (hmap : ∀ id, map.find id = t.entry registryStorageKey id) (change : Option V) (id : String) :
    (writeBack t name map change).2.entry registryStorageKey id
      = if name = id then change else t.entry registryStorageKey id := by
  cases change with
  | some value => rw [writeBack, entry_save, if_pos rfl, Lib.OrdMap.find_insert, hmap]
  | none =>
    have herase : (map.erase name).find id
        = if name = id then none else t.entry registryStorageKey id := by
      rw [Lib.OrdMap.find_erase, hmap]
    rw [writeBack, ← herase]
    split_ifs with hnil
    · rw [Lib.OrdMap.find_of_entries_nil hnil, delete]
      cases ht : t registryStorageKey with
      | none => simp [entry, ht]
      | some m => simp [entry]
    · rw [entry_save, if_pos rfl]

theorem finish_fits {change : Option V} (hw : Writes c storages call change)
    (hentry : t.entry registryStorageKey call.name = change)
    (havail : ∀ env config, call = .add env config → config.isAvailable = true)
    (hok : (finish storages call).1 = .ok) : MirroredAt c t (finish storages call).2 call.name := by
  rw [MirroredAt, hentry]
  cases call with
  | add env config =>
    obtain ⟨-, hregister⟩ := registerStorage_ok hok
    have hpersisted : (⟨config, true⟩ : Storage σ).persisted = config := by
      rw [Storage.persisted, ← havail env config rfl]
    rw [show change = _ from hw, finish, hregister, StorageCall.name, update_self,
      map_some, hpersisted]
  | setAvailable name available =>
    obtain ⟨st, hst, hchange⟩ := hw
    rw [hchange, finish, setAvailable_of_some hst, StorageCall.name]
    dsimp only
    rw [update_self]
    rfl
  | remove env name =>
    obtain ⟨-, hunregister⟩ := unRegisterStorage_ok hok
    rw [show change = _ from hw, finish, hunregister, StorageCall.name, update_self]
    rfl

theorem finish_other (storages : StorageMap σ) (call : StorageCall σ) {name : String}
    (hne : name ≠ call.name) : (finish storages call).2 name = storages name := by
  by_cases hok : (finish storages call).1 = .ok
  · cases call with
    | add env config =>
      obtain ⟨-, hregister⟩ := registerStorage_ok hok
      rw [finish, hregister]
      exact update_of_ne hne ..
    | setAvailable name' available =>
      rw [finish, setAvailable]
      cases storages name' with
      | none => rfl
      | some st => exact update_of_ne hne ..
    | remove env name' =>
      obtain ⟨-, hunregister⟩ := unRegisterStorage_ok hok
      rw [finish, hunregister]
      exact update_of_ne hne ..
  · cases call with
    | add env config => rw [finish, registerStorage_error hok]
    | setAvailable name' available =>
      rw [finish, setAvailable] at hok ⊢
      cases hst : storages name' with
      | none => rfl
      | some st =>
        rw [hst] at hok
        exact absurd rfl hok
    | remove env name' => rw [finish, unRegisterStorage_error hok]

structure Advanced (c : Codecs V σ γ μ) (t t' : Table V) (storages storages' : StorageMap σ)
    (call : StorageCall σ) (phase phase' : CallPhase V) : Prop where
  fits : Fits c t' storages' call phase'
  entries : ∀ name, name ≠ call.name →
    t'.entry registryStorageKey name = t.entry registryStorageKey name
  storages : ∀ name, name ≠ call.name → storages' name = storages name

theorem advanced_load (hm : MirroredAt c t storages call.name) {change : Option V}
    (hw : Writes c storages call change) :
    Advanced c t t storages storages call phase (.loaded (t.load registryStorageKey).2 change) :=
  ⟨⟨hm, hw, fun id => t.find_load registryStorageKey id⟩, fun _ _ => rfl, fun _ _ => rfl⟩

theorem advance_spec (h : Fits c t storages call phase)
    (havail : ∀ env config, call = .add env config → config.isAvailable = true)
    (hstep : advance c t storages call phase = some (t', storages', phase')) :
    Advanced c t t' storages storages' call phase phase' := by
  cases phase with
  | start =>
    cases call with
    | add env config | remove env name =>
      obtain ⟨rfl, rfl, rfl⟩ : t = t' ∧ storages = storages' ∧ _ = phase' := by
        simpa [advance] using hstep
      exact advanced_load h rfl
    | setAvailable name available =>
      rw [advance] at hstep
      cases hst : storages name with
      | none =>
        rw [hst] at hstep
        obtain ⟨rfl, rfl, rfl⟩ : t = t' ∧ storages = storages' ∧ _ = phase' := by
          simpa using hstep
        refine ⟨fun hok => ?_, fun _ _ => rfl, fun _ _ => rfl⟩
        cases hok
      | some st =>
        rw [hst] at hstep
        obtain ⟨rfl, rfl, rfl⟩ : t = t' ∧ storages = storages' ∧ _ = phase' := by
          simpa using hstep
        exact ⟨⟨h, st, hst, rfl⟩, fun _ _ => rfl, fun _ _ => rfl⟩
  | found value =>
    obtain ⟨rfl, rfl, rfl⟩ : t = t' ∧ storages = storages' ∧ _ = phase' := by
      simpa [advance] using hstep
    exact advanced_load h.1 h.2
  | loaded map change =>
    obtain ⟨hm, hw, hmap⟩ := h
    obtain ⟨rfl, rfl, rfl⟩ : _ = t' ∧ storages = storages' ∧ _ = phase' := by
      simpa [advance] using hstep
    refine ⟨?_, fun name hne => ?_, fun _ _ => rfl⟩
    · split_ifs with hok
      · refine ⟨change, hw, ?_⟩
        rw [entry_writeBack hmap, if_pos rfl]
      · exact fun hok' => absurd hok' hok
    · rw [entry_writeBack hmap, if_neg (Ne.symm hne)]
  | written =>
    obtain ⟨change, hw, hentry⟩ := h
    obtain ⟨rfl, rfl, rfl⟩ : t = t' ∧ _ = storages' ∧ _ = phase' := by
      simpa [advance] using hstep
    exact ⟨finish_fits hw hentry havail, fun _ _ => rfl, fun _ hne => finish_other _ _ hne⟩
  | done code => cases hstep

/-! ## Runs -/

namespace StorageSystem

variable [DecidableEq ρ] {calls : ρ → StorageCall σ} {s s' : StorageSystem ρ V σ}

structure Consistent (c : Codecs V σ γ μ) (calls : ρ → StorageCall σ) (s : StorageSystem ρ V σ) :
    Prop where
  fits : ∀ r, Fits c s.table s.storages (calls r) (s.phase r)
  others : ∀ name, (∀ r, (calls r).name ≠ name) → MirroredAt c s.table s.storages name

theorem Consistent.step (h : Consistent c calls s)
    (hnames : Function.Injective fun r => (calls r).name) {r : ρ} (halone : Alone calls s r)
    (hstep : (machine c calls).step s r = some s') : Consistent c calls s' := by
  obtain ⟨⟨t', storages', phase'⟩, hadvance, rfl⟩ := map_eq_some_iff.mp hstep
  have hspec := advance_spec (h.fits r) halone.2 hadvance
  refine ⟨fun r' => ?_, fun name hname => ?_⟩
  · rcases eq_or_ne r' r with rfl | hr
    · rw [show (s.setCall r' (t', storages', phase')).phase r' = phase' from
        update_self ..]
      exact hspec.fits
    · have hne : (calls r').name ≠ (calls r).name := fun heq => hr (hnames heq)
      rw [show (s.setCall r (t', storages', phase')).phase r' = s.phase r' from
        update_of_ne hr ..]
      exact (h.fits r').frame (hspec.entries _ hne) (hspec.storages _ hne)
        fun hloaded => absurd hloaded (by simp [halone.1 r' hr])
  · have hne : name ≠ (calls r).name := Ne.symm (hname r)
    have hm : MirroredAt c s.table s.storages name := h.others name hname
    rw [MirroredAt] at hm ⊢
    exact (hspec.entries name hne).trans (hm.trans (by
      rw [show (s.setCall r (t', storages', phase')).storages name = s.storages name from
        hspec.storages name hne]))

theorem consistent_reach (hnames : Function.Injective fun r => (calls r).name)
    (h : (machine c calls).Reach (Alone calls) s) : Consistent c calls s := by
  refine h.inv (fun s hs => ⟨fun r => ?_, fun name _ => hs.1 name⟩)
    fun s r s' hs halone hstep => hs.step hnames halone hstep
  rw [hs.2 r]
  exact hs.1 _

theorem storages_mirrored (c : Codecs V σ γ μ) (calls : ρ → StorageCall σ)
    (hnames : Function.Injective fun r => (calls r).name) (s : StorageSystem ρ V σ)
    (h : (machine c calls).Reach (Alone calls) s) (hdone : ∀ r, s.phase r = .done .ok)
    (name : String) : MirroredAt c s.table s.storages name := by
  have hs := consistent_reach hnames h
  by_cases hname : ∃ r, (calls r).name = name
  · obtain ⟨r, rfl⟩ := hname
    have hfits := hs.fits r
    rw [hdone r] at hfits
    exact hfits rfl
  · exact hs.others name fun r hr => hname ⟨r, hr⟩

/-! ## Two additions -/

def twoAdditions : Fin 2 → StorageCall Unit
  | 0 => .add workingEnv ⟨.nfs, "nfs_01", .other (), true⟩
  | 1 => .add workingEnv ⟨.nfs, "nfs_02", .other (), true⟩

def emptySystem : StorageSystem (Fin 2) RegistryManager.Doc Unit :=
  ⟨fun _ => none, fun _ => none, fun _ => .start⟩

theorem emptySystem_init : (machine docCodecs twoAdditions).init emptySystem :=
  ⟨fun _ => rfl, fun _ => rfl⟩

theorem twoAdditions_names : Function.Injective fun r => (twoAdditions r).name := by
  decide +kernel

def first : Fin 2 := ⟨0, Nat.two_pos⟩

def second : Fin 2 := ⟨1, Nat.one_lt_two⟩

def sequential : StorageSystem (Fin 2) RegistryManager.Doc Unit :=
  ((machine docCodecs twoAdditions).run emptySystem
    [first, first, first, second, second, second]).get
    (by decide +kernel)

theorem storages_mirrored_sequential :
    MirroredAt docCodecs sequential.table sequential.storages "nfs_01" := by
  have halone : ∀ (s : StorageSystem (Fin 2) RegistryManager.Doc Unit) r,
      decide (∀ r', r' ≠ r → (s.phase r').isLoaded = false) = true → Alone twoAdditions s r := by
    refine fun s r h => ⟨of_decide_eq_true h, fun env config hcall => ?_⟩
    fin_cases r <;> cases hcall <;> rfl
  have hreach : (machine docCodecs twoAdditions).Reach (Alone twoAdditions)
      sequential :=
    ⟨emptySystem, emptySystem_init, steps_of_run (some_get _).symm
      (allOk_of_checkRun halone (by decide +kernel))⟩
  exact storages_mirrored docCodecs twoAdditions twoAdditions_names sequential
    hreach (fun r => by fin_cases r <;> rfl) "nfs_01"

def overlapping : StorageSystem (Fin 2) RegistryManager.Doc Unit :=
  ((machine docCodecs twoAdditions).run emptySystem
    [first, second, first, second, first, second]).get
    (by decide +kernel)

theorem overlapping_update_lost :
    (machine docCodecs twoAdditions).Reach anyAction overlapping ∧
      (∀ r, overlapping.phase r = .done .ok) ∧
      (overlapping.storages "nfs_01").isSome = true ∧
      overlapping.table.entry registryStorageKey "nfs_01" = none := by
  refine ⟨⟨emptySystem, emptySystem_init, steps_of_run (some_get _).symm
    (allOk_anyAction _ _)⟩, fun r => ?_, by decide +kernel, by decide +kernel⟩
  fin_cases r <;> rfl

end StorageSystem

end TairKvCache.Registry
