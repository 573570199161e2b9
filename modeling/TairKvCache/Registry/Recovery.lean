import TairKvCache.Lib.Machine
import TairKvCache.Registry.Manager

/-!
# Recovering the registry

After requests that all answered EC_OK, the persisted maps mirror what the
manager holds (`Mirrors`), and a cleanup followed by a recovery brings
everything back (`recovery_restores`).

Two inputs are excluded. The record of an instance is written under its id,
next to the four keys of the registry itself, so an instance must not be
called like one of them. And `AddStorage` makes a storage available whatever
its config says, while a recovery follows the config.
-/

namespace TairKvCache.Registry

open Function Option Lib.Machine StorageMap Table

variable {V σ γ μ : Type} {c : Codecs V σ γ μ} {env : StorageEnv σ}

def registryKeys : List String :=
  [registryStorageKey, registryGroupKey, registryInstanceKey, registryAccountKey]

namespace RegistryManager

variable {s : RegistryManager V σ γ μ}

theorem persist_ok {r : ErrorCode × Table V}
    {next : RegistryManager V σ γ μ → ErrorCode × RegistryManager V σ γ μ}
    (h : (s.persist r next).1 = .ok) : s.persist r next = next { s with table := r.2 } := by
  rw [persist] at h ⊢
  split_ifs at h ⊢ with hr
  · exact absurd h hr
  · rfl

theorem persist_loadAndSave (key id : String) (value : V)
    (next : RegistryManager V σ γ μ → ErrorCode × RegistryManager V σ γ μ) :
    s.persist (s.table.loadAndSave key id value) next
      = next { s with table := (s.table.loadAndSave key id value).2 } := by
  rw [persist, if_neg]
  rw [loadAndSave_ok]
  exact fun h => h rfl

/-! ## The mirror -/

/-- The persisted maps have what the manager holds, and nothing else under
the four keys. -/
structure Mirrors (c : Codecs V σ γ μ) (s : RegistryManager V σ γ μ) : Prop where
  storage : s.table.Stores registryStorageKey s.storages fun _ st => c.storage.toJson st.persisted
  group : s.table.Stores registryGroupKey s.instanceGroupConfigs fun _ => c.group.toJson
  account : s.table.Stores registryAccountKey s.accounts fun _ => c.account.toJson
  ids : s.table.Stores registryInstanceKey s.instanceInfos fun id _ => c.text id
  info : ∀ id info, s.instanceInfos id = some info →
    id ∉ registryKeys ∧ s.table.entry id id = some (c.info.toJson info)
  storageName : ∀ name st, s.storages name = some st → st.config.globalUniqueName = name
  groupName : ∀ name group, s.instanceGroupConfigs name = some group → group.name = name
  accountName : ∀ name account, s.accounts name = some account → account.userName = name

theorem mirrors_init (c : Codecs V σ γ μ) : Mirrors c {} where
  storage _ := rfl
  group _ := rfl
  account _ := rfl
  ids _ := rfl
  info _ _ h := by cases h
  storageName _ _ h := by cases h
  groupName _ _ h := by cases h
  accountName _ _ h := by cases h

variable {name key id : String}

/-- A property of the value that is stored, and of those that were there. -/
theorem update_named {α : Type} {f : String → Option α} {P : String → α → Prop}
    (h : ∀ name x, f name = some x → P name x) {x? : Option α} (hx : ∀ x, x? = some x → P name x) :
    ∀ name' x, update f name x? name' = some x → P name' x := by
  intro name' x hx'
  rcases eq_or_ne name' name with rfl | hn
  · rw [update_self] at hx'
    exact hx x hx'
  · rw [update_of_ne hn] at hx'
    exact h name' x hx'

/-- A change of a map under one of the four keys leaves the records alone. -/
theorem Mirrors.info_of_key {t : Table V} (h : Mirrors c s) (hkey : key ∈ registryKeys)
    (ht : ∀ key' id, key ≠ key' → t.entry key' id = s.table.entry key' id) (id : String)
    (info : InstanceInfo μ) (hid : s.instanceInfos id = some info) :
    id ∉ registryKeys ∧ t.entry id id = some (c.info.toJson info) := by
  obtain ⟨hreserved, hentry⟩ := h.info id info hid
  refine ⟨hreserved, (ht id id ?_).trans hentry⟩
  rintro rfl
  exact hreserved hkey

theorem entry_save_other {t : Table V} (id : String) (value : V) (key' id' : String)
    (hne : key ≠ key') : (t.loadAndSave key id value).2.entry key' id' = t.entry key' id' := by
  rw [entry_loadAndSave, if_neg (by simp [hne])]

theorem entry_delete_other {t : Table V} (id key' id' : String) (hne : key ≠ key') :
    (t.loadAndDelete key id).2.entry key' id' = t.entry key' id' := by
  rw [entry_loadAndDelete, if_neg (by simp [hne])]

theorem storageKey_mem : registryStorageKey ∈ registryKeys := by decide
theorem groupKey_mem : registryGroupKey ∈ registryKeys := by decide
theorem accountKey_mem : registryAccountKey ∈ registryKeys := by decide
theorem instanceKey_mem : registryInstanceKey ∈ registryKeys := by decide

/-! ### Storages -/

/-- A storage is written to the persisted map and to the memory. -/
theorem Mirrors.putStorage (h : Mirrors c s) (st : Storage σ)
    (hname : st.config.globalUniqueName = name) : Mirrors c { s with
      table := (s.table.loadAndSave registryStorageKey name (c.storage.toJson st.persisted)).2
      storages := update s.storages name (some st) } where
  storage := h.storage.save name st
  group := h.group.saveOther (by decide) name _
  account := h.account.saveOther (by decide) name _
  ids := h.ids.saveOther (by decide) name _
  info := h.info_of_key storageKey_mem (entry_save_other name _)
  storageName := by
    refine update_named h.storageName fun st' hst => ?_
    obtain rfl := some.inj hst
    exact hname
  groupName := h.groupName
  accountName := h.accountName

theorem Mirrors.addStorage (h : Mirrors c s) {config : StorageConfig σ}
    (havail : config.isAvailable = true) (hok : (s.addStorage c env config).1 = .ok) :
    Mirrors c (s.addStorage c env config).2 := by
  have hput := h.putStorage ⟨config, true⟩ rfl
  have hpersisted : (⟨config, true⟩ : Storage σ).persisted = config := by
    rw [Storage.persisted, ← havail]
  rw [hpersisted] at hput
  rw [RegistryManager.addStorage, persist_loadAndSave] at hok ⊢
  obtain ⟨-, hregister⟩ := registerStorage_ok hok
  rw [withStorages, hregister]
  exact hput

theorem Mirrors.setStorageAvailable (h : Mirrors c s) {available : Bool}
    (hok : (s.setStorageAvailable c name available).1 = .ok) :
    Mirrors c (s.setStorageAvailable c name available).2 := by
  rw [RegistryManager.setStorageAvailable] at hok ⊢
  cases hst : s.storages name with
  | none =>
    rw [hst] at hok
    cases hok
  | some st =>
    have hput := h.putStorage { st with available } (h.storageName name st hst)
    dsimp only
    rw [persist_loadAndSave, withStorages, setAvailable_of_some hst]
    exact hput

theorem Mirrors.removeStorage (h : Mirrors c s) (hok : (s.removeStorage env name).1 = .ok) :
    Mirrors c (s.removeStorage env name).2 := by
  have hremove := persist_ok hok
  rw [RegistryManager.removeStorage, hremove] at hok ⊢
  obtain ⟨-, hunregister⟩ := unRegisterStorage_ok hok
  rw [withStorages, hunregister]
  exact { h with
    storage := h.storage.delete name
    group := h.group.deleteOther (by decide) name
    account := h.account.deleteOther (by decide) name
    ids := h.ids.deleteOther (by decide) name
    info := h.info_of_key storageKey_mem (entry_delete_other name)
    storageName := update_named h.storageName (by simp) }

/-! ### Groups -/

theorem Mirrors.putGroup (h : Mirrors c s) (group : InstanceGroup γ) : Mirrors c (setGroup
      { s with table := (s.table.loadAndSave registryGroupKey group.name (c.group.toJson group)).2 }
      group.name (some group)) where
  storage := h.storage.saveOther (by decide) _ _
  group := h.group.save group.name group
  account := h.account.saveOther (by decide) _ _
  ids := h.ids.saveOther (by decide) _ _
  info := h.info_of_key groupKey_mem (entry_save_other _ _)
  storageName := h.storageName
  groupName := by
    refine update_named h.groupName fun group' hgroup => ?_
    obtain rfl := some.inj hgroup
    rfl
  accountName := h.accountName

theorem Mirrors.createInstanceGroup (h : Mirrors c s) {group : InstanceGroup γ}
    (hok : (s.createInstanceGroup c group).1 = .ok) :
    Mirrors c (s.createInstanceGroup c group).2 := by
  rw [RegistryManager.createInstanceGroup] at hok ⊢
  by_cases hexists : (s.instanceGroupConfigs group.name).isSome
  · rw [if_pos hexists] at hok
    cases hok
  · rw [if_neg hexists, persist_loadAndSave]
    exact h.putGroup group

theorem Mirrors.updateInstanceGroup (h : Mirrors c s) {group : InstanceGroup γ} {version : Int}
    (hok : (s.updateInstanceGroup c group version).1 = .ok) :
    Mirrors c (s.updateInstanceGroup c group version).2 := by
  rw [RegistryManager.updateInstanceGroup] at hok ⊢
  cases hgroup : s.instanceGroupConfigs group.name with
  | none =>
    rw [hgroup] at hok
    cases hok
  | some current =>
    rw [hgroup] at hok
    dsimp only at hok ⊢
    by_cases hversion : version ≠ current.version ∨ group.version ≤ current.version
    · rw [if_pos hversion] at hok
      cases hok
    · rw [if_neg hversion, persist_loadAndSave]
      exact h.putGroup group

theorem Mirrors.removeInstanceGroup (h : Mirrors c s) (hok : (s.removeInstanceGroup name).1 = .ok) :
    Mirrors c (s.removeInstanceGroup name).2 := by
  rw [RegistryManager.removeInstanceGroup] at hok ⊢
  by_cases hmissing : (s.instanceGroupConfigs name).isNone
  · rw [if_pos hmissing] at hok
    cases hok
  · rw [if_neg hmissing] at hok ⊢
    rw [persist_ok hok]
    exact { h with
      storage := h.storage.deleteOther (by decide) name
      group := h.group.delete name
      account := h.account.deleteOther (by decide) name
      ids := h.ids.deleteOther (by decide) name
      info := h.info_of_key groupKey_mem (entry_delete_other name)
      groupName := update_named h.groupName (by simp) }

/-! ### Instances -/

theorem instanceInfos_setInfo (id : String) (info : Option (InstanceInfo μ)) :
    (s.setInfo id info).instanceInfos = update s.instanceInfos id info := rfl

theorem Mirrors.putInfo (h : Mirrors c s) (hid : id ∉ registryKeys) (info : InstanceInfo μ) :
    Mirrors c (setInfo
      { s with table := ((s.table.loadAndSave id id (c.info.toJson info)).2.loadAndSave
          registryInstanceKey id (c.text id)).2 }
      id (some info)) where
  storage := (h.storage.saveOther (ne_of_mem_of_not_mem storageKey_mem hid).symm id _).saveOther
    (by decide) id _
  group := (h.group.saveOther (ne_of_mem_of_not_mem groupKey_mem hid).symm id _).saveOther
    (by decide) id _
  account := (h.account.saveOther (ne_of_mem_of_not_mem accountKey_mem hid).symm id _).saveOther
    (by decide) id _
  ids := (h.ids.saveOther (ne_of_mem_of_not_mem instanceKey_mem hid).symm id _).save id info
  info id' info' hid' := by
    rcases eq_or_ne id' id with rfl | hne
    · rw [instanceInfos_setInfo, update_self] at hid'
      obtain rfl := some.inj hid'
      refine ⟨hid, (entry_save_other _ _ _ _ (ne_of_mem_of_not_mem instanceKey_mem hid)).trans ?_⟩
      rw [entry_loadAndSave, if_pos ⟨rfl, rfl⟩]
    · obtain ⟨hreserved, hentry⟩ :=
        h.info id' info' ((update_of_ne hne ..).symm.trans hid')
      refine ⟨hreserved,
        (entry_save_other _ _ _ _ (ne_of_mem_of_not_mem instanceKey_mem hreserved)).trans ?_⟩
      exact (entry_save_other _ _ _ _ (Ne.symm hne)).trans hentry
  storageName := h.storageName
  groupName := h.groupName
  accountName := h.accountName

theorem Mirrors.registerInstance [DecidableEq μ] (h : Mirrors c s) {group : String}
    (hid : id ∉ registryKeys) {params : InstanceParams μ}
    (hok : (s.registerInstance c group id params).1 = .ok) :
    Mirrors c (s.registerInstance c group id params).2 := by
  rw [RegistryManager.registerInstance] at hok ⊢
  cases hgroup : s.instanceGroupConfigs group with
  | none =>
    rw [hgroup] at hok
    cases hok
  | some config =>
    cases hinfo : s.instanceInfos id with
    | none =>
      dsimp only
      rw [persist_loadAndSave, persist_loadAndSave]
      exact h.putInfo hid _
    | some existing =>
      dsimp only
      split_ifs
      · exact h
      · exact h

theorem Mirrors.removeInstance (h : Mirrors c s) (hok : (s.removeInstance id).1 = .ok) :
    Mirrors c (s.removeInstance id).2 := by
  rw [RegistryManager.removeInstance] at hok ⊢
  by_cases hmissing : (s.instanceInfos id).isNone
  · rw [if_pos hmissing] at hok
    cases hok
  · obtain ⟨info, hinfo⟩ := ne_none_iff_exists'.mp (by simpa using hmissing)
    have hid := (h.info id info hinfo).1
    rw [if_neg hmissing] at hok ⊢
    have hids := persist_ok hok
    rw [hids] at hok ⊢
    rw [persist_ok hok]
    exact { h with
      storage := (h.storage.deleteOther (by decide) id).deleteOther
        (ne_of_mem_of_not_mem storageKey_mem hid).symm id
      group := (h.group.deleteOther (by decide) id).deleteOther
        (ne_of_mem_of_not_mem groupKey_mem hid).symm id
      account := (h.account.deleteOther (by decide) id).deleteOther
        (ne_of_mem_of_not_mem accountKey_mem hid).symm id
      ids := (h.ids.delete id).deleteOther (ne_of_mem_of_not_mem instanceKey_mem hid).symm id
      info := fun id' info' hid' => by
        have hne : id' ≠ id := by
          rintro rfl
          cases (update_self ..).symm.trans hid'
        obtain ⟨hreserved, hentry⟩ :=
          h.info id' info' ((update_of_ne hne ..).symm.trans hid')
        refine ⟨hreserved, (entry_delete_other _ _ _ (Ne.symm hne)).trans ?_⟩
        exact (entry_delete_other _ _ _ (ne_of_mem_of_not_mem instanceKey_mem hreserved)).trans
          hentry }

/-! ### Accounts -/

theorem Mirrors.addAccount (h : Mirrors c s) {account : Account}
    (hok : (s.addAccount c account).1 = .ok) : Mirrors c (s.addAccount c account).2 := by
  rw [RegistryManager.addAccount] at hok ⊢
  by_cases hexists : (s.accounts account.userName).isSome
  · rw [if_pos hexists] at hok
    cases hok
  · rw [if_neg hexists, persist_loadAndSave]
    exact { h with
      storage := h.storage.saveOther (by decide) _ _
      group := h.group.saveOther (by decide) _ _
      account := h.account.save account.userName account
      ids := h.ids.saveOther (by decide) _ _
      info := h.info_of_key accountKey_mem (entry_save_other _ _)
      accountName := by
        refine update_named h.accountName fun account' haccount => ?_
        obtain rfl := some.inj haccount
        rfl }

theorem Mirrors.deleteAccount (h : Mirrors c s) (hok : (s.deleteAccount name).1 = .ok) :
    Mirrors c (s.deleteAccount name).2 := by
  rw [RegistryManager.deleteAccount] at hok ⊢
  by_cases hmissing : (s.accounts name).isNone
  · rw [if_pos hmissing] at hok
    cases hok
  · rw [if_neg hmissing] at hok ⊢
    rw [persist_ok hok]
    exact { h with
      storage := h.storage.deleteOther (by decide) name
      group := h.group.deleteOther (by decide) name
      account := h.account.delete name
      ids := h.ids.deleteOther (by decide) name
      info := h.info_of_key accountKey_mem (entry_delete_other name)
      accountName := update_named h.accountName (by simp) }

/-! ## Requests -/

inductive Request (σ γ μ : Type)
  | addStorage (env : StorageEnv σ) (config : StorageConfig σ)
  | enableStorage (name : String)
  | disableStorage (name : String)
  | removeStorage (env : StorageEnv σ) (name : String)
  | createInstanceGroup (group : InstanceGroup γ)
  | updateInstanceGroup (group : InstanceGroup γ) (currentVersion : Int)
  | removeInstanceGroup (name : String)
  | registerInstance (instanceGroup instanceId : String) (params : InstanceParams μ)
  | removeInstance (instanceId : String)
  | addAccount (account : Account)
  | deleteAccount (userName : String)

variable [DecidableEq μ]

def serve (c : Codecs V σ γ μ) (s : RegistryManager V σ γ μ) :
    Request σ γ μ → ErrorCode × RegistryManager V σ γ μ
  | .addStorage env config => s.addStorage c env config
  | .enableStorage name => s.enableStorage c name
  | .disableStorage name => s.disableStorage c name
  | .removeStorage env name => s.removeStorage env name
  | .createInstanceGroup group => s.createInstanceGroup c group
  | .updateInstanceGroup group version => s.updateInstanceGroup c group version
  | .removeInstanceGroup name => s.removeInstanceGroup name
  | .registerInstance group id params => s.registerInstance c group id params
  | .removeInstance id => s.removeInstance id
  | .addAccount account => s.addAccount c account
  | .deleteAccount name => s.deleteAccount name

/-- Requests that answer EC_OK, from an empty registry. -/
def machine (c : Codecs V σ γ μ) : Lib.Machine (RegistryManager V σ γ μ) (Request σ γ μ) where
  init s := s = {}
  step s request := if (s.serve c request).1 = .ok then some (s.serve c request).2 else none

/-- No instance is called like a key of the registry, and no storage is added
as unavailable. -/
def Separate (_ : RegistryManager V σ γ μ) : Request σ γ μ → Prop
  | .registerInstance _ id _ => id ∉ registryKeys
  | .addStorage _ config => config.isAvailable = true
  | _ => True

theorem Mirrors.serve (h : Mirrors c s) (request : Request σ γ μ) (hsep : Separate s request)
    (hok : (s.serve c request).1 = .ok) : Mirrors c (s.serve c request).2 := by
  cases request with
  | addStorage env config => exact h.addStorage hsep hok
  | enableStorage name | disableStorage name => exact h.setStorageAvailable hok
  | removeStorage env name => exact h.removeStorage hok
  | createInstanceGroup group => exact h.createInstanceGroup hok
  | updateInstanceGroup group version => exact h.updateInstanceGroup hok
  | removeInstanceGroup name => exact h.removeInstanceGroup hok
  | registerInstance group id params => exact h.registerInstance hsep hok
  | removeInstance id => exact h.removeInstance hok
  | addAccount account => exact h.addAccount hok
  | deleteAccount name => exact h.deleteAccount hok

theorem mirrors_reach (h : (machine c).Reach Separate s) : Mirrors c s := by
  refine h.inv (fun s hs => ?_) fun s request s' hs hsep hstep => ?_
  · obtain rfl : s = {} := hs
    exact mirrors_init c
  · obtain ⟨hok, rfl⟩ := of_enabled hstep
    exact hs.serve request hsep hok

/-! ## Recovery -/

omit [DecidableEq μ]

theorem recover_entries {α : Type} {codec : Codec V α} {nameOf : α → String} {m : ValueMap V}
    {f : String → Option α} (hm : ∀ id, m.find id = (f id).map codec.toJson)
    (hname : ∀ name x, f name = some x → nameOf x = name) :
    m.entries.foldl (recoverEntry codec nameOf) (fun _ => none, 0) = (f, 0) := by
  rw [Lib.OrdMap.foldl_store_entries _ 0 (fun _ => codec.fromJson)]
  · congr 1
    funext id
    rw [hm id]
    cases f id with
    | none => rfl
    | some x => exact codec.parse_back x
  · intro acc id v hfind hfree
    rw [hm id] at hfind
    obtain ⟨x, hx, rfl⟩ := map_eq_some_iff.mp hfind
    simp [recoverEntry, codec.parse_back, hname id x hx, hfree]

/-- A backend that is there can be opened again. -/
def Reopens (env : StorageEnv σ) (s : RegistryManager V σ γ μ) : Prop :=
  ∀ name st, s.storages name = some st →
    env.creates st.config.type = true ∧ env.opens st.persisted = .ok

/-- A recovered backend: its config says what was persisted. -/
def Storage.recovered (st : Storage σ) : Storage σ := ⟨st.persisted, st.available⟩

theorem recoverStorageEntry_free {acc : StorageMap σ} {st : Storage σ} (hfree : acc name = none)
    (hname : st.config.globalUniqueName = name) (hcreates : env.creates st.config.type = true)
    (hopens : env.opens st.persisted = .ok) :
    recoverStorageEntry c env (acc, 0) (name, c.storage.toJson st.persisted)
      = (update acc name (some (Storage.recovered st)), 0) := by
  have hname' : st.persisted.globalUniqueName = name := hname
  have hcreates' : env.creates st.persisted.type = true := hcreates
  have hregister : acc.registerStorage env name st.persisted
      = (.ok, update acc name (some ⟨st.persisted, true⟩)) := by
    simp [registerStorage, hfree, hcreates', hopens]
  rw [recoverStorageEntry, c.storage.parse_back]
  simp only [hname', hfree, hregister]
  by_cases havail : st.available = true
  · have hflag : st.persisted.isAvailable = true := havail
    simp [hflag, Storage.recovered, havail]
  · have hflag : st.persisted.isAvailable = false := Bool.eq_false_iff.mpr havail
    rw [setAvailable_of_some (update_self ..)]
    simp [hflag, Storage.recovered, havail]

theorem recover_storages (h : Mirrors c s) (henv : s.Reopens env) :
    (s.table.load registryStorageKey).2.entries.foldl (recoverStorageEntry c env)
        (fun _ => none, 0)
      = (fun name => (s.storages name).map Storage.recovered, 0) := by
  rw [Lib.OrdMap.foldl_store_entries _ 0
    (fun _ v => (c.storage.fromJson v).map fun config => ⟨config, config.isAvailable⟩)]
  · congr 1
    funext name
    rw [h.storage.find_load]
    cases s.storages name with
    | none => rfl
    | some st => simp [c.storage.parse_back, Storage.recovered, Storage.persisted]
  · intro acc name v hfind hfree
    rw [h.storage.find_load] at hfind
    obtain ⟨st, hst, rfl⟩ := map_eq_some_iff.mp hfind
    obtain ⟨hcreates, hopens⟩ := henv name st hst
    rw [recoverStorageEntry_free hfree (h.storageName name st hst) hcreates hopens]
    simp [c.storage.parse_back, Storage.recovered, Storage.persisted]

theorem recover_infos (h : Mirrors c s) :
    (s.table.load registryInstanceKey).2.entries.foldl (recoverInstanceEntry c s.table)
        (fun _ => none, 0)
      = (s.instanceInfos, 0) := by
  rw [Lib.OrdMap.foldl_store_entries _ 0 (fun id _ => s.instanceInfos id)]
  · congr 1
    funext id
    rw [h.ids.find_load]
    cases s.instanceInfos id with
    | none => rfl
    | some info => rfl
  · intro acc id v hfind hfree
    rw [h.ids.find_load] at hfind
    obtain ⟨info, hinfo, -⟩ := map_eq_some_iff.mp hfind
    have hentry := (h.info id info hinfo).2
    obtain ⟨m, hm, hrecord⟩ := bind_eq_some_iff.mp hentry
    have hload : s.table.load id = (.ok, m) := by rw [load, hm]
    rw [recoverInstanceEntry]
    simp [hfree, hload, hrecord, c.info.parse_back, hinfo]

theorem doRecoverOnce_cleaned (h : Mirrors c s) (henv : s.Reopens env) :
    s.doCleanup.doRecoverOnce c env
      = (.ok,
        { s with
          storages := fun name => (s.storages name).map Storage.recovered
          recoverComplete := true }) := by
  have hcleaned : s.doCleanup = { table := s.table } := rfl
  rw [hcleaned, doRecoverOnce]
  dsimp only
  rw [recover_storages h henv, recover_infos h,
    recover_entries h.account.find_load h.accountName, recover_entries h.group.find_load h.groupName]
  rfl

/-- What recovery has to restore of a storage; the flag of the config is only
there for it. -/
def Storage.observed (st : Storage σ) : StorageConfig σ × Bool := (st.persisted, st.available)

theorem recovery_restores [DecidableEq μ] (c : Codecs V σ γ μ) (s : RegistryManager V σ γ μ)
    (h : (machine c).Reach Separate s) (env : StorageEnv σ) (henv : s.Reopens env) :
    let recovered := (s.doCleanup.doRecover c env).2
    (∀ name, (recovered.storages name).map Storage.observed
        = (s.storages name).map Storage.observed) ∧
      recovered.instanceGroupConfigs = s.instanceGroupConfigs ∧
      recovered.instanceInfos = s.instanceInfos ∧
      recovered.accounts = s.accounts ∧
      recovered.recoverComplete = true := by
  intro recovered
  have hrecovered : recovered = (s.doCleanup.doRecoverOnce c env).2 := rfl
  rw [hrecovered, doRecoverOnce_cleaned (mirrors_reach h) henv]
  refine ⟨fun name => ?_, rfl, rfl, rfl, rfl⟩
  dsimp only
  rw [map_map]
  rfl

/-! ## Runs -/

/-- Texts that remember what they were written from. -/
inductive Doc
  | text (s : String)
  | storage (config : StorageConfig Unit)
  | group (group : InstanceGroup Unit)
  | info (info : InstanceInfo Unit)
  | account (account : Account)
deriving DecidableEq

def docCodecs : Codecs Doc Unit Unit Unit where
  text := .text
  storage := ⟨.storage, fun | .storage config => some config | _ => none, fun _ => rfl⟩
  group := ⟨.group, fun | .group group => some group | _ => none, fun _ => rfl⟩
  info := ⟨.info, fun | .info info => some info | _ => none, fun _ => rfl⟩
  account := ⟨.account, fun | .account account => some account | _ => none, fun _ => rfl⟩

def workingEnv : StorageEnv Unit := ⟨fun _ => true, fun _ => .ok, fun _ => .ok⟩

def params : InstanceParams Unit := ⟨64, [("tp0", 1024)], (), [], 0⟩

/-- A registry with a disabled storage, a group and an instance. -/
def filled (instanceId : String) : List (Request Unit Unit Unit) :=
  [.addStorage workingEnv ⟨.nfs, "nfs_01", .other (), true⟩, .disableStorage "nfs_01",
    .createInstanceGroup ⟨"group1", "quota", 0, ()⟩, .registerInstance "group1" instanceId params]

def filledState : RegistryManager Doc Unit Unit Unit :=
  ((machine docCodecs).run {} (filled "instance1")).get (by decide +kernel)

theorem recovery_restores_filled : (filledState.storages "nfs_01").map Storage.observed
        = some (⟨.nfs, "nfs_01", .other (), false⟩, false) ∧
      ((filledState.doCleanup.doRecover docCodecs workingEnv).2.storages "nfs_01").map
          Storage.observed
        = (filledState.storages "nfs_01").map Storage.observed ∧
      (filledState.doCleanup.doRecover docCodecs workingEnv).2.instanceInfos
        = filledState.instanceInfos := by
  have hreach : (machine docCodecs).Reach Separate filledState :=
    ⟨{}, rfl, steps_of_run (some_get _).symm
      (allOk_of_forall
        (by simp [filled, Separate, show "instance1" ∉ registryKeys by decide]) _)⟩
  obtain ⟨hstorages, -, hinfos, -⟩ :=
    recovery_restores docCodecs filledState hreach workingEnv fun _ _ _ => ⟨rfl, rfl⟩
  exact ⟨by decide +kernel, hstorages "nfs_01", hinfos⟩

/-- The id of the instance is written over its own record. -/
def overwrittenState : RegistryManager Doc Unit Unit Unit :=
  ((machine docCodecs).run {} (filled "instance")).get (by decide +kernel)

theorem instance_key_not_recovered :
    (machine docCodecs).Reach anyAction overwrittenState ∧
      overwrittenState.Reopens workingEnv ∧
      overwrittenState.instanceInfos "instance"
        = some ⟨"quota", "group1", "instance", params⟩ ∧
      (overwrittenState.doCleanup.doRecover docCodecs workingEnv).2.instanceInfos "instance"
        = none := by
  refine ⟨reach_of_run rfl (some_get _).symm, fun _ _ _ => ⟨rfl, rfl⟩, ?_, ?_⟩
  · decide +kernel
  · decide +kernel

end RegistryManager

end TairKvCache.Registry
