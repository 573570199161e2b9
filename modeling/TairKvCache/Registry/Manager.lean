import TairKvCache.Registry.Table

/-!
# The registry manager

`RegistryManager` with the part of `DataStorageManager` that it drives:
storages, instance groups, instances and accounts, each kept in memory and
persisted through `LoadAndSave` and `LoadAndDelete`.

What the requests do not look into stays abstract: the rest of a storage spec
(`σ`) and of a group (`γ`), the model deployment (`μ`), and the JSON texts
(`V`), which are only known to parse back to what they were written from.
What the storage backends answer to `Open` and `Close` is an input of each
call.
-/

namespace TairKvCache.Registry

open Function

variable {V σ γ μ : Type}

/-! ## Configs -/

inductive StorageSpec (σ : Type)
  | tairMemPool (mediaType : Nat) (rest : σ)
  | other (rest : σ)
deriving DecidableEq, Repr

/-- The cast to `TairMemPoolStorageSpec` and its media type. -/
def StorageSpec.mediaType? : StorageSpec σ → Option Nat
  | .tairMemPool mediaType _ => some mediaType
  | .other _ => none

structure StorageConfig (σ : Type) where
  type : DataStorageType
  globalUniqueName : String
  storageSpec : StorageSpec σ
  isAvailable : Bool := true
deriving DecidableEq, Repr

def isTairMempoolStorageType (type : DataStorageType) : Bool :=
  type = .tairMempool || type = .tairMempoolSsd

structure InstanceGroup (γ : Type) where
  name : String
  globalQuotaGroupName : String
  version : Int
  rest : γ
deriving DecidableEq, Repr

/-- What an instance is registered with. A group of location specs is its name
and the names of its specs. -/
structure InstanceParams (μ : Type) where
  blockSize : Int
  locationSpecInfos : List (String × Int)
  modelDeployment : μ
  locationSpecGroups : List (String × List String)
  defaultQueryType : Int
deriving DecidableEq, Repr

def sortLocationSpecGroups (groups : List (String × List String)) : List (String × List String) :=
  groups.insertionSort fun a b => a.1 ≤ b.1

structure InstanceInfo (μ : Type) where
  quotaGroupName : String
  instanceGroupName : String
  instanceId : String
  params : InstanceParams μ
deriving DecidableEq, Repr

inductive AccountRole
  | user
  | admin
deriving DecidableEq, Repr

structure Account where
  userName : String
  password : String
  role : AccountRole
deriving DecidableEq, Repr

/-- `ToJsonString` and `FromJsonString` of a config. -/
structure Codec (V α : Type) where
  toJson : α → V
  fromJson : V → Option α
  parse_back : ∀ x, fromJson (toJson x) = some x

structure Codecs (V σ γ μ : Type) where
  /-- A plain string as a stored text. -/
  text : String → V
  storage : Codec V (StorageConfig σ)
  group : Codec V (InstanceGroup γ)
  info : Codec V (InstanceInfo μ)
  account : Codec V Account

/-! ## The data storage manager -/

structure Storage (σ : Type) where
  config : StorageConfig σ
  available : Bool
deriving DecidableEq, Repr

/-- The config with the availability that is persisted "for recover". -/
def Storage.persisted (st : Storage σ) : StorageConfig σ :=
  { st.config with isAvailable := st.available }

abbrev StorageMap (σ : Type) := String → Option (Storage σ)

/-- What the backends answer at the time of a call. -/
structure StorageEnv (σ : Type) where
  /-- `CreateStorageBackend` knows the type. -/
  creates : DataStorageType → Bool
  opens : StorageConfig σ → ErrorCode
  closes : String → ErrorCode

namespace StorageMap

/-- `EnableStorage` and `DisableStorage`. -/
def setAvailable (storages : StorageMap σ) (name : String) (available : Bool) :
    ErrorCode × StorageMap σ :=
  match storages name with
  | none => (.noent, storages)
  | some st => (.ok, update storages name (some { st with available }))

/-- A backend that was opened is available. -/
def registerStorage (env : StorageEnv σ) (storages : StorageMap σ) (name : String)
    (config : StorageConfig σ) : ErrorCode × StorageMap σ :=
  if (storages name).isSome then (.exist, storages)
  else if !env.creates config.type then (.error, storages)
  else if env.opens config ≠ .ok then (env.opens config, storages)
  else (.ok, update storages name (some ⟨config, true⟩))

def unRegisterStorage (env : StorageEnv σ) (storages : StorageMap σ) (name : String) :
    ErrorCode × StorageMap σ :=
  if (storages name).isNone then (.noent, storages)
  else if env.closes name ≠ .ok then (env.closes name, storages)
  else (.ok, update storages name none)

variable {env : StorageEnv σ} {storages : StorageMap σ} {name : String} {config : StorageConfig σ}

theorem registerStorage_ok (h : (storages.registerStorage env name config).1 = .ok) :
    storages name = none ∧
      (storages.registerStorage env name config).2
        = update storages name (some ⟨config, true⟩) := by
  rw [registerStorage] at h ⊢
  by_cases hexists : (storages name).isSome
  · rw [if_pos hexists] at h
    cases h
  · rw [if_neg hexists] at h ⊢
    refine ⟨by simpa using hexists, ?_⟩
    by_cases hcreates : (!env.creates config.type) = true
    · rw [if_pos hcreates] at h
      cases h
    · rw [if_neg hcreates] at h ⊢
      by_cases hopens : env.opens config ≠ .ok
      · rw [if_pos hopens] at h
        exact absurd h hopens
      · rw [if_neg hopens]

theorem registerStorage_error (h : (storages.registerStorage env name config).1 ≠ .ok) :
    (storages.registerStorage env name config).2 = storages := by
  rw [registerStorage] at h ⊢
  split_ifs at h ⊢ with hexists hcreates hopens <;> first | rfl | exact absurd rfl h

theorem unRegisterStorage_ok (h : (storages.unRegisterStorage env name).1 = .ok) :
    (∃ st, storages name = some st) ∧
      (storages.unRegisterStorage env name).2 = update storages name none := by
  rw [unRegisterStorage] at h ⊢
  by_cases hmissing : (storages name).isNone
  · rw [if_pos hmissing] at h
    cases h
  · rw [if_neg hmissing] at h ⊢
    refine ⟨Option.ne_none_iff_exists'.mp (by simpa using hmissing), ?_⟩
    by_cases hcloses : env.closes name ≠ .ok
    · rw [if_pos hcloses] at h
      exact absurd h hcloses
    · rw [if_neg hcloses]

theorem unRegisterStorage_error (h : (storages.unRegisterStorage env name).1 ≠ .ok) :
    (storages.unRegisterStorage env name).2 = storages := by
  rw [unRegisterStorage] at h ⊢
  split_ifs at h ⊢ with hmissing hcloses <;> first | rfl | exact absurd rfl h

theorem setAvailable_of_some {st : Storage σ} (h : storages name = some st) (available : Bool) :
    storages.setAvailable name available
      = (.ok, update storages name (some { st with available })) := by
  rw [setAvailable, h]

end StorageMap

/-! ## The manager -/

structure RegistryManager (V σ γ μ : Type) where
  table : Table V := fun _ => none
  storages : StorageMap σ := fun _ => none
  instanceGroupConfigs : String → Option (InstanceGroup γ) := fun _ => none
  instanceInfos : String → Option (InstanceInfo μ) := fun _ => none
  accounts : String → Option Account := fun _ => none
  recoverComplete : Bool := false

def registryStorageKey : String := "storage"
def registryGroupKey : String := "instance_group"
def registryInstanceKey : String := "instance"
def registryAccountKey : String := "account"

namespace RegistryManager

/-- A change of the persisted maps, and of the rest once it is done. -/
def persist (s : RegistryManager V σ γ μ) (r : ErrorCode × Table V)
    (next : RegistryManager V σ γ μ → ErrorCode × RegistryManager V σ γ μ) :
    ErrorCode × RegistryManager V σ γ μ :=
  if r.1 ≠ .ok then (r.1, { s with table := r.2 }) else next { s with table := r.2 }

def withStorages (s : RegistryManager V σ γ μ) (r : ErrorCode × StorageMap σ) :
    ErrorCode × RegistryManager V σ γ μ :=
  (r.1, { s with storages := r.2 })

def setGroup (s : RegistryManager V σ γ μ) (name : String) (group : Option (InstanceGroup γ)) :
    RegistryManager V σ γ μ :=
  { s with instanceGroupConfigs := update s.instanceGroupConfigs name group }

def setInfo (s : RegistryManager V σ γ μ) (instanceId : String) (info : Option (InstanceInfo μ)) :
    RegistryManager V σ γ μ :=
  { s with instanceInfos := update s.instanceInfos instanceId info }

def setAccount (s : RegistryManager V σ γ μ) (userName : String) (account : Option Account) :
    RegistryManager V σ γ μ :=
  { s with accounts := update s.accounts userName account }

/-! ### Storages -/

def addStorage (c : Codecs V σ γ μ) (env : StorageEnv σ) (s : RegistryManager V σ γ μ)
    (config : StorageConfig σ) : ErrorCode × RegistryManager V σ γ μ :=
  s.persist
    (s.table.loadAndSave registryStorageKey config.globalUniqueName (c.storage.toJson config))
    fun s => s.withStorages (s.storages.registerStorage env config.globalUniqueName config)

/-- `EnableStorage` and `DisableStorage`, with `UpdateStorageAvailableStatus`. -/
def setStorageAvailable (c : Codecs V σ γ μ) (s : RegistryManager V σ γ μ) (name : String)
    (available : Bool) : ErrorCode × RegistryManager V σ γ μ :=
  match s.storages name with
  | none => (.noent, s)
  | some st =>
    s.persist
      (s.table.loadAndSave registryStorageKey name
        (c.storage.toJson { st.config with isAvailable := available }))
      fun s => s.withStorages (s.storages.setAvailable name available)

def enableStorage (c : Codecs V σ γ μ) (s : RegistryManager V σ γ μ) (name : String) :
    ErrorCode × RegistryManager V σ γ μ :=
  s.setStorageAvailable c name true

def disableStorage (c : Codecs V σ γ μ) (s : RegistryManager V σ γ μ) (name : String) :
    ErrorCode × RegistryManager V σ γ μ :=
  s.setStorageAvailable c name false

def removeStorage (env : StorageEnv σ) (s : RegistryManager V σ γ μ) (name : String) :
    ErrorCode × RegistryManager V σ γ μ :=
  s.persist (s.table.loadAndDelete registryStorageKey name)
    fun s => s.withStorages (s.storages.unRegisterStorage env name)

/-- The type of a TairMempool storage and its media type cannot be changed. -/
def immutableChanged (current requested : StorageConfig σ) : Bool :=
  if current.type ≠ requested.type then
    isTairMempoolStorageType current.type || isTairMempoolStorageType requested.type
  else if isTairMempoolStorageType current.type then
    match current.storageSpec.mediaType?, requested.storageSpec.mediaType? with
    | some media, some media' => media ≠ media'
    | _, _ => true
  else false

def updateRejected (s : RegistryManager V σ γ μ) (config : StorageConfig σ) : Bool :=
  (s.storages config.globalUniqueName).any fun st => immutableChanged st.config config

/-- The removal comes first, and the storage is gone when the addition fails. -/
def updateStorage (c : Codecs V σ γ μ) (env : StorageEnv σ) (s : RegistryManager V σ γ μ)
    (config : StorageConfig σ) : ErrorCode × RegistryManager V σ γ μ :=
  if s.updateRejected config then (.badargs, s)
  else
    let r := s.removeStorage env config.globalUniqueName
    if r.1 ≠ .ok then r else r.2.addStorage c env config

/-! ### Instance groups -/

def createInstanceGroup (c : Codecs V σ γ μ) (s : RegistryManager V σ γ μ)
    (group : InstanceGroup γ) : ErrorCode × RegistryManager V σ γ μ :=
  if (s.instanceGroupConfigs group.name).isSome then (.exist, s)
  else
    s.persist (s.table.loadAndSave registryGroupKey group.name (c.group.toJson group)) fun s =>
      (.ok, s.setGroup group.name (some group))

def updateInstanceGroup (c : Codecs V σ γ μ) (s : RegistryManager V σ γ μ)
    (group : InstanceGroup γ) (currentVersion : Int) : ErrorCode × RegistryManager V σ γ μ :=
  match s.instanceGroupConfigs group.name with
  | none => (.noent, s)
  | some current =>
    if currentVersion ≠ current.version ∨ group.version ≤ current.version then (.error, s)
    else
      s.persist (s.table.loadAndSave registryGroupKey group.name (c.group.toJson group)) fun s =>
        (.ok, s.setGroup group.name (some group))

def removeInstanceGroup (s : RegistryManager V σ γ μ) (name : String) :
    ErrorCode × RegistryManager V σ γ μ :=
  if (s.instanceGroupConfigs name).isNone then (.noent, s)
  else
    s.persist (s.table.loadAndDelete registryGroupKey name) fun s =>
      (.ok, s.setGroup name none)

/-! ### Instances -/

/-- `MismatchFields`, and the group the instance was registered with. -/
def mismatchFields [DecidableEq μ] (existing : InstanceInfo μ) (instanceGroup : String)
    (params : InstanceParams μ) : List String :=
  (if existing.instanceGroupName ≠ instanceGroup then ["instance_group_name"] else [])
    ++ (if existing.params.blockSize ≠ params.blockSize then ["block_size"] else [])
    ++ (if existing.params.locationSpecInfos ≠ params.locationSpecInfos then
        ["location_spec_infos"] else [])
    ++ (if existing.params.modelDeployment ≠ params.modelDeployment then
        ["model_deployment"] else [])
    ++ (if existing.params.locationSpecGroups ≠ sortLocationSpecGroups params.locationSpecGroups then
        ["location_spec_groups"] else [])
    ++ (if existing.params.defaultQueryType ≠ params.defaultQueryType then
        ["default_query_type"] else [])

/-- The record is written under the instance id as a key, then the id under
the key of all instances. -/
def registerInstance [DecidableEq μ] (c : Codecs V σ γ μ) (s : RegistryManager V σ γ μ)
    (instanceGroup instanceId : String) (params : InstanceParams μ) :
    ErrorCode × RegistryManager V σ γ μ :=
  match s.instanceGroupConfigs instanceGroup with
  | none => (.noent, s)
  | some group =>
    match s.instanceInfos instanceId with
    | some existing =>
      if mismatchFields existing instanceGroup params ≠ [] then (.duplicateEntity, s)
      else (.ok, s)
    | none =>
      let info : InstanceInfo μ :=
        ⟨group.globalQuotaGroupName, instanceGroup, instanceId,
          { params with
            locationSpecGroups := sortLocationSpecGroups params.locationSpecGroups }⟩
      s.persist (s.table.loadAndSave instanceId instanceId (c.info.toJson info)) fun s =>
        s.persist (s.table.loadAndSave registryInstanceKey instanceId (c.text instanceId))
          fun s => (.ok, s.setInfo instanceId (some info))

def removeInstance (s : RegistryManager V σ γ μ) (instanceId : String) :
    ErrorCode × RegistryManager V σ γ μ :=
  if (s.instanceInfos instanceId).isNone then (.noent, s)
  else
    s.persist (s.table.loadAndDelete registryInstanceKey instanceId) fun s =>
      s.persist (s.table.loadAndDelete instanceId instanceId) fun s =>
        (.ok, s.setInfo instanceId none)

/-! ### Accounts -/

def addAccount (c : Codecs V σ γ μ) (s : RegistryManager V σ γ μ) (account : Account) :
    ErrorCode × RegistryManager V σ γ μ :=
  if (s.accounts account.userName).isSome then (.exist, s)
  else
    s.persist
      (s.table.loadAndSave registryAccountKey account.userName (c.account.toJson account)) fun s =>
      (.ok, s.setAccount account.userName (some account))

def deleteAccount (s : RegistryManager V σ γ μ) (userName : String) :
    ErrorCode × RegistryManager V σ γ μ :=
  if (s.accounts userName).isNone then (.noent, s)
  else
    s.persist (s.table.loadAndDelete registryAccountKey userName) fun s =>
      (.ok, s.setAccount userName none)

/-! ### Cleanup and recovery -/

def doCleanup (s : RegistryManager V σ γ μ) : RegistryManager V σ γ μ :=
  { table := s.table }

/-- The loop of `RecoverAccountUnsafe` and `RecoverInstanceGroupUnsafe`. -/
def recoverEntry {α : Type} (codec : Codec V α) (nameOf : α → String)
    (acc : (String → Option α) × Nat) (e : String × V) : (String → Option α) × Nat :=
  match codec.fromJson e.2 with
  | none => (acc.1, acc.2 + 1)
  | some x =>
    if (acc.1 (nameOf x)).isSome then acc
    else (update acc.1 (nameOf x) (some x), acc.2)

def recoverStorageEntry (c : Codecs V σ γ μ) (env : StorageEnv σ) (acc : StorageMap σ × Nat)
    (e : String × V) : StorageMap σ × Nat :=
  match c.storage.fromJson e.2 with
  | none => (acc.1, acc.2 + 1)
  | some config =>
    match acc.1 config.globalUniqueName with
    | some existing =>
      if !config.isAvailable && existing.available then
        let r := acc.1.setAvailable config.globalUniqueName false
        (r.2, if r.1 ≠ .ok then acc.2 + 1 else acc.2)
      else acc
    | none =>
      let r := acc.1.registerStorage env config.globalUniqueName config
      if r.1 ≠ .ok then (r.2, acc.2 + 1)
      else if !config.isAvailable then
        let r' := r.2.setAvailable config.globalUniqueName false
        (r'.2, if r'.1 ≠ .ok then acc.2 + 1 else acc.2)
      else (r.2, acc.2)

/-- `instance_map[id]` is the empty text when the record is missing. -/
def recoverInstanceEntry (c : Codecs V σ γ μ) (table : Table V)
    (acc : (String → Option (InstanceInfo μ)) × Nat) (e : String × V) :
    (String → Option (InstanceInfo μ)) × Nat :=
  if (acc.1 e.1).isSome then acc
  else
    let r := table.load e.1
    if r.1 ≠ .ok then (acc.1, acc.2 + 1)
    else
      match c.info.fromJson ((r.2.find e.1).getD (c.text "")) with
      | none => (acc.1, acc.2 + 1)
      | some info => (update acc.1 e.1 (some info), acc.2)

def doRecoverOnce (c : Codecs V σ γ μ) (env : StorageEnv σ) (s : RegistryManager V σ γ μ) :
    ErrorCode × RegistryManager V σ γ μ :=
  let storages := (s.table.load registryStorageKey).2.entries.foldl (recoverStorageEntry c env)
    (s.storages, 0)
  let accounts := (s.table.load registryAccountKey).2.entries.foldl
    (recoverEntry c.account (·.userName)) (s.accounts, 0)
  let groups := (s.table.load registryGroupKey).2.entries.foldl
    (recoverEntry c.group (·.name)) (s.instanceGroupConfigs, 0)
  let infos := (s.table.load registryInstanceKey).2.entries.foldl
    (recoverInstanceEntry c s.table) (s.instanceInfos, 0)
  let errorCount := storages.2 + accounts.2 + groups.2 + infos.2
  (if 0 < errorCount then .error else .ok,
    { s with
      storages := storages.1
      accounts := accounts.1
      instanceGroupConfigs := groups.1
      instanceInfos := infos.1
      recoverComplete := s.recoverComplete || decide (errorCount = 0) })

/-- What is left to recover is retried in the background. -/
def doRecover (c : Codecs V σ γ μ) (env : StorageEnv σ) (s : RegistryManager V σ γ μ) :
    ErrorCode × RegistryManager V σ γ μ :=
  (.ok, (s.doRecoverOnce c env).2)

end RegistryManager

end TairKvCache.Registry
