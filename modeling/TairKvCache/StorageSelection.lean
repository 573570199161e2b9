import TairKvCache.Types

/-!
# Where a write may go

`DataStorageSelector` (`manager/data_storage_selector.cc`): the storage a
write is sent to, by the preference of the instance group among its candidate
storages (`SelectCacheWriteDataStorageBackend`), and the admission of storages
named by the caller (`CheckExplicitWriteTargets`). Both ask whether the
capacity of the group and the quotas of the storage's type are reached, and
each adds up the usage of the group's instances in its own way: the selection
wraps and passes over an instance without an indexer, the admission saturates
and refuses everything then. An admitted storage need not be a candidate.

The type quotas are signed. The admission treats a negative one as exceeded;
the selection compares it as an unsigned number, so there it is no limit.
-/

namespace TairKvCache.StorageSelection

open List

inductive CachePreferStrategy where
  | unspecified | always3fs | prefer3fs | alwaysVcns3fs | preferVcns3fs | alwaysMooncake
  | preferMooncake | alwaysTairMempool | preferTairMempool | alwaysTairMempoolSsd
  | preferTairMempoolSsd

structure DataStorageBackend where
  name : String
  type : DataStorageType
  available : Bool
deriving DecidableEq

structure QuotaConfig where
  capacity : Int
  storageSpec : DataStorageType

/-- `cachePreferStrategy = none` is a group without a cache configuration. -/
structure InstanceGroup where
  capacity : Int
  quotaConfig : List QuotaConfig
  storageCandidates : List String
  cachePreferStrategy : Option CachePreferStrategy

/-- The usage counters of an instance, by base type. -/
abbrev Usage := DataStorageType → Nat

/-- The types that count towards the group's capacity, which are also the
ones a write can be sent to. -/
def countedTypes : List DataStorageType :=
  [.hf3fs, .mooncake, .tairMempool, .nfs, .dummy, .tairMempoolSsd]

def getStorageUsage (u : Usage) : Nat := (countedTypes.map u).sum % 2 ^ 64

/-! ## The selection -/

/-- An instance without a meta indexer is `none`. -/
abbrev Instances := List (Option Usage)

def calcGroupUsedSize (instances : Instances) : Nat :=
  ((instances.filterMap id).map getStorageUsage).sum % 2 ^ 64

def usedByType (instances : Instances) (type : DataStorageType) : Nat :=
  ((instances.filterMap id).map (· (toBaseType type))).sum % 2 ^ 64

/-- The comparison with a `uint64_t` converts the capacity. -/
def toUnsigned (n : Int) : Nat := (n % 2 ^ 64).toNat

def genStorageQuotaAvailTable (quotas : List QuotaConfig) (instances : Instances) :
    DataStorageType → Bool :=
  quotas.foldl (fun table q =>
    if toUnsigned q.capacity ≤ usedByType instances q.storageSpec then
      Function.update table (toBaseType q.storageSpec) false
    else table) fun type => type ∈ countedTypes

def getCandidates (availBackends : List DataStorageBackend) (configured : List String)
    (table : DataStorageType → Bool) : List DataStorageBackend :=
  configured.flatMap fun candidate => availBackends.filter fun b =>
    b.name = candidate && b.available && table (toBaseType b.type)

def selectByType (candidates : List DataStorageBackend) (target : DataStorageType)
    (canFallback : Bool) : Option DataStorageBackend :=
  (candidates.find? (·.type = target)).or (if canFallback then candidates.head? else none)

def select (candidates : List DataStorageBackend) : CachePreferStrategy → Option DataStorageBackend
  | .always3fs => selectByType candidates .hf3fs false
  | .prefer3fs => selectByType candidates .hf3fs true
  | .alwaysVcns3fs => selectByType candidates .vcnsHf3fs false
  | .preferVcns3fs => selectByType candidates .vcnsHf3fs true
  | .alwaysMooncake => selectByType candidates .mooncake false
  | .preferMooncake => selectByType candidates .mooncake true
  | .alwaysTairMempool => selectByType candidates .tairMempool false
  | .preferTairMempool => selectByType candidates .tairMempool true
  | .alwaysTairMempoolSsd => selectByType candidates .tairMempoolSsd false
  | .preferTairMempoolSsd => selectByType candidates .tairMempoolSsd true
  | .unspecified => selectByType candidates .unknown true

def groupQuotaReached (group : InstanceGroup) (used : Nat) : Bool :=
  group.capacity < 0 || group.capacity ≤ used

def candidatesOf (backends : List DataStorageBackend) (group : InstanceGroup)
    (instances : Instances) : List DataStorageBackend :=
  getCandidates (backends.filter (·.available)) group.storageCandidates
    (genStorageQuotaAvailTable group.quotaConfig instances)

def saturatingAdd (sum value : Nat) : Nat :=
  if 2 ^ 64 - 1 - sum < value then 2 ^ 64 - 1 else sum + value

def groupUsage (us : List Usage) : Nat := (us.map getStorageUsage).sum

def typeUsage (us : List Usage) (type : DataStorageType) : Nat := (us.map (· (toBaseType type))).sum

/-- The usage is below the capacity of the group and every quota of the type. -/
structure QuotasOpen (group : InstanceGroup) (us : List Usage) (type : DataStorageType) : Prop where
  total : groupUsage us < group.capacity
  byType : ∀ q ∈ group.quotaConfig, toBaseType q.storageSpec = toBaseType type →
    typeUsage us type < q.capacity

def Eligible (backends : List DataStorageBackend) (group : InstanceGroup) (instances : Instances)
    (b : DataStorageBackend) : Prop :=
  groupQuotaReached group (calcGroupUsedSize instances) = false ∧
    b ∈ candidatesOf backends group instances

/-- The type quotas are `int64_t` and not negative, and the sums of the usage
fit 64 bits. -/
structure InRange (group : InstanceGroup) (us : List Usage) : Prop where
  capacity : ∀ q ∈ group.quotaConfig, 0 ≤ q.capacity ∧ q.capacity < 2 ^ 63
  total : groupUsage us < 2 ^ 64
  byType : ∀ type, typeUsage us type < 2 ^ 64

theorem foldl_saturatingAdd (ns : List Nat) (acc : Nat) (h : acc + ns.sum < 2 ^ 64) :
    ns.foldl saturatingAdd acc = acc + ns.sum := by
  induction ns generalizing acc with
  | nil => rfl
  | cons n ns ih =>
    rw [sum_cons] at h ⊢
    have hadd : saturatingAdd acc n = acc + n := if_neg (by omega)
    rw [foldl_cons, hadd, ih _ (by omega), Nat.add_assoc]

theorem genStorageQuotaAvailTable_iff (quotas : List QuotaConfig) (instances : Instances)
    (type : DataStorageType) :
    genStorageQuotaAvailTable quotas instances type = true ↔ type ∈ countedTypes ∧
      ∀ q ∈ quotas, toBaseType q.storageSpec = type →
        usedByType instances q.storageSpec < toUnsigned q.capacity := by
  have go : ∀ table : DataStorageType → Bool, quotas.foldl (fun table q =>
      if toUnsigned q.capacity ≤ usedByType instances q.storageSpec then
        Function.update table (toBaseType q.storageSpec) false
      else table) table type = true ↔ table type = true ∧
      ∀ q ∈ quotas, toBaseType q.storageSpec = type →
        usedByType instances q.storageSpec < toUnsigned q.capacity := by
    induction quotas with
    | nil => simp
    | cons q qs ih =>
      intro table
      rw [foldl_cons, ih, forall_mem_cons]
      split
      · rename_i hle
        by_cases ht : toBaseType q.storageSpec = type
        · simp [ht, Nat.not_lt.mpr hle]
        · simp [ht, Function.update_of_ne (Ne.symm ht)]
      · rename_i hlt
        simp [Nat.not_le.mp hlt]
  rw [genStorageQuotaAvailTable, go, decide_eq_true_eq]

variable {backends : List DataStorageBackend} {group : InstanceGroup} {instances : Instances}

theorem groupQuotaReached_iff (used : Nat) :
    groupQuotaReached group used = false ↔ (used : Int) < group.capacity := by
  simp only [groupQuotaReached, Bool.or_eq_false_iff, decide_eq_false_iff_not]
  omega

theorem eligible_iff (h : InRange group (instances.filterMap id)) (b : DataStorageBackend) :
    Eligible backends group instances b ↔ b ∈ backends ∧ b.name ∈ group.storageCandidates ∧
      toBaseType b.type ∈ countedTypes ∧ b.available = true ∧
      QuotasOpen group (instances.filterMap id) b.type := by
  have htotal : calcGroupUsedSize instances = groupUsage (instances.filterMap id) :=
    Nat.mod_eq_of_lt h.total
  have hquota : ∀ q ∈ group.quotaConfig, toBaseType q.storageSpec = toBaseType b.type →
      (usedByType instances q.storageSpec < toUnsigned q.capacity ↔
        typeUsage (instances.filterMap id) b.type < q.capacity) := by
    intro q hq heq
    obtain ⟨hnonneg, hlt⟩ := h.capacity q hq
    have hused : usedByType instances q.storageSpec = typeUsage (instances.filterMap id) b.type := by
      rw [usedByType, heq]
      exact Nat.mod_eq_of_lt (h.byType b.type)
    have hcap : toUnsigned q.capacity = q.capacity.toNat :=
      congrArg Int.toNat (Int.emod_eq_of_lt hnonneg (by omega))
    rw [hused, hcap]
    omega
  simp only [Eligible, groupQuotaReached_iff, htotal, candidatesOf, getCandidates, mem_flatMap,
    mem_filter, Bool.and_eq_true, decide_eq_true_eq, genStorageQuotaAvailTable_iff]
  constructor
  · rintro ⟨hgroup, _, hname, ⟨hb, hav⟩, ⟨rfl, -⟩, htype, hq⟩
    exact ⟨hb, hname, htype, hav, hgroup,
      fun q hmem heq => (hquota q hmem heq).mp (hq q hmem heq)⟩
  · rintro ⟨hb, hname, htype, hav, hopen⟩
    exact ⟨hopen.total, _, hname, ⟨hb, hav⟩, ⟨rfl, hav⟩, htype,
      fun q hmem heq => (hquota q hmem heq).mpr (hopen.byType q hmem heq)⟩

end TairKvCache.StorageSelection
