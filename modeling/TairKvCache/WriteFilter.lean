import TairKvCache.HostMatch.Generic

/-!
# The write filter

`FilterWriteCache` and `FilterWriteCacheWithMinReplica` of
`manager/cache_manager.cc`: which blocks of a write request need no new
location. Both decide block by block and hand the same four outputs to
`StartWriteCache`: the mask of the blocks left out, and for the others the
keys, group names and cold-storage targets in three parallel vectors.

Everything the filter reads besides the request is in a `FilterEnv`. All
policies `genSelectLocationPolicy` builds are weight policies, so a policy is
its `GetWeight`.
-/

namespace TairKvCache.WriteFilter

open List

open HostMatch (LocationSpecGroup)

/-! ## What the filter reads -/

structure InstanceInfo where
  locationSpecNames : List String
  locationSpecGroups : List LocationSpecGroup
deriving Repr

/-- `MarkQueryResult`; `hasValidMark` as the query answers it. -/
structure MarkQueryResult where
  hasValidMark : Bool
  target : String
deriving Repr

structure FilterEnv where
  /-- `BatchGetLocation`, one map per key unless it fails. -/
  read : List KeyType → ErrorCode × List CacheLocationMap
  read_aligned : ∀ keys, (read keys).1 = .ok → (read keys).2.length = keys.length
  policy : Option (LocationId → CacheLocation → Nat)
  checkLocDataExist : Option (CacheLocation → Bool)
  instanceInfo : Option InstanceInfo
  tieredMigrationEnabled : Bool
  marks : List KeyType → List MarkQueryResult
  targetAllowed : String → Bool

/-- `std::lower_bound` over the sorted groups, and the test of what it finds. -/
def findGroup (groups : List LocationSpecGroup) (name : String) : Option LocationSpecGroup :=
  (groups.dropWhile (·.name < name)).head?.filter (·.name = name)

variable (env : FilterEnv)

/-- `requestedSpecNames`: none for a block without a (registered) group. -/
def requestedSpecNames (names : List String) (i : Nat) : Option (List String) :=
  env.instanceInfo.bind fun info => (names[i]?.filter (· ≠ "")).bind fun name =>
    (findGroup info.locationSpecGroups name).map (·.specNames)

def allSpecNames : List String := env.instanceInfo.elim [] (·.locationSpecNames)

/-- A serving location whose data is gone. -/
def stale (l : CacheLocation) : Bool := l.status = .serving && env.checkLocDataExist.any (!· l)

/-- `out_prune_loc_ids` of every `ExistsForWrite`. -/
def pruneLocIds (m : CacheLocationMap) : List LocationId :=
  (m.entries.filter fun e => stale env e.2 && !isEventReportStorageType e.2.type).map (·.1)

def covers (requested : List String) (l : CacheLocation) : Bool :=
  requested.all fun name => l.locationSpecs.any (·.name = name)

/-- The locations the loops of `ExistsForWrite` count. With no name requested
that is the block-level overload. -/
def present (weight : LocationId → CacheLocation → Nat) (requested : List String)
    (m : CacheLocationMap) : List LocationId :=
  (m.entries.filter fun e => e.2.status ≠ .notFound && !stale env e.2 && 0 < weight e.1 e.2
    && covers requested e.2).map (·.1)

/-- `CollectCoveredSpecNames` for `CLS_SERVING` and `CLS_WRITING`. -/
def collectCoveredSpecNames (m : CacheLocationMap) (storage : String) (exclude : List LocationId) :
    List String :=
  (m.entries.filter fun e => (e.2.status = .serving || e.2.status = .writing)
    && e.1 ∉ exclude).flatMap fun e => (e.2.locationSpecs.filter fun spec =>
      (StandardUri.parse spec.uri).valid && (StandardUri.parse spec.uri).hostname = storage).map
        (·.name)

def hasServingOrWritingLocOnStorage (m : CacheLocationMap) (storage : String)
    (requested : List String) (exclude : List LocationId) : Bool :=
  let covered := collectCoveredSpecNames m storage exclude
  if requested.isEmpty then !covered.isEmpty else requested.all (· ∈ covered)

/-- What the loop over the blocks leaves for one of them: `skip_write_flags`,
and the target handed on if the block is written. -/
structure Decision where
  skip : Bool
  target : String
deriving DecidableEq, Repr

variable (weight : LocationId → CacheLocation → Nat) (names : List String)

/-- The loop body of `FilterWriteCache`: a target overrides the policy. -/
def decideBlock (i : Nat) (m : CacheLocationMap) (target : String) : Decision :=
  let requested := requestedSpecNames env names i
  ⟨if target = "" then present env weight (requested.getD []) m ≠ []
    else hasServingOrWritingLocOnStorage m target (requested.getD (allSpecNames env))
      (pruneLocIds env m), target⟩

structure FilterResult where
  newKeys : List KeyType
  newGroupNames : List String
  newTieredTargets : List String
  blockMask : BlockMask
  /-- The request handed to `submit_del_req`. -/
  prune : List (KeyType × List LocationId)
deriving DecidableEq, Repr

/-- The elements at the indices a mask leaves. -/
def unmasked {α : Type} (masked : Nat → Bool) (xs : List α) : List α :=
  (xs.zipIdx.filter fun p => !masked p.2).map (·.1)

section Outputs

variable {α : Type}

end Outputs

/-- What `StartWriteCache` relies on, with `skips` the blocks left out and
`targets` the storages handed on. -/
structure Consistent (keys : List KeyType) (skips : List Bool) (targets : List String)
    (r : FilterResult) : Prop where
  mask_valid : isBlockMaskValid r.blockMask keys.length = true
  masked_iff : ∀ i (h : i < skips.length), isIndexInMaskRange r.blockMask i = skips[i]
  keys_eq : r.newKeys = unmasked (isIndexInMaskRange r.blockMask) keys
  names_eq : r.newGroupNames = unmasked (isIndexInMaskRange r.blockMask) names
  targets_eq : r.newTieredTargets = unmasked (isIndexInMaskRange r.blockMask) targets
  offset_prefix : ∀ n, r.blockMask = .offset n → ∀ i (h : i < skips.length), skips[i] = (i < n)

variable {names} {keys : List KeyType}

variable (minReplicaCount : Int)

end TairKvCache.WriteFilter
