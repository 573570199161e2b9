import TairKvCache.Searcher
import TairKvCache.LocalBackend.LruCache

/-!
# The two paths of a merge over the local backend

`BatchMergeLocationSpecsImpl` (`manager/meta_searcher.cc`) serves a request
with one location per key through `ReadModifyWriteSingleTargetLocations`, and
any other through `ReadModifyWriteTargetLocations` (`meta/meta_indexer.cc`).
Both are modelled here over the LRU cache of the local backend, so that what
the cache refuses for want of space follows from its charges and is not an
assumption about the environment.

Both paths split the request into the same batches and ask the same
`merge_one_location`. The single-location path has its own bookkeeping: it
pins what it read, writes through the pins, counts new keys one by one, and
compacts its arrays when the key limit is reached. The main result is that the
two leave the same indexer and report the same codes.
-/

namespace TairKvCache

open Lib

/-- The indexer over a local backend without a hot cache. -/
structure LocalIndexer where
  config : IndexerConfig
  cache : LruCache
  keyCount : Int := 0
  usage : DataStorageType → Nat := fun _ => 0

namespace LocalIndexer

/-! ## The generic path -/

/-- `ExecuteRmwUpsert` with `preserve_existing_updates_when_full`. -/
def executeRmwUpsert (ix : LocalIndexer) (c : LruCache) (ups : List RmwUpsert) :
    LruCache × List ErrorCode × Nat :=
  let newKeys := ((ups.filter (·.isNew)).map (·.item.key)).eraseDups
  let r : LruCache × List ErrorCode :=
    if ups.isEmpty then (c, [])
    else if ix.config.maxKeyCount < newKeys.length + ix.keyCount.toNat then
      let existing := ups.filter (!·.isNew)
      let r := if existing.isEmpty then (c, []) else c.upsert (existing.map (·.item))
      (r.1, ups.map fun u => labelled .nospc ((existing.map (·.index)).zip r.2) u.index)
    else c.upsert (ups.map (·.item))
  (r.1, r.2, (((ups.zip r.2).filter fun p => p.1.isNew ∧ p.2 = .ok).map
    (·.1.item.key)).eraseDups.length)

def targetDecisions {π : Type} (modifier : LocationModifier π) (ts : List Target)
    (reads : List (ErrorCode × List LocationRead)) : List (Decision π) :=
  List.zipWith (fun t r => decideLocations true modifier t r.1 r.2) ts reads

/-- One batch of `ReadModifyWriteTargetLocations`. Its only caller, the merge,
deletes nothing, so there is no delete sub-batch. -/
def targetBatch {π : Type} (modifier : LocationModifier π) (ix : LocalIndexer)
    (ts : List Target) : LocalIndexer × List (Nat × Outcome π) :=
  let r := ix.cache.getLocationsWithKeyStatus (ts.map (·.key)) (ts.map (·.ids))
  let ds := targetDecisions modifier ts r.2
  let ups := ds.filterMap Decision.upsert?
  let w := ix.executeRmwUpsert r.1 ups
  ({ ix with cache := w.1, keyCount := adjustKeyCountMeta ix.keyCount w.2.2 },
    ds.map fun d => (d.index,
      d.finish (labelled .ok ((ups.map (·.index)).zip w.2.1) d.index) true))

/-! ## The single-location path -/

/-- One key of the upsert arrays. -/
structure SingleRmw where
  index : Nat
  isNew : Bool
  upsert : LruCache.SingleUpsert

/-- The entry a decision adds to the upsert arrays. -/
def single? {π : Type} (id : LocationId) (readIndex : Nat) (d : Decision π) :
    Option SingleRmw :=
  match d.intent with
  | .upsert locs _ isNew => (locs.lookup id).map fun l => ⟨d.index, isNew, ⟨d.key, id, l, readIndex⟩⟩
  | _ => none

def singleDecisions {π : Type} (modifier : SingleModifier π) (ts : List Target)
    (reads : List (ErrorCode × LocationRead)) : List (Decision π) :=
  List.zipWith (fun t r => decideSingle modifier t.index t.key (t.ids.headD "") r.1 r.2) ts reads

def singleUpserts {π : Type} (ts : List Target) (ds : List (Decision π)) : List SingleRmw :=
  (ts.zip ds).zipIdx.filterMap fun p => single? (p.1.1.ids.headD "") p.2 p.1.2

/-- The write half. At the key limit the new keys are refused and the arrays
compacted to the stored ones. -/
def singleWrite (ix : LocalIndexer) (c : LruCache) (s : LruCache.Scratch)
    (ups : List SingleRmw) : LruCache × List (Nat × ErrorCode) × Nat :=
  if ups.isEmpty then (c.releaseBatch s.handles, [], 0)
  else if ix.config.maxKeyCount < ups.countP (·.isNew) + ix.keyCount.toNat then
    let refused := (ups.filter (·.isNew)).map fun u => (u.index, ErrorCode.nospc)
    let existing := ups.filter (!·.isNew)
    if existing.isEmpty then (c.releaseBatch s.handles, refused, 0)
    else
      let r := c.upsertSingleLocationsUsingRetainedHandlesInto s (existing.map (·.upsert))
      (r.1, refused ++ (existing.map (·.index)).zip r.2, 0)
  else
    let r := c.upsertSingleLocationsUsingRetainedHandlesInto s (ups.map (·.upsert))
    (r.1, (ups.map (·.index)).zip r.2, (ups.zip r.2).countP fun p => p.1.isNew ∧ p.2 = .ok)

/-- One batch of `ReadModifyWriteSingleTargetLocations`. -/
def singleBatch {π : Type} (modifier : SingleModifier π) (ix : LocalIndexer)
    (ts : List Target) : LocalIndexer × List (Nat × Outcome π) :=
  let r := ix.cache.getSingleLocationViewsWithKeyStatusInto (ts.map (·.key))
    (ts.map fun t => t.ids.headD "")
  let ds := singleDecisions modifier ts r.2.2
  let w := ix.singleWrite r.1 r.2.1 (singleUpserts ts ds)
  ({ ix with cache := w.1, keyCount := adjustKeyCountMeta ix.keyCount w.2.2 },
    ds.map fun d => (d.index, d.finish (labelled .ok w.2.1 d.index) true))

/-! ## The merge -/

def runBatches {π : Type}
    (step : LocalIndexer → List Target → LocalIndexer × List (Nat × Outcome π))
    (ix : LocalIndexer) (ts : List Target) : LocalIndexer × List (Nat × Outcome π) :=
  let r := runSlots step ix (ix.config.targetBatches ts)
  (r.1, r.2.flatten)

def adjustUsage (ix : LocalIndexer) (es : List UsageEntry) : LocalIndexer :=
  { ix with usage := Ledger.postAll (2 ^ 64) ix.usage es }

/-- Which of the two paths the request takes: `use_single_location_fast_path`. -/
inductive MergePath where
  | single | target
deriving DecidableEq

/-- `BatchMergeLocationSpecsImpl`, for a given path. -/
def batchMergeVia (path : MergePath) (ix : LocalIndexer) (env : SpecsEnv) (keys : List KeyType)
    (tasks : List (List MergeTask)) : LocalIndexer × ErrorCode × List ErrorCode :=
  if keys.length ≠ tasks.length then (ix, .badargs, [])
  else if !specsRequestOk MergeTask.resolvedLocationId MergeTask.incomingSize keys tasks then
    (ix, .badargs, keys.map fun _ => .badargs)
  else
    let ts := Indexer.targetsOf keys (tasks.map (·.map (·.resolvedLocationId)))
    let r := match path with
      | .single => runBatches (singleBatch (Indexer.singleMergeModifier env tasks)) ix ts
      | .target => runBatches (targetBatch (Indexer.mergeModifier env tasks)) ix ts
    let os := outcomes keys.length r.2
    (r.1.adjustUsage (usageOf keys.length r.2 fun i j c =>
        [usageChange (taskAt noMergeTask tasks i j).type c]),
      aggregateEc os, os.map fun o => firstError o.codes)

/-- `BatchMergeLocationSpecs`: the single-location path when every key has one
task. -/
def batchMergeLocationSpecs (ix : LocalIndexer) (env : SpecsEnv) (keys : List KeyType)
    (tasks : List (List MergeTask)) : LocalIndexer × ErrorCode × List ErrorCode :=
  ix.batchMergeVia (if tasks.all (·.length = 1) then .single else .target) env keys tasks

end LocalIndexer

end TairKvCache
