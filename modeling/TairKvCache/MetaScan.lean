import TairKvCache.Lib.Paging
import TairKvCache.GarbageCollector.Candidates

/-!
# Scans of the local metadata backend

`ScanLocationsForMaintenance` of `meta/meta_local_backend.cc`. The cache is a
table of shards and a cursor is the number of a shard: whole shards are read
from the cursor on, and the scan never stops inside one.
A number that is not a shard is `EC_BADARGS`, here `none`.
-/

namespace TairKvCache.MetaScan

open Lib GarbageCollector

/-- The shards of the cache, at least one, with what a maintenance read of
each key answers. -/
structure LocalTable where
  shards : List (List (KeyType × ErrorCode × CacheLocationMap))
  nonempty : shards ≠ []

namespace LocalTable

def keys (t : LocalTable) : List KeyType := t.shards.flatten.map (·.1)

/-- The page in the form the collector reads. -/
def toBatch (page : List (KeyType × ErrorCode × CacheLocationMap) × Nat) :
    MaintenanceScanBatch :=
  { nextCursor := page.2, keys := page.1.map (·.1)
    locations := page.1.map (·.2.2), locationResults := page.1.map (·.2.1) }

/-- `MetaLocalBackend::ScanLocationsForMaintenance`. -/
def scanLocationsForMaintenance (t : LocalTable) (limit cursor : Nat) :
    Option MaintenanceScanBatch :=
  (shardPage limit t.shards cursor).map toBatch

theorem scan_pages (t : LocalTable) (limit : Nat) :
    ∃ ls, Pages (t.scanLocationsForMaintenance limit) MaintenanceScanBatch.nextCursor 0 ls ∧
      ls.flatMap (·.keys) = t.keys := by
  obtain ⟨ls, hls, hflat⟩ := shardPages limit t.nonempty
  refine ⟨_, hls.map toBatch (fun c b hb => ?_) fun b => rfl, ?_⟩
  · rw [scanLocationsForMaintenance, hb, Option.map_some]
  · rw [keys, ← hflat, List.map_flatten, List.map_map, List.flatMap_map, List.flatMap_def]
    rfl

end LocalTable

end TairKvCache.MetaScan
