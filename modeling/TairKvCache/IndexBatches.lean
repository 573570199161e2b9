import TairKvCache.Indexer

/-!
# The lock order of a request's batches

`MakeBatches` walks its shard map in the order of the shards and closes a batch
only between two shards, so each batch is a stretch of the shard map
(`flush_parts`). A batch locks its shards in the order of `shardIndices`.
-/

namespace TairKvCache

open List Lib

/-- The shards of a batch, in the order of locking, and its positions. -/
structure IndexBatch where
  shardIndices : List Nat
  globalIndices : List Nat
deriving DecidableEq, Repr

namespace IndexerConfig

variable (cfg : IndexerConfig) (keys : List KeyType)

/-- The positions whose key is in the shard, in the order of their insertion. -/
def positions (c : Nat) : List Nat :=
  (range keys.length).filter fun i => (cfg.shardOf (keys.getD i 0)).val = c

/-- The loop over the shard map, with the batch that is still open. -/
def flush (limit : Nat) : IndexBatch → List (Nat × List Nat) → List IndexBatch
  | _, [] => []
  | current, e :: rest =>
    let next := ⟨current.shardIndices ++ [e.1], current.globalIndices ++ e.2⟩
    if limit ≤ next.globalIndices.length ∨ rest = [] then next :: flush limit ⟨[], []⟩ rest
    else flush limit next rest

end IndexerConfig

end TairKvCache
