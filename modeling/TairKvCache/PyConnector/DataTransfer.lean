import TairKvCache.PyConnector.TpCoordinator

/-!
# Completion callbacks of the transfer tasks

A rank's transfer tasks report one flag per manager block and group, flattened
group after group: `True`, `False`, or `None` where the group holds no data for
the block by design. Both completion callbacks fold them into one verdict per
block, entry `i` counting for block `i % num_blocks`, and send it to the
coordinator.
-/

namespace TairKvCache.PyConnector

/-- One turn of the merging loop: `None` neither passes nor fails the block. -/
def mergeEntry (numBlocks : Nat) (merged : List (Option Bool)) (p : Option Bool × Nat) :
    List (Option Bool) :=
  match p.1 with
  | none => merged
  | some ok => merged.modify (p.2 % numBlocks) fun cur => some (cur.getD true && ok)

/-- A block no group reported anything for counts as failed. -/
def mergeVerdicts (numBlocks : Nat) (flat : List (Option Bool)) : List Bool :=
  (flat.zipIdx.foldl (mergeEntry numBlocks) (List.replicate numBlocks none)).map (·.getD false)

def createSaveDoneCallback (reqId : String) (tpRank : Nat) (writeSessionId : String)
    (numBlocks : Nat) (flat : List (Option Bool)) : SendBlockFinishedEvent :=
  ⟨reqId, tpRank, writeSessionId, mergeVerdicts numBlocks flat⟩

/-- `block_ids` of the blocks that did not load. -/
def failedBlockIds (blockIds : List Nat) (merged : List Bool) : List Nat :=
  (blockIds.zip merged).filterMap fun p => if p.2 then none else some p.1

def createLoadDoneCallback (reqId : String) (tpRank epoch : Nat) (blockIds : List Nat)
    (numBlocks : Nat) (reportFailures : Bool) (flat : List (Option Bool)) :
    LoadBlockFinishedEvent :=
  ⟨reqId, tpRank, epoch,
    if reportFailures then failedBlockIds blockIds (mergeVerdicts numBlocks flat) else []⟩

theorem length_mergeEntry (numBlocks : Nat) (merged : List (Option Bool))
    (p : Option Bool × Nat) : (mergeEntry numBlocks merged p).length = merged.length := by
  unfold mergeEntry
  split
  · rfl
  · exact List.length_modify _ _ _

theorem length_foldl_mergeEntry (numBlocks : Nat) (ps : List (Option Bool × Nat))
    (merged : List (Option Bool)) :
    (ps.foldl (mergeEntry numBlocks) merged).length = merged.length := by
  induction ps generalizing merged with
  | nil => rfl
  | cons p ps ih => rw [List.foldl_cons, ih, length_mergeEntry]

/-- Every rank reports one verdict per block, whatever its tasks did. -/
theorem length_mergeVerdicts (numBlocks : Nat) (flat : List (Option Bool)) :
    (mergeVerdicts numBlocks flat).length = numBlocks := by
  rw [mergeVerdicts, List.length_map, length_foldl_mergeEntry, List.length_replicate]

end TairKvCache.PyConnector
