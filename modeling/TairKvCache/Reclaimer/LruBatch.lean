import TairKvCache.Types

/-!
# The oldest keys of a sample

`MakeBatchByLRUWithSize` (`manager/cache_reclaimer.cc`) makes the batch of a
reclaim round from sampled keys, which may repeat.
-/

namespace TairKvCache.Reclaimer

open List

/-- `std::sort` by access time: the order of equal times is left open. -/
structure TimeSort where
  sort : List (KeyType × Int) → List (KeyType × Int)
  perm : ∀ l, (sort l).Perm l
  sorted : ∀ l, (sort l).Pairwise (·.2 ≤ ·.2)

instance : Inhabited TimeSort where
  default :=
    ⟨List.insertionSort (·.2 ≤ ·.2), perm_insertionSort _, pairwise_insertionSort _⟩

/-- The access time of a sampled key; one that is missing, or that
`StrToInt64` does not parse, counts as 0. -/
def lruTime (strToInt64 : String → Option Int) (properties : PropertyMap) : Int :=
  ((properties.lookup "BP#lru_time").bind strToInt64).getD 0

/-- The loop over `key_tp_vec`: insert keys until `deduped_batch` has `size`. -/
def dedupBatch (size : Nat) (batch : List KeyType) : List (KeyType × Int) → List KeyType
  | [] => batch
  | p :: rest =>
    if p.1 ∈ batch then dedupBatch size batch rest
    else if batch.length + 1 = size then p.1 :: batch
    else dedupBatch size (p.1 :: batch) rest

def keyTimes (strToInt64 : String → Option Int) (sampled : List (KeyType × PropertyMap)) :
    List (KeyType × Int) := sampled.map fun p => (p.1, lruTime strToInt64 p.2)

/-- `MakeBatchByLRUWithSize` on the keys and the property maps read for them. -/
def makeBatchByLRUWithSize (time : TimeSort) (strToInt64 : String → Option Int)
    (sampled : List (KeyType × PropertyMap)) (batchingSize : Nat) : List KeyType :=
  if batchingSize = 0 then []
  else dedupBatch (min batchingSize sampled.length) []
    (if batchingSize < sampled.length then time.sort (keyTimes strToInt64 sampled)
      else keyTimes strToInt64 sampled)

/-- The loop takes the keys of what it has passed, and stops at the end or with
a full batch. -/
theorem dedupBatch_spec {size : Nat} {batch : List KeyType} {l : List (KeyType × Int)}
    (hnd : batch.Nodup) (hle : batch.length ≤ size) (hlt : l ≠ [] → batch.length < size) :
    ∃ pre suf, l = pre ++ suf ∧
      (∀ k, k ∈ dedupBatch size batch l ↔ k ∈ batch ∨ k ∈ pre.map (·.1)) ∧
      (dedupBatch size batch l).Nodup ∧ (dedupBatch size batch l).length ≤ size ∧
      (suf = [] ∨ (dedupBatch size batch l).length = size) := by
  induction l generalizing batch with
  | nil => exact ⟨[], [], rfl, by simp [dedupBatch], hnd, hle, .inl rfl⟩
  | cons p rest ih =>
    have hlt := hlt (cons_ne_nil _ _)
    rw [dedupBatch]
    split_ifs with hmem hfull
    · obtain ⟨pre, suf, rfl, hkeys, hrest⟩ := ih hnd hle fun _ => hlt
      refine ⟨p :: pre, suf, rfl, fun k => ?_, hrest⟩
      rw [hkeys, map_cons, mem_cons]
      exact ⟨Or.imp_right .inr, Or.rec .inl (Or.rec (fun h => .inl (h ▸ hmem)) .inr)⟩
    · exact ⟨[p], rest, rfl, by simp [or_comm], hnd.cons hmem, hfull.le, .inr hfull⟩
    · have hnext : (p.1 :: batch).length < size := by rw [length_cons]; omega
      obtain ⟨pre, suf, rfl, hkeys, hrest⟩ := ih (hnd.cons hmem) hnext.le fun _ => hnext
      exact ⟨p :: pre, suf, rfl, fun k => by simp [hkeys, or_left_comm, or_assoc], hrest⟩

/-- The batch has as many distinct keys as there are and fit, and nothing left
out is older than a key of the batch, which is as old as its oldest sample. -/
theorem makeBatchByLRUWithSize_oldest (time : TimeSort) (strToInt64 : String → Option Int)
    (sampled : List (KeyType × PropertyMap)) (batchingSize : Nat) :
    let batch := makeBatchByLRUWithSize time strToInt64 sampled batchingSize
    batch.Nodup ∧ batch ⊆ sampled.map (·.1) ∧
      batch.length = min batchingSize (sampled.map (·.1)).dedup.length ∧
      ∀ p ∈ keyTimes strToInt64 sampled, p.1 ∉ batch → ∀ k ∈ batch,
        ∃ q ∈ keyTimes strToInt64 sampled, q.1 = k ∧ q.2 ≤ p.2 := by
  unfold makeBatchByLRUWithSize
  by_cases hzero : batchingSize = 0
  · simp [hzero]
  rw [if_neg hzero]
  have hfst : (keyTimes strToInt64 sampled).map (·.1) = sampled.map (·.1) := by simp [keyTimes]
  have hlen : (keyTimes strToInt64 sampled).length = sampled.length := by simp [keyTimes]
  generalize hl : (if batchingSize < sampled.length then time.sort _ else _) = l
  have hperm : l.Perm (keyTimes strToInt64 sampled) := by
    rw [← hl]
    split_ifs
    · exact time.perm _
    · exact .refl _
  have hsize := hperm.length_eq.trans hlen
  obtain ⟨pre, suf, rfl, hkeys, hnd, hfits, hend⟩ := dedupBatch_spec (l := l) nodup_nil
    (Nat.zero_le (min batchingSize sampled.length)) fun hne =>
      lt_min (Nat.pos_of_ne_zero hzero) (hsize ▸ length_pos_of_ne_nil hne)
  generalize dedupBatch _ [] (pre ++ suf) = batch at hkeys hnd hfits hend ⊢
  simp only [not_mem_nil, false_or] at hkeys
  have hall : ∀ k, k ∈ sampled.map (·.1) ↔ k ∈ (pre ++ suf).map (·.1) := fun k => by
    rw [← hfst, (hperm.map (·.1)).mem_iff]
  have hsub : batch ⊆ sampled.map (·.1) := fun k hk => by
    rw [hall, map_append]
    exact mem_append_left _ ((hkeys k).mp hk)
  rw [length_append] at hsize
  refine ⟨hnd, hsub, ?_, fun p hp hout k hk => ?_⟩
  · have hle := (hnd.subperm fun k hk => mem_dedup.mpr (hsub hk)).length_le
    have hdedup := (dedup_sublist (sampled.map (·.1))).length_le
    rw [length_map] at hdedup
    rcases hend with rfl | hfull
    · -- everything was passed, so every key is there
      have hge := ((sampled.map (·.1)).nodup_dedup.subperm fun k hk => (hkeys k).mpr (by
        rwa [mem_dedup, hall, append_nil] at hk)).length_le
      omega
    · omega
  · have hrest : p ∈ suf := by
      refine (mem_append.mp (hperm.mem_iff.mpr hp)).resolve_left fun h => ?_
      exact hout ((hkeys p.1).mpr (mem_map_of_mem h))
    obtain ⟨q, hq, rfl⟩ := mem_map.mp ((hkeys k).mp hk)
    refine ⟨q, hperm.mem_iff.mp (mem_append_left _ hq), rfl, ?_⟩
    -- the batch is full before the end, so the sample was sorted
    have hpre := (hnd.subperm fun k hk => (hkeys k).mp hk).length_le
    have hsuf := length_pos_of_mem hrest
    have hfull := hend.resolve_left (ne_nil_of_mem hrest)
    rw [length_map] at hpre
    rw [if_pos (by omega)] at hl
    exact (pairwise_append.mp (hl ▸ time.sorted _)).2.2 q hq p hrest

end TairKvCache.Reclaimer
