import Mathlib

/-!
# The sampling LRU eviction policy

`LruEvictionPolicy::EvictBlocks` takes more blocks than it evicts off the back
of the shard lists, ranks them by access time, evicts the first ones and puts
the others back.

With one shard a list that is ordered by access time has its oldest blocks at
the back, so the right blocks are evicted, however many are sampled. The
others are pushed to the back one by one, the oldest first: two or more of
them come back in the reverse order, and later calls evict the newer ones.
-/

namespace TairKvCache.Optimizer

open List

def int64Max : Nat := 2 ^ 63 - 1

structure BlockEntry where
  address : Nat
  key : Int
  deriving DecidableEq

/-- A block in a list, with its access time in the tier's `location_map` entry. -/
structure LRUListNode where
  block : BlockEntry
  accessTime : Nat
  deriving DecidableEq

/-- The parameters as the constructor corrects them. -/
structure LruParams where
  shardCount : Nat
  sampleTimes : Nat
  /-- `amplification_factor_ * count` as a `size_t`. -/
  amplify : Nat → Nat
  shardCount_pos : 0 < shardCount
  sampleTimes_pos : 0 < sampleTimes

/-- `shard_lists_`, each from the back to the front. Their nodes are those of
`node_map_`. -/
structure LruEvictionPolicy where
  shardLists : Nat → List LRUListNode := fun _ => []

/-! ## Partial sorting -/

/-- `std::partial_sort` by access time: the first `count` nodes are those of a
sorted list; the order of equal times, and of the other nodes, is left open. -/
structure PartialSort where
  sort : Nat → List LRUListNode → List LRUListNode
  perm : ∀ count l, sort count l ~ l
  sorted : ∀ count l, ∃ m, m ~ l ∧ m.Pairwise (·.accessTime ≤ ·.accessTime) ∧
    (sort count l).take count = m.take count

abbrev Aging (l : List LRUListNode) : Prop := l.Pairwise (·.accessTime < ·.accessTime)

theorem PartialSort.take_eq (sort : PartialSort) {l : List LRUListNode} (hl : Aging l)
    (count : Nat) : (sort.sort count l).take count = l.take count := by
  obtain ⟨m, hperm, hsorted, htake⟩ := sort.sorted count l
  have hnd : (l.map (·.accessTime)).Nodup := pairwise_map.mpr (hl.imp ne_of_lt)
  rw [htake, hperm.eq_of_pairwise (fun a b ha hb hab hba => ?_) hsorted (hl.imp le_of_lt)]
  exact inj_on_of_nodup_map hnd (hperm.subset ha) hb (le_antisymm hab hba)

/-! ## The policy -/

namespace LruEvictionPolicy

variable (p : LruParams) (sort : PartialSort) (s : LruEvictionPolicy)

def size : Nat := ((range p.shardCount).map fun i => (s.shardLists i).length).sum

def getShardIndex (block : BlockEntry) : Nat := (block.key % 2 ^ 64).toNat % p.shardCount

def setShard (i : Nat) (l : List LRUListNode) : LruEvictionPolicy :=
  ⟨Function.update s.shardLists i l⟩

@[simp] theorem setShard_self (i : Nat) (l : List LRUListNode) :
    (s.setShard i l).shardLists i = l :=
  Function.update_self ..

def getShardTailTime (i : Nat) : Nat := ((s.shardLists i).head?.map (·.accessTime)).getD int64Max

/-- A block without a location in the tier gets one and `OnBlockWritten`. -/
def onBlockWritten (block : BlockEntry) (timestamp : Nat) : LruEvictionPolicy :=
  let i := getShardIndex p block
  s.setShard i (s.shardLists i ++ [⟨block, timestamp⟩])

/-- `OnBlockAccessed`, and the time that `RadixTreeIndex` writes after it. -/
def onBlockAccessed (block : BlockEntry) (timestamp : Nat) : LruEvictionPolicy :=
  let i := getShardIndex p block
  if (s.shardLists i).any (·.block = block) then
    s.setShard i ((s.shardLists i).filter (·.block ≠ block) ++ [⟨block, timestamp⟩])
  else s

/-- Unlinks up to `count` nodes at the back. -/
def sampleFromShard (i count : Nat) : List LRUListNode × LruEvictionPolicy :=
  ((s.shardLists i).take count, s.setShard i ((s.shardLists i).drop count))

/-- The shard with the oldest block at its back. -/
def oldestShard : Option Nat :=
  ((range p.shardCount).foldl (fun oldest i =>
    if (s.shardLists i).isEmpty then oldest
    else if s.getShardTailTime i < oldest.2 then (some i, s.getShardTailTime i)
    else oldest) (none, int64Max)).1

def sampleRounds (amplifiedCount perShardCount : Nat) : Nat → LruEvictionPolicy →
    List LRUListNode → List LRUListNode × LruEvictionPolicy
  | 0, s, candidates => (candidates, s)
  | rounds + 1, s, candidates =>
    match s.oldestShard p with
    | none => (candidates, s)
    | some i =>
      let (sampled, s) := s.sampleFromShard i perShardCount
      let candidates := candidates ++ sampled
      if amplifiedCount ≤ candidates.length then (candidates, s)
      else sampleRounds amplifiedCount perShardCount rounds s candidates

/-- `push_back` of one candidate after the other, each to its shard. -/
def returnCandidates (candidates : List LRUListNode) : LruEvictionPolicy :=
  candidates.foldl (fun s node =>
    let i := getShardIndex p node.block
    s.setShard i (node :: s.shardLists i)) s

def amplifiedCount (count : Nat) : Nat := max (p.amplify count) count

/-- The evicted blocks, with the access times they had. -/
def evictBlocks (count : Nat) : List LRUListNode × LruEvictionPolicy :=
  if s.size p = 0 ∨ count = 0 then ([], s)
  else
    let numRounds := min p.sampleTimes p.shardCount
    let perShardCount := (amplifiedCount p count + numRounds - 1) / numRounds
    let (candidates, s) := sampleRounds p (amplifiedCount p count) perShardCount numRounds s []
    if candidates.length ≤ count then (candidates, s)
    else
      let sorted := sort.sort count candidates
      (sorted.take count, s.returnCandidates p (sorted.drop count))

/-! ## One shard -/

variable {p sort s} {next : Nat}

/-- The list is ordered by access time, the oldest block at the back. -/
structure Ordered (s : LruEvictionPolicy) (next : Nat) : Prop where
  aging : Aging (s.shardLists 0)
  timed : ∀ node ∈ s.shardLists 0, node.accessTime < next
  bound : next ≤ int64Max

theorem size_one (hone : p.shardCount = 1) : s.size p = (s.shardLists 0).length := by
  simp [size, hone]

theorem sampleRounds_one (hone : p.shardCount = 1) (h : s.Ordered next)
    (hne : s.shardLists 0 ≠ []) (n : Nat) :
    sampleRounds p n n 1 s [] = s.sampleFromShard 0 n := by
  obtain ⟨node, l, hl⟩ := exists_cons_of_ne_nil hne
  have htail : s.getShardTailTime 0 < int64Max := by
    rw [getShardTailTime, hl]
    exact (h.timed node (by simp [hl])).trans_le h.bound
  have holdest : s.oldestShard p = some 0 := by
    simp [oldestShard, hone, hl, htail]
  rw [sampleRounds, holdest]
  simp [sampleRounds]

/-- Pushing the candidates back turns their order around. -/
theorem returnCandidates_one (hone : p.shardCount = 1) (candidates : List LRUListNode)
    (s : LruEvictionPolicy) :
    (s.returnCandidates p candidates).shardLists 0 = candidates.reverse ++ s.shardLists 0 := by
  induction candidates generalizing s with
  | nil => rfl
  | cons node l ih =>
    rw [returnCandidates, foldl_cons]
    refine (ih _).trans ?_
    simp [setShard, getShardIndex, hone, Nat.mod_one]

/-- The blocks at the back are evicted and the others stay, in their order if
at most one of them was sampled. -/
theorem evictBlocks_one (hone : p.shardCount = 1) (h : s.Ordered next) (count : Nat) :
    ∃ s', s.evictBlocks p sort count = ((s.shardLists 0).take count, s') ∧
      s'.shardLists 0 ~ (s.shardLists 0).drop count ∧
      (min (amplifiedCount p count) (s.size p) ≤ count + 1 →
        s'.shardLists 0 = (s.shardLists 0).drop count) := by
  have haging := h.aging
  have hle : count ≤ amplifiedCount p count := Nat.le_max_right ..
  generalize hamplified : amplifiedCount p count = amplified at hle
  unfold evictBlocks
  rw [size_one hone]
  split
  · rename_i hnone
    refine ⟨s, ?_⟩
    rcases hnone with hnil | rfl
    · simp [length_eq_zero_iff.mp hnil]
    · simp
  · rename_i hsome
    have hne : s.shardLists 0 ≠ [] := fun hnil => hsome (.inl (length_eq_zero_iff.mpr hnil))
    have hrounds : min p.sampleTimes p.shardCount = 1 := by
      rw [hone]
      exact min_eq_right p.sampleTimes_pos
    dsimp only
    rw [hrounds, hamplified, Nat.add_sub_cancel, Nat.div_one, sampleRounds_one hone h hne,
      sampleFromShard]
    generalize s.shardLists 0 = l at haging
    -- the sample without the evicted blocks, and the rest of the list
    have hstay : (l.take amplified).drop count ++ l.drop amplified = l.drop count := by
      rw [drop_take, ← Nat.add_sub_of_le hle, ← drop_drop, Nat.add_sub_cancel_left]
      exact take_append_drop ..
    have htwice : (l.take amplified).take count = l.take count := by
      rw [take_take, min_eq_left hle]
    dsimp only
    split
    · rename_i hall
      rw [drop_of_length_le hall, nil_append] at hstay
      rw [take_of_length_le hall] at htwice
      rw [htwice, hstay]
      refine ⟨_, rfl, ?_⟩
      simp
    · have hperm := sort.perm count (l.take amplified)
      have htake := sort.take_eq (haging.sublist (take_sublist amplified l)) count
      generalize sort.sort count (l.take amplified) = sorted at hperm htake
      have hkept : sorted.drop count ~ (l.take amplified).drop count := by
        rw [← take_append_drop count sorted, ← take_append_drop count (l.take amplified),
          htake] at hperm
        exact (perm_append_left_iff _).mp hperm
      refine ⟨_, Prod.ext (htake.trans htwice) rfl, ?_⟩
      rw [returnCandidates_one hone, setShard_self, ← hstay]
      have hback := (reverse_perm (sorted.drop count)).trans hkept
      refine ⟨hback.append_right _, fun hspare => ?_⟩
      congr 1
      have hlen : ((l.take amplified).drop count).length ≤ 1 := by
        rw [length_drop, length_take]
        omega
      generalize (l.take amplified).drop count = kept at hback hlen
      match kept, hlen with
      | [], _ => exact hback.eq_nil
      | [node], _ => exact hback.eq_singleton

/-! ## Runs -/

/-- Runs whose writes and accesses come at strictly increasing times, and in
which no call of `EvictBlocks` samples more than one block that it does not
evict. -/
inductive Run (p : LruParams) (sort : PartialSort) : LruEvictionPolicy → Nat → Prop
  | start : Run p sort {} 0
  | write {s : LruEvictionPolicy} {next : Nat} (block : BlockEntry) {timestamp : Nat}
      (h : Run p sort s next) (hnew : ∀ node ∈ s.shardLists 0, node.block ≠ block)
      (htime : next ≤ timestamp) (hmax : timestamp < int64Max) :
      Run p sort (s.onBlockWritten p block timestamp) (timestamp + 1)
  | access {s : LruEvictionPolicy} {next : Nat} (block : BlockEntry) {timestamp : Nat}
      (h : Run p sort s next) (htime : next ≤ timestamp) (hmax : timestamp < int64Max) :
      Run p sort (s.onBlockAccessed p block timestamp) (timestamp + 1)
  | evict {s : LruEvictionPolicy} {next count : Nat} (h : Run p sort s next)
      (hspare : min (amplifiedCount p count) (s.size p) ≤ count + 1) :
      Run p sort (s.evictBlocks p sort count).2 next

theorem Ordered.use (h : s.Ordered next) {block : BlockEntry} {timestamp : Nat}
    (htime : next ≤ timestamp) (hmax : timestamp < int64Max) {l : List LRUListNode}
    (hl : l <+ s.shardLists 0) :
    (s.setShard 0 (l ++ [⟨block, timestamp⟩])).Ordered (timestamp + 1) := by
  have hold (node : LRUListNode) (hnode : node ∈ l) : node.accessTime < timestamp :=
    (h.timed node (hl.subset hnode)).trans_le htime
  refine ⟨?_, fun node hnode => ?_, hmax⟩
  · rw [setShard_self, Aging, pairwise_append]
    refine ⟨h.aging.sublist hl, pairwise_singleton .., fun a ha b hb => ?_⟩
    rw [mem_singleton.mp hb]
    exact hold a ha
  · rw [setShard_self, mem_append, mem_singleton] at hnode
    rcases hnode with hnode | rfl
    · exact (hold node hnode).trans (Nat.lt_succ_self _)
    · exact Nat.lt_succ_self _

theorem Run.ordered (hone : p.shardCount = 1) (h : Run p sort s next) : s.Ordered next := by
  have hshard (b : BlockEntry) : getShardIndex p b = 0 := by
    rw [getShardIndex, hone, Nat.mod_one]
  induction h with
  | start => exact ⟨.nil, by simp, Nat.zero_le _⟩
  | write block h hnew htime hmax ih =>
    rw [onBlockWritten, hshard]
    exact ih.use htime hmax (.refl _)
  | access block h htime hmax ih =>
    rw [onBlockAccessed, hshard]
    split
    · exact ih.use htime hmax filter_sublist
    · refine ⟨ih.aging, fun node hnode => ?_, hmax⟩
      exact (ih.timed node hnode).trans_le (htime.trans (Nat.le_succ _))
  | @evict s next count h hspare ih =>
    obtain ⟨s', heq, -, hrest⟩ := evictBlocks_one hone ih count
    have hsub : s'.shardLists 0 <+ s.shardLists 0 := hrest hspare ▸ drop_sublist _ _
    rw [heq]
    exact ⟨ih.aging.sublist hsub, fun node hnode => ih.timed node (hsub.subset hnode), ih.bound⟩

def insertionSort : PartialSort where
  sort _ l := l.insertionSort (·.accessTime ≤ ·.accessTime)
  perm _ l := perm_insertionSort _ l
  sorted _ l := ⟨_, perm_insertionSort _ l, pairwise_insertionSort _ l, rfl⟩

end LruEvictionPolicy

end TairKvCache.Optimizer
