import TairKvCache.HostMatch.Generic
import TairKvCache.Lib.Machine

/-!
# The progressive read of a prefix

`MetaIndexer::VisitLocationValuesForPrefix` (`meta/meta_indexer.cc`) together
with the visitor that the two host queries pass it. The keys are read in chunks;
the first chunk is read and visited before the others start, which then run in
any order and side by side. The visitor keeps one shrinking stop per candidate
host, the first key found so far that the host lacks, and asks the reader to go no
further than the last stop once every host has one.

A chunk advances in the moments at which it touches shared state: one load of
`metadata_stop` and `visitor_stop`, one load or one lowering of a host's stop,
the two reductions at its end. A backend without concurrent reads reads everything
in one call, which is a sweep of a single chunk.
-/

namespace TairKvCache.HostMatch

open Function Lib Option

/-! ## Chunks -/

/-- The cuts of the key indices. -/
structure Layout where
  keyCount : Nat
  firstChunkSize : Nat
  parallelChunkSize : Nat
  first_pos : 0 < firstChunkSize
  first_le : firstChunkSize ≤ keyCount
  chunk_pos : 0 < parallelChunkSize

/-- How the indexer reads: with concurrent value reads, and then with the chunk
size of its executor, if it has one. -/
structure ReadMode where
  concurrent : Bool
  executorChunkSize : Option Nat

def kLocalPrefixProbeKeyCount : Nat := 4096

def kLocalPrefixParallelReadChunkSize : Nat := 16384

/-- `aligned_chunk_size`: the configured size, rounded up to whole 64-key words. -/
def ReadMode.alignedChunkSize (mode : ReadMode) : Nat :=
  let configured := max kLocalPrefixParallelReadChunkSize (mode.executorChunkSize.getD 256)
  if configured > 2 ^ 64 - 1 - 63 then configured else (configured + 63) / 64 * 64

theorem ReadMode.alignedChunkSize_pos (mode : ReadMode) : 0 < mode.alignedChunkSize := by
  have h : 16384 ≤ max kLocalPrefixParallelReadChunkSize (mode.executorChunkSize.getD 256) :=
    le_max_left _ _
  simp only [alignedChunkSize]
  generalize max kLocalPrefixParallelReadChunkSize (mode.executorChunkSize.getD 256) = c at h ⊢
  split <;> omega

/-- The cuts the reader makes in a request of `n` keys. -/
def ReadMode.layout (mode : ReadMode) (n : Nat) (hn : 0 < n) : Layout where
  keyCount := n
  firstChunkSize := if mode.concurrent then min kLocalPrefixProbeKeyCount n else n
  parallelChunkSize := min mode.alignedChunkSize n
  first_pos := by
    have : 0 < kLocalPrefixProbeKeyCount := by decide
    split <;> omega
  first_le := by split <;> omega
  chunk_pos := by
    have := mode.alignedChunkSize_pos
    omega

namespace Layout

variable (L : Layout)

/-- `1 + remaining_chunk_count`. -/
def slotCount : Nat :=
  if L.firstChunkSize = L.keyCount then 1
  else 1 + (1 + (L.keyCount - L.firstChunkSize - 1) / L.parallelChunkSize)

def chunkBegin : Nat → Nat
  | 0 => 0
  | k + 1 => L.firstChunkSize + k * L.parallelChunkSize

def chunkSize : Nat → Nat
  | 0 => L.firstChunkSize
  | k + 1 => min L.parallelChunkSize (L.keyCount - L.chunkBegin (k + 1))

def slotOf (i : Nat) : Nat :=
  if i < L.firstChunkSize then 0 else 1 + (i - L.firstChunkSize) / L.parallelChunkSize

theorem slotOf_spec {i : Nat} (hi : i < L.keyCount) :
    L.slotOf i < L.slotCount ∧ L.chunkBegin (L.slotOf i) ≤ i ∧
      i < L.chunkBegin (L.slotOf i) + L.chunkSize (L.slotOf i) := by
  have hp := L.chunk_pos
  by_cases h : i < L.firstChunkSize
  · have hslot : L.slotOf i = 0 := if_pos h
    rw [hslot]
    refine ⟨?_, Nat.zero_le i, ?_⟩
    · unfold slotCount
      split
      · exact Nat.one_pos
      · exact Nat.add_pos_left Nat.one_pos _
    · simpa [chunkBegin, chunkSize] using h
  · have hslot : L.slotOf i = (i - L.firstChunkSize) / L.parallelChunkSize + 1 := by
      rw [slotOf, if_neg h, Nat.add_comm]
    have hdiv := Nat.div_add_mod (i - L.firstChunkSize) L.parallelChunkSize
    have hmod := Nat.mod_lt (i - L.firstChunkSize) hp
    have hle : (i - L.firstChunkSize) / L.parallelChunkSize
        ≤ (L.keyCount - L.firstChunkSize - 1) / L.parallelChunkSize :=
      Nat.div_le_div_right (by omega)
    rw [hslot]
    rw [Nat.mul_comm] at hdiv
    refine ⟨?_, ?_, ?_⟩
    · rw [slotCount, if_neg (by omega)]
      omega
    · simp only [chunkBegin]
      omega
    · simp only [chunkSize, chunkBegin]
      omega

theorem slotOf_eq {k i : Nat} (hlo : L.chunkBegin k ≤ i)
    (hhi : i < L.chunkBegin k + L.chunkSize k) : L.slotOf i = k := by
  cases k with
  | zero =>
    simp only [chunkBegin, chunkSize, Nat.zero_add] at hhi
    exact if_pos hhi
  | succ k =>
    simp only [chunkBegin, chunkSize] at hlo hhi
    have hp := L.chunk_pos
    have hnot : ¬i < L.firstChunkSize := by omega
    have hdiv : (i - L.firstChunkSize) / L.parallelChunkSize = k := by
      refine Nat.div_eq_of_lt_le ?_ ?_
      · omega
      · rw [Nat.add_mul]
        omega
    rw [slotOf, if_neg hnot, hdiv, Nat.add_comm]

theorem chunk_le (k : Nat) {j : Nat} (hj : j < L.chunkSize k) :
    L.chunkBegin k + j < L.keyCount := by
  have := L.first_le
  cases k with
  | zero =>
    simp only [chunkBegin, chunkSize] at hj ⊢
    omega
  | succ k =>
    simp only [chunkSize] at hj
    omega

end Layout

/-! ## The visitor -/

/-- What the visitor knows of the metadata: per key index and candidate host,
whether the host has all that the prefix needs and whether it has the state. The
ordinary query has no state and starts after the key the candidates come from. -/
structure Visitor where
  hosts : Nat
  firstIndex : Nat
  hasFull : Nat → Nat → Bool
  hasState : Nat → Nat → Bool

structure Sweep where
  layout : Layout
  code : Nat → ErrorCode
  visitor : Visitor

/-- Where a chunk is. Indices into the chunk are local ones. -/
inductive Phase where
  | waiting
  /-- Looking for a host that still needs the key. -/
  | checking (index host : Nat)
  | updating (index host : Nat)
  /-- Computing `last_required_key`. -/
  | loading (host last : Nat)
  | publishing (stop : Nat)
  | recording
  | finished
deriving DecidableEq, Repr

structure SweepState where
  stops : Nat → Nat
  stateWords : Nat → Words
  metadataStop : Nat
  visitorStop : Nat
  terminals : Nat → Option (Nat × ErrorCode)
  chunks : Nat → Phase

namespace SweepState

def move (s : SweepState) (k : Nat) (p : Phase) : SweepState :=
  { s with chunks := update s.chunks k p }

def currentStop (s : SweepState) : Nat := min s.metadataStop s.visitorStop

@[simp] theorem move_self (s : SweepState) (k : Nat) (p : Phase) : (s.move k p).chunks k = p :=
  update_self ..

theorem move_of_ne (s : SweepState) {k j : Nat} (p : Phase) (h : j ≠ k) :
    (s.move k p).chunks j = s.chunks j := update_of_ne h ..

end SweepState

namespace Sweep

variable (S : Sweep)

/-- `successful_count` of a chunk. -/
def successfulCount (k : Nat) : Nat :=
  leading (fun j => S.code (S.layout.chunkBegin k + j) = .ok) (S.layout.chunkSize k)

def firstIndex (k : Nat) : Nat := if S.layout.chunkBegin k = 0 then S.visitor.firstIndex else 0

def opened (k : Nat) : Phase :=
  if S.successfulCount k = 0 then .recording else .checking (S.firstIndex k) 0

def initial : SweepState where
  stops := fun _ => S.layout.keyCount
  stateWords := fun _ => Words.zeros (wordCountForBits S.layout.keyCount)
  metadataStop := S.layout.keyCount
  visitorStop := S.layout.keyCount
  terminals := fun _ => none
  chunks := update (fun _ => .waiting) 0 (S.opened 0)

/-- One key at one host: its state bit, and the stop lowered if it lacks the key. -/
def visitHost (s : SweepState) (i h : Nat) : SweepState :=
  { s with
    stops := if S.visitor.hasFull i h then s.stops
      else update s.stops h (min (s.stops h) i)
    stateWords := if S.visitor.hasState i h then
        update s.stateWords h ((s.stateWords h).setBit i)
      else s.stateWords }

/-- `reduce_stop_index` of `visitor_stop`. -/
def publish (s : SweepState) (stop : Nat) : SweepState :=
  { s with visitorStop := min s.visitorStop (min S.layout.keyCount stop) }

/-- The end of a chunk: its terminal, if it did not read all its keys. -/
def record (s : SweepState) (k : Nat) : SweepState :=
  if S.successfulCount k < S.layout.chunkSize k then
    let index := S.layout.chunkBegin k + S.successfulCount k
    { s with
      terminals := update s.terminals k (some (index, S.code index))
      metadataStop := min s.metadataStop index }
  else s

def step (s : SweepState) (k : Nat) : Option SweepState :=
  if S.layout.slotCount ≤ k then none
  else
    match s.chunks k with
    | .waiting =>
      if s.chunks 0 ≠ .finished then none
      else if s.currentStop ≤ S.layout.chunkBegin k then some (s.move k .finished)
      else some (s.move k (S.opened k))
    | .checking i h =>
      if S.successfulCount k ≤ i then some (s.move k (.loading 0 0))
      else if S.visitor.hosts ≤ h then some (s.move k (.loading 0 0))
      else if S.layout.chunkBegin k + i < s.stops h then some (s.move k (.updating i 0))
      else some (s.move k (.checking i (h + 1)))
    | .updating i h =>
      if S.visitor.hosts ≤ h then some (s.move k (.checking (i + 1) 0))
      else some ((S.visitHost s (S.layout.chunkBegin k + i) h).move k (.updating i (h + 1)))
    | .loading h last =>
      if S.visitor.hosts ≤ h then some (s.move k (.publishing last))
      else if s.stops h = S.layout.keyCount then some (s.move k (.publishing S.layout.keyCount))
      else some (s.move k (.loading (h + 1) (max last (s.stops h))))
    | .publishing stop => some ((S.publish s stop).move k .recording)
    | .recording => some ((S.record s k).move k .finished)
    | .finished => none

/-- The chunks of one request advancing in any order. -/
def machine : Machine SweepState Nat where
  init := fun s => s = S.initial
  step := S.step

def Finished (s : SweepState) : Prop := ∀ k < S.layout.slotCount, s.chunks k = .finished

instance (s : SweepState) : Decidable (S.Finished s) := by unfold Finished; infer_instance

/-- `PrefixLocationResult`, as far as its callers read it. -/
structure PrefixLocationResult where
  terminalEc : ErrorCode
  validKeyCount : Nat
deriving DecidableEq, Repr

def result (s : SweepState) : PrefixLocationResult :=
  if s.metadataStop < s.visitorStop && s.metadataStop < S.layout.keyCount then
    match s.terminals (S.layout.slotOf s.metadataStop) with
    | some (index, ec) => if index = s.metadataStop then ⟨ec, s.currentStop⟩ else ⟨.mismatch, 0⟩
    | none => ⟨.mismatch, 0⟩
  else ⟨.ok, s.currentStop⟩

/-! ## What a step can be -/

inductive StepOf (s : SweepState) (k : Nat) : SweepState → Prop where
  | skip (hk : s.chunks k = .waiting) (hfirst : s.chunks 0 = .finished)
      (hstop : s.currentStop ≤ S.layout.chunkBegin k) : StepOf s k (s.move k .finished)
  | read (hk : s.chunks k = .waiting) (hfirst : s.chunks 0 = .finished)
      (hstop : S.layout.chunkBegin k < s.currentStop) : StepOf s k (s.move k (S.opened k))
  | noMoreKeys {i h : Nat} (hk : s.chunks k = .checking i h) (hi : S.successfulCount k ≤ i) :
      StepOf s k (s.move k (.loading 0 0))
  | noHostNeeds {i h : Nat} (hk : s.chunks k = .checking i h) (hh : S.visitor.hosts ≤ h) :
      StepOf s k (s.move k (.loading 0 0))
  | needed {i h : Nat} (hk : s.chunks k = .checking i h) (hi : i < S.successfulCount k)
      (hh : h < S.visitor.hosts) (hs : S.layout.chunkBegin k + i < s.stops h) :
      StepOf s k (s.move k (.updating i 0))
  | stopped {i h : Nat} (hk : s.chunks k = .checking i h) (hi : i < S.successfulCount k)
      (hh : h < S.visitor.hosts) (hs : s.stops h ≤ S.layout.chunkBegin k + i) :
      StepOf s k (s.move k (.checking i (h + 1)))
  | nextKey {i h : Nat} (hk : s.chunks k = .updating i h) (hh : S.visitor.hosts ≤ h) :
      StepOf s k (s.move k (.checking (i + 1) 0))
  | visit {i h : Nat} (hk : s.chunks k = .updating i h) (hh : h < S.visitor.hosts) :
      StepOf s k ((S.visitHost s (S.layout.chunkBegin k + i) h).move k (.updating i (h + 1)))
  | allStopped {h last : Nat} (hk : s.chunks k = .loading h last) (hh : S.visitor.hosts ≤ h) :
      StepOf s k (s.move k (.publishing last))
  | running {h last : Nat} (hk : s.chunks k = .loading h last) (hh : h < S.visitor.hosts)
      (hs : s.stops h = S.layout.keyCount) :
      StepOf s k (s.move k (.publishing S.layout.keyCount))
  | load {h last : Nat} (hk : s.chunks k = .loading h last) (hh : h < S.visitor.hosts)
      (hs : s.stops h ≠ S.layout.keyCount) :
      StepOf s k (s.move k (.loading (h + 1) (max last (s.stops h))))
  | publish {stop : Nat} (hk : s.chunks k = .publishing stop) :
      StepOf s k ((S.publish s stop).move k .recording)
  | record (hk : s.chunks k = .recording) : StepOf s k ((S.record s k).move k .finished)

variable {S}

theorem stepOf_of_step {s s' : SweepState} {k : Nat} (h : S.step s k = some s') :
    k < S.layout.slotCount ∧ S.StepOf s k s' := by
  unfold step at h
  split at h
  · cases h
  · next hk =>
    refine ⟨not_le.mp hk, ?_⟩
    split at h
    · next hp =>
      split_ifs at h with h0 hstop <;> obtain rfl := some.inj h
      · exact .skip hp (not_not.mp h0) hstop
      · exact .read hp (not_not.mp h0) (not_le.mp hstop)
    · next hp =>
      split_ifs at h with hi hh hs <;> obtain rfl := some.inj h
      · exact .noMoreKeys hp hi
      · exact .noHostNeeds hp hh
      · exact .needed hp (not_le.mp hi) (not_le.mp hh) hs
      · exact .stopped hp (not_le.mp hi) (not_le.mp hh) (not_lt.mp hs)
    · next hp =>
      split_ifs at h with hh <;> obtain rfl := some.inj h
      · exact .nextKey hp hh
      · exact .visit hp (not_le.mp hh)
    · next hp =>
      split_ifs at h with hh hs <;> obtain rfl := some.inj h
      · exact .allStopped hp hh
      · exact .running hp (not_le.mp hh) hs
      · exact .load hp (not_le.mp hh) hs
    · next hp =>
      obtain rfl := some.inj h
      exact .publish hp
    · next hp =>
      obtain rfl := some.inj h
      exact .record hp
    · cases h

theorem step_isSome {s : SweepState} {k : Nat} (hk : k < S.layout.slotCount)
    (hfirst : k = 0 ∨ s.chunks 0 = .finished) (hne : s.chunks k ≠ .finished)
    (hzero : s.chunks 0 ≠ .waiting) : (S.step s k).isSome = true := by
  unfold step
  rw [if_neg (not_le.mpr hk)]
  split
  · next hp =>
    rcases hfirst with rfl | h0
    · exact absurd hp hzero
    · rw [if_neg (not_not.mpr h0)]
      split <;> rfl
  · split_ifs <;> rfl
  · split_ifs <;> rfl
  · split_ifs <;> rfl
  · rfl
  · rfl
  · next hp => exact absurd hp hne

end Sweep

end TairKvCache.HostMatch
