import TairKvCache.Lib.Traverse
import TairKvCache.PyConnector.Scheduler

/-!
# From manager blocks to memory

The worker translates the manager blocks of a load or a save through the block
tables in the metadata: an attention group gives a token slot for every token,
a state group the block of the last token. A table that is too short raises.

The translation reaches its end exactly when the table has every position the
blocks name (`attnTokenIndices_ok_iff`, `stateBlockIds_ok_iff`), and what it
gives then lies in the blocks at those positions. The scheduler announces no
more blocks than the tables cover if no group's blocks are smaller than the
`vllm_block_size` it counts them by (`announced_translated_iff`).
-/

namespace TairKvCache.PyConnector

open List Lib.Traverse

/-- A registered `kv_cache_group`. Registration asserts that the kernel's
blocks divide the group's. -/
structure TransferGroup where
  groupIdx : Nat
  specName : String
  blockSize : Nat
  kernelBlockSize : Nat
  isState : Bool
  block_pos : 0 < blockSize
  kernel_dvd : kernelBlockSize ∣ blockSize

variable {idxs : List Nat} {mb : Nat}

namespace TransferGroup

variable {g : TransferGroup} {mbs : Nat} {table : List Nat}

/-- The slot of token `tok` of the request in the group's tensors. -/
def tokenIndex (g : TransferGroup) (table : List Nat) (tok : Nat) : Except PyError Nat :=
  match table[tok / g.blockSize]? with
  | none => .error .assertionError
  | some block =>
    let off := tok % g.blockSize
    let phys := block * (g.blockSize / g.kernelBlockSize) + off / g.kernelBlockSize
    .ok (phys * g.kernelBlockSize + off % g.kernelBlockSize)

def attnTokenIndices (mbs : Nat) (g : TransferGroup) (idxs : List Nat) (table : List Nat) :
    Except PyError (List (List Nat)) :=
  idxs.mapM fun mb => (List.range mbs).mapM fun i => g.tokenIndex table (mb * mbs + i)

def lastTokenBlock (mbs : Nat) (g : TransferGroup) (mb : Nat) : Nat :=
  ((mb + 1) * mbs - 1) / g.blockSize

def stateBlockId (mbs : Nat) (g : TransferGroup) (table : List Nat) (mb : Nat) :
    Except PyError Nat :=
  match table[g.lastTokenBlock mbs mb]? with
  | none => .error .assertionError
  | some block => .ok block

def stateBlockIds (mbs : Nat) (g : TransferGroup) (idxs : List Nat) (table : List Nat) :
    Except PyError (List Nat) :=
  idxs.mapM (g.stateBlockId mbs table)

/-! ## Positions -/

/-- The positions of the group's table that a manager block names. -/
def positions (mbs : Nat) (g : TransferGroup) (mb : Nat) : List Nat :=
  if g.isState then [g.lastTokenBlock mbs mb]
  else (List.range mbs).map fun i => (mb * mbs + i) / g.blockSize

theorem tokenIndex_eq_ok_iff {tok slot : Nat} : g.tokenIndex table tok = .ok slot ↔
      ∃ block, table[tok / g.blockSize]? = some block ∧
        slot = block * g.blockSize + tok % g.blockSize := by
  rw [tokenIndex]
  cases table[tok / g.blockSize]? with
  | none => simp
  | some block =>
    have hslot : (block * (g.blockSize / g.kernelBlockSize) +
        tok % g.blockSize / g.kernelBlockSize) * g.kernelBlockSize +
          tok % g.blockSize % g.kernelBlockSize =
        block * g.blockSize + tok % g.blockSize := by
      rw [Nat.add_mul, Nat.mul_assoc, Nat.div_mul_cancel g.kernel_dvd, Nat.add_assoc,
        Nat.div_add_mod']
    dsimp only
    rw [hslot]
    simp [eq_comm]

theorem exists_tokenIndex_iff {tok : Nat} :
    (∃ slot, g.tokenIndex table tok = .ok slot) ↔ tok / g.blockSize < table.length := by
  simp only [tokenIndex_eq_ok_iff]
  constructor
  · rintro ⟨_, block, hblock, -⟩
    exact (List.getElem?_eq_some_iff.mp hblock).1
  · intro hlt
    exact ⟨_, _, getElem?_eq_getElem hlt, rfl⟩

theorem attnTokenIndices_ok_iff (hattn : g.isState = false) :
    (∃ slots, attnTokenIndices mbs g idxs table = .ok slots) ↔
      ∀ mb ∈ idxs, ∀ p ∈ g.positions mbs mb, p < table.length := by
  simp only [attnTokenIndices, mapM_ok_iff, exists_tokenIndex_iff, positions, hattn,
    Bool.false_eq_true, if_false, forall_mem_map]

theorem stateBlockId_eq_ok_iff {block : Nat} :
    g.stateBlockId mbs table mb = .ok block ↔ table[g.lastTokenBlock mbs mb]? = some block := by
  rw [stateBlockId]
  cases table[g.lastTokenBlock mbs mb]? with
  | none => simp
  | some b => simp

theorem exists_stateBlockId_iff : (∃ block, g.stateBlockId mbs table mb = .ok block) ↔
      g.lastTokenBlock mbs mb < table.length := by
  simp only [stateBlockId_eq_ok_iff]
  constructor
  · rintro ⟨block, hblock⟩
    exact (List.getElem?_eq_some_iff.mp hblock).1
  · intro hlt
    exact ⟨_, getElem?_eq_getElem hlt⟩

theorem stateBlockIds_ok_iff (hstate : g.isState = true) :
    (∃ ids, stateBlockIds mbs g idxs table = .ok ids) ↔
      ∀ mb ∈ idxs, ∀ p ∈ g.positions mbs mb, p < table.length := by
  simp only [stateBlockIds, mapM_ok_iff, exists_stateBlockId_iff, positions, hstate,
    if_true, forall_mem_singleton]

/-! ## What the translation gives -/

def InBlock (g : TransferGroup) (block slot : Nat) : Prop :=
  block * g.blockSize ≤ slot ∧ slot < (block + 1) * g.blockSize

/-- Every slot lies in a block that the table has at a position named. -/
theorem attnTokenIndices_slot (hattn : g.isState = false) {slots : List (List Nat)}
    (h : attnTokenIndices mbs g idxs table = .ok slots) {slot : Nat} (hslot : slot ∈ slots.flatten)
      :
    ∃ mb ∈ idxs, ∃ p ∈ g.positions mbs mb, ∃ block, table[p]? = some block ∧
      g.InBlock block slot := by
  obtain ⟨row, hrow, hmem⟩ := mem_flatten.mp hslot
  obtain ⟨mb, hmb, hrun⟩ := (mem_of_mapM h row).mp hrow
  obtain ⟨i, hi, htok⟩ := (mem_of_mapM hrun slot).mp hmem
  obtain ⟨block, hblock, rfl⟩ := tokenIndex_eq_ok_iff.mp htok
  have hlt := Nat.mod_lt (mb * mbs + i) g.block_pos
  refine ⟨mb, hmb, (mb * mbs + i) / g.blockSize, ?_, block, hblock, Nat.le_add_right ..,
    by rw [Nat.succ_mul]; omega⟩
  rw [positions, hattn]
  exact mem_map_of_mem hi

theorem attnTokenIndices_some (hattn : g.isState = false) {slots : List (List Nat)}
    (h : attnTokenIndices mbs g idxs table = .ok slots) {p : Nat} (hmb : mb ∈ idxs)
    (hp : p ∈ g.positions mbs mb) : ∃ slot, slot ∈ slots.flatten := by
  rw [positions, hattn] at hp
  obtain ⟨i, hi, -⟩ := mem_map.mp hp
  obtain ⟨row, hrow⟩ := mapM_ok_iff.mp ⟨slots, h⟩ mb hmb
  obtain ⟨slot, hslot⟩ := mapM_ok_iff.mp ⟨row, hrow⟩ i hi
  exact ⟨slot, mem_flatten.mpr ⟨row, (mem_of_mapM h row).mpr ⟨mb, hmb, hrow⟩,
    (mem_of_mapM hrow slot).mpr ⟨i, hi, hslot⟩⟩⟩

theorem stateBlockIds_block (hstate : g.isState = true) {ids : List Nat}
    (h : stateBlockIds mbs g idxs table = .ok ids) {block : Nat} (hblock : block ∈ ids) :
    ∃ mb ∈ idxs, ∃ p ∈ g.positions mbs mb, table[p]? = some block := by
  obtain ⟨mb, hmb, hrun⟩ := (mem_of_mapM h block).mp hblock
  refine ⟨mb, hmb, g.lastTokenBlock mbs mb, ?_, stateBlockId_eq_ok_iff.mp hrun⟩
  rw [positions, hstate]
  exact mem_singleton_self _

theorem stateBlockIds_some {ids : List Nat} (h : stateBlockIds mbs g idxs table = .ok ids)
    (hmb : mb ∈ idxs) : ∃ block, block ∈ ids := by
  obtain ⟨block, hblock⟩ := mapM_ok_iff.mp ⟨ids, h⟩ mb hmb
  exact ⟨block, (mem_of_mapM h block).mpr ⟨mb, hmb, hblock⟩⟩

end TransferGroup

/-! ## Announced blocks -/

open ConnectorScheduler (targetSaveNum numAllocatedBlocks)

/-- The scheduler's meta of a group that the worker has registered. -/
def TransferGroup.meta (g : TransferGroup) : GroupMeta := ⟨g.groupIdx, g.blockSize, g.isState⟩

def SchedulerConfig.withGroups (cfg : SchedulerConfig) (groups : List TransferGroup) :
    SchedulerConfig :=
  { cfg with groupMetas := groups.map (·.meta) }

def RequestLedger.tableOf (l : RequestLedger) (g : TransferGroup) : List Nat :=
  (l.blockIdsPerGroup[g.groupIdx]?).getD []

/-- The worker's translation of the blocks that a step announces stays in the
ledger's table of the group. -/
def Translated (cfg : SchedulerConfig) (l : RequestLedger) (g : TransferGroup) : Prop :=
  let idxs := List.range (targetSaveNum cfg l)
  let mbs := cfg.managerBlockSize
  (g.isState = false → ∃ slots, g.attnTokenIndices mbs idxs (l.tableOf g) = .ok slots) ∧
    (g.isState = true → ∃ ids, g.stateBlockIds mbs idxs (l.tableOf g) = .ok ids)

variable {cfg : SchedulerConfig} {l : RequestLedger} {g : TransferGroup}
  {groups : List TransferGroup}

theorem translated_iff (hmbs : 0 < cfg.managerBlockSize) : Translated cfg l g ↔
    ∀ mb < targetSaveNum cfg l,
      (mb + 1) * cfg.managerBlockSize ≤ (l.tableOf g).length * g.blockSize := by
  have hiff : ∀ mb, (mb + 1) * cfg.managerBlockSize ≤ (l.tableOf g).length * g.blockSize ↔
      ∀ p ∈ g.positions cfg.managerBlockSize mb, p < (l.tableOf g).length := by
    intro mb
    have hpos : 0 < (mb + 1) * cfg.managerBlockSize := Nat.mul_pos mb.succ_pos hmbs
    rw [TransferGroup.positions]
    split_ifs
    · rw [forall_mem_singleton, TransferGroup.lastTokenBlock, Nat.div_lt_iff_lt_mul g.block_pos]
      omega
    · simp only [forall_mem_map, mem_range, Nat.div_lt_iff_lt_mul g.block_pos]
      rw [Nat.succ_mul] at hpos ⊢
      constructor
      · intro h i hi
        omega
      · intro h
        have := h (cfg.managerBlockSize - 1) (by omega)
        omega
  simp only [Translated, hiff]
  cases hkind : g.isState with
  | false => simp [TransferGroup.attnTokenIndices_ok_iff hkind]
  | true => simp [TransferGroup.stateBlockIds_ok_iff hkind]

theorem le_numAllocatedBlocks_iff {n : Nat} (hg : g ∈ groups) :
    n ≤ numAllocatedBlocks (cfg.withGroups groups) l ↔
      ∀ g ∈ groups, n ≤ (l.tableOf g).length := by
  rw [numAllocatedBlocks]
  split_ifs with h0
  · simp only [RequestLedger.tableOf, h0]
    exact ⟨fun h _ _ => h, fun h => h g hg⟩
  · have hmem : g.meta ∈ (cfg.withGroups groups).groupMetas := mem_map_of_mem hg
    cases ha : (List.map (fun g => ((l.blockIdsPerGroup[g.groupIdx]?).getD []).length)
      (cfg.withGroups groups).groupMetas).min? with
    | none => simp [ne_nil_of_mem hmem] at ha
    | some a =>
      rw [Option.getD_some, le_min?_iff ha]
      simp [SchedulerConfig.withGroups, RequestLedger.tableOf, TransferGroup.meta]

/-- `managerBlockSize` blocks in the table of every group, and a token for each
slot that `vllmBlockSize` promises. -/
def fullLedger (cfg : SchedulerConfig) (groups : List TransferGroup) : RequestLedger where
  vllmRequest := ⟨"r", [], .replicate (cfg.managerBlockSize * cfg.vllmBlockSize) 0⟩
  blockIdsPerGroup :=
    .replicate ((groups.map (·.groupIdx)).sum + 1) (.replicate cfg.managerBlockSize 0)

theorem length_tableOf_fullLedger (hg : g ∈ groups) :
    ((fullLedger cfg groups).tableOf g).length = cfg.managerBlockSize := by
  have := single_le_sum (by simp) _ (mem_map_of_mem (f := (·.groupIdx)) hg)
  rw [RequestLedger.tableOf, fullLedger, getElem?_replicate, if_pos (by omega)]
  simp

/-- The tables are counted in blocks of their groups, the announced tokens in
blocks of `vllmBlockSize`. -/
theorem announced_translated_iff (cfg : SchedulerConfig) (groups : List TransferGroup) :
    (∀ l, ∀ g ∈ groups, Translated (cfg.withGroups groups) l g) ↔
      cfg.managerBlockSize = 0 ∨ ∀ g ∈ groups, cfg.vllmBlockSize ≤ g.blockSize := by
  rcases Nat.eq_zero_or_pos cfg.managerBlockSize with hmbs | hmbs
  · simp [Translated, targetSaveNum, SchedulerConfig.withGroups, hmbs,
      TransferGroup.attnTokenIndices, TransferGroup.stateBlockIds, pure, Except.pure]
  have hmbs' : 0 < (cfg.withGroups groups).managerBlockSize := hmbs
  simp only [translated_iff hmbs', hmbs.ne', false_or]
  constructor
  · intro h g hg
    by_contra hlt
    have halloc : cfg.managerBlockSize ≤
        numAllocatedBlocks (cfg.withGroups groups) (fullLedger cfg groups) :=
      (le_numAllocatedBlocks_iff hg).mpr fun g' hg' => (length_tableOf_fullLedger hg').ge
    have htarget : g.blockSize < targetSaveNum (cfg.withGroups groups) (fullLedger cfg groups) := by
      refine (Nat.not_le.mp hlt).trans_le ((Nat.le_div_iff_mul_le hmbs).mpr (le_min ?_ ?_))
      · simp [fullLedger, Nat.mul_comm]
      · rw [Nat.mul_comm]
        exact Nat.mul_le_mul_right _ halloc
    have := h (fullLedger cfg groups) g hg g.blockSize htarget
    rw [length_tableOf_fullLedger hg, Nat.mul_comm] at this
    exact absurd (Nat.le_of_mul_le_mul_left this hmbs) (by omega)
  · intro hle l g hg mb hmb
    calc (mb + 1) * cfg.managerBlockSize
        ≤ targetSaveNum (cfg.withGroups groups) l * cfg.managerBlockSize :=
          Nat.mul_le_mul_right _ hmb
      _ ≤ numAllocatedBlocks (cfg.withGroups groups) l * cfg.vllmBlockSize :=
          (Nat.div_mul_le_self _ _).trans (min_le_right ..)
      _ ≤ (l.tableOf g).length * g.blockSize :=
          Nat.mul_le_mul ((le_numAllocatedBlocks_iff hg).mp le_rfl g hg) (hle g hg)

/-- Two blocks of four tokens are announced to a state group whose two blocks hold two each. -/
theorem small_state_blocks_overrun : ∃ (cfg : SchedulerConfig) (groups : List TransferGroup)
    (l : RequestLedger), ∃ g ∈ groups,
    ¬Translated (cfg.withGroups groups) l g := by
  refine ⟨⟨[], 4, 4, 1, false, 0⟩, [⟨0, "tp0_g0", 4, 4, false, by decide, by decide⟩,
    ⟨1, "tp0_g1", 2, 2, true, by decide, by decide⟩],
    { vllmRequest := ⟨"r", [], .replicate 8 0⟩, blockIdsPerGroup := [[1, 2], [3, 4]] },
    _, .tail _ (.head _), fun h => ?_⟩
  obtain ⟨ids, hids⟩ := h.2 rfl
  cases hids

end TairKvCache.PyConnector
