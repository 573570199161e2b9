import Mathlib.Order.Bounds.Basic
import TairKvCache.PyConnector.TpCoordinator

/-!
# Prefix hits over several pools

`batch_exists_v2` of the SGLang connector (`HiCacheKVCM`). Every extra pool is
given a boundary of its own, the largest page count below the KV hit at which
its policy holds, and the answer is the smallest boundary. The condition of a
trailing-pages pool at its boundary says nothing about a shorter prefix.
-/

namespace TairKvCache.HiCache

open PyConnector List

inductive PoolName
  | kv | mamba | indexer | other
deriving DecidableEq, Repr

inductive PoolHitPolicy
  | allPages | trailingPages | other
deriving DecidableEq, Repr

structure PoolTransfer where
  name : PoolName
  hitPolicy : PoolHitPolicy
  keys : Option (List String)
deriving DecidableEq, Repr

/-- The spec names of the rank; `none` for a pool the model does not have. -/
structure HiCacheKVCM where
  locationSpecName : String
  mambaLocationSpecName : Option String
  indexerLocationSpecName : Option String
deriving DecidableEq, Repr

def getExtraPoolSpecName (c : HiCacheKVCM) : PoolName → Option String
  | .mamba => c.mambaLocationSpecName
  | .indexer => c.indexerLocationSpecName
  | _ => none

def carries (name : String) (loc : LocationDict) : Bool := loc.locationSpecs.any (·.1 = name)

def hasSpec (locations : List LocationDict) (name : String) (i : Nat) : Bool :=
  locations[i]?.any (carries name)

def trailing (t : PoolTransfer) : Nat := max 1 ((t.keys.map length).getD 1)

/-- The loop over `range(kv_hit_pages, 0, -1)`. -/
def trailingHit (has : Nat → Bool) (trailing : Nat) : Nat → Nat
  | 0 => 0
  | p + 1 => if (range' (p + 1 - trailing) (p + 1 - (p + 1 - trailing))).all has then p + 1
    else trailingHit has trailing p

def checkPoolSpecExistence (c : HiCacheKVCM) (locations : List LocationDict) (kvHitPages : Nat)
    (t : PoolTransfer) : Nat :=
  match getExtraPoolSpecName c t.name with
  | none => kvHitPages
  | some name =>
    match t.hitPolicy with
    | .allPages => ((range kvHitPages).find? fun i => !hasSpec locations name i).getD kvHitPages
    | .trailingPages => trailingHit (hasSpec locations name) (trailing t) kvHitPages
    | .other => 0

def kvHitPages (c : HiCacheKVCM) (locations : List LocationDict) : Nat :=
  (locations.takeWhile (carries c.locationSpecName)).length

/-- The page count `batch_exists_v2` answers with; the loop ends at 0. -/
def batchExistsV2 (c : HiCacheKVCM) (locations : List LocationDict)
    (poolTransfers : List PoolTransfer) : Nat :=
  poolTransfers.foldl (fun final t => if final = 0 then final
    else min final (checkPoolSpecExistence c locations (kvHitPages c locations) t))
    (kvHitPages c locations)

/-! ## What the count is meant to be -/

variable (c : HiCacheKVCM) (locations : List LocationDict)

def KvPages (n : Nat) : Prop := ∀ i < n, hasSpec locations c.locationSpecName i = true

/-- The pool's policy at the prefix of `n` pages; an unknown one accepts none. -/
def Covers (t : PoolTransfer) (n : Nat) : Prop :=
  ∀ name, getExtraPoolSpecName c t.name = some name →
    match t.hitPolicy with
    | .allPages => ∀ i < n, hasSpec locations name i = true
    | .trailingPages => ∀ i < n, n ≤ i + trailing t → hasSpec locations name i = true
    | .other => n = 0

/-- The counts one pool alone allows. -/
def Alone (t : PoolTransfer) : Set Nat := {n | KvPages c locations n ∧ Covers c locations t n}

def Together (ts : List PoolTransfer) : Set Nat :=
  {n | KvPages c locations n ∧ ∀ t ∈ ts, Covers c locations t n}

variable {c locations}

theorem kvPages_iff {n : Nat} : KvPages c locations n ↔ n ≤ kvHitPages c locations := by
  unfold KvPages kvHitPages
  induction locations generalizing n with
  | nil =>
    cases n with
    | zero => simp
    | succ n => simpa [hasSpec] using ⟨0, Nat.zero_le n⟩
  | cons l ls ih =>
    cases n with
    | zero => simp
    | succ n =>
      rw [Nat.forall_lt_succ_left]
      by_cases hl : carries c.locationSpecName l = true
      · rw [takeWhile_cons_of_pos hl, length_cons, Nat.succ_le_succ_iff, ← ih]
        exact and_iff_right hl
      · rw [takeWhile_cons_of_neg hl]
        exact iff_of_false (fun h => hl h.1) (by simp)

theorem firstGap_greatest (has : Nat → Bool) (p : Nat) :
    IsGreatest {n | n ≤ p ∧ ∀ i < n, has i = true}
      (((range p).find? fun i => !has i).getD p) := by
  cases hgap : (range p).find? fun i => !has i with
  | none =>
    refine ⟨⟨le_rfl, fun i hi => ?_⟩, fun n hn => hn.1⟩
    simpa using find?_eq_none.mp hgap i (mem_range.mpr hi)
  | some g =>
    obtain ⟨hg, hlt, hbefore⟩ := find?_range_eq_some.mp hgap
    refine ⟨⟨(mem_range.mp hlt).le, fun i hi => by simpa using hbefore i hi⟩, fun n hn => ?_⟩
    refine Nat.le_of_not_lt fun hlt => ?_
    simp [hn.2 g hlt] at hg

theorem trailingHit_greatest (has : Nat → Bool) (k p : Nat) :
    IsGreatest {n | n ≤ p ∧ ∀ i < n, n ≤ i + k → has i = true} (trailingHit has k p) := by
  induction p with
  | zero => exact ⟨⟨le_rfl, by simp [trailingHit]⟩, fun n hn => hn.1⟩
  | succ p ih =>
    have hall : (range' (p + 1 - k) (p + 1 - (p + 1 - k))).all has = true ↔
        ∀ i < p + 1, p + 1 ≤ i + k → has i = true := by
      rw [all_eq_true]
      refine ⟨fun h i hi hk => h i ?_, fun h i hi => ?_⟩
      · rw [mem_range'_1]
        omega
      · rw [mem_range'_1] at hi
        exact h i (by omega) (by omega)
    rw [trailingHit]
    split_ifs with h
    · exact ⟨⟨le_rfl, hall.mp h⟩, fun n hn => hn.1⟩
    · refine ⟨⟨Nat.le_succ_of_le ih.1.1, ih.1.2⟩, fun n hn => ih.2 ⟨?_, hn.2⟩⟩
      refine Nat.le_of_lt_succ (lt_of_le_of_ne hn.1 ?_)
      rintro rfl
      exact h (hall.mpr hn.2)

theorem check_greatest (t : PoolTransfer) : IsGreatest (Alone c locations t)
    (checkPoolSpecExistence c locations (kvHitPages c locations) t) := by
  simp only [Alone, kvPages_iff, Covers, checkPoolSpecExistence]
  cases getExtraPoolSpecName c t.name with
  | none => exact ⟨⟨le_rfl, nofun⟩, fun n hn => hn.1⟩
  | some name =>
    simp only [Option.some.injEq, forall_eq']
    cases t.hitPolicy with
    | allPages => exact firstGap_greatest _ _
    | trailingPages => exact trailingHit_greatest _ _ _
    | other => exact ⟨⟨Nat.zero_le _, rfl⟩, fun n hn => hn.2.le⟩

theorem foldl_boundary (b : PoolTransfer → Nat) (ts : List PoolTransfer) (m : Nat) :
    ∃ n, ts.foldl (fun final t => if final = 0 then final else min final (b t)) m = n ∧
      (n ≤ m ∧ ∀ t ∈ ts, n ≤ b t) ∧ (n = m ∨ ∃ t ∈ ts, n = b t) := by
  induction ts generalizing m with
  | nil => exact ⟨m, rfl, ⟨le_rfl, by simp⟩, .inl rfl⟩
  | cons t ts ih =>
    have hstep : (if m = 0 then m else min m (b t)) = min m (b t) := by
      split_ifs with h
      · rw [h, Nat.zero_min]
      · rfl
    obtain ⟨n, hn, ⟨hle, hall⟩, hmin⟩ := ih (min m (b t))
    rw [foldl_cons, hstep, hn]
    obtain ⟨hm, ht⟩ := le_min_iff.mp hle
    refine ⟨n, rfl, ⟨hm, forall_mem_cons.mpr ⟨ht, hall⟩⟩, ?_⟩
    rcases hmin with rfl | ⟨t', ht', rfl⟩
    · rcases min_choice m (b t) with h | h
      · exact .inl h
      · exact .inr ⟨t, mem_cons_self, h⟩
    · exact .inr ⟨t', mem_cons_of_mem _ ht', rfl⟩

/-- The answer is right exactly when some count fits all pools and is the
largest one for the KV pages or for one pool alone. -/
theorem batchExistsV2_greatest_iff (c : HiCacheKVCM) (locations : List LocationDict)
    (ts : List PoolTransfer) :
    IsGreatest (Together c locations ts) (batchExistsV2 c locations ts) ↔
      ∃ n ∈ Together c locations ts, IsGreatest {n | KvPages c locations n} n ∨
        ∃ t ∈ ts, IsGreatest (Alone c locations t) n := by
  obtain ⟨r, hr, ⟨hkv, hall⟩, hmin⟩ := foldl_boundary
    (checkPoolSpecExistence c locations (kvHitPages c locations)) ts (kvHitPages c locations)
  rw [batchExistsV2, hr]
  have hgreat : IsGreatest {n | KvPages c locations n} (kvHitPages c locations) :=
    ⟨kvPages_iff.mpr le_rfl, fun n hn => kvPages_iff.mp hn⟩
  have hbelow : r ∈ upperBounds (Together c locations ts) := by
    intro n hn
    rcases hmin with rfl | ⟨t, ht, rfl⟩
    · exact hgreat.2 hn.1
    · exact (check_greatest t).2 ⟨hn.1, hn.2 t ht⟩
  constructor
  · intro h
    refine ⟨r, h.1, ?_⟩
    rcases hmin with rfl | ⟨t, ht, rfl⟩
    · exact .inl hgreat
    · exact .inr ⟨t, ht, check_greatest t⟩
  · rintro ⟨n, hn, hlargest⟩
    have hle : r ≤ n := by
      rcases hlargest with h | ⟨t, ht, h⟩
      · exact h.unique hgreat ▸ hkv
      · exact h.unique (check_greatest t) ▸ hall t ht
    exact ⟨hle.antisymm (hbelow hn) ▸ hn, hbelow⟩

/-- Three pages with KV, the state only on the last one, the index only on the
first two: two pages are reported, and the last of them has no state. -/
theorem trailing_pool_overrun :
    let c : HiCacheKVCM := ⟨"f", some "m", some "x"⟩
    let locations : List LocationDict :=
      [⟨[("f", ""), ("x", "")]⟩, ⟨[("f", ""), ("x", "")]⟩, ⟨[("f", ""), ("m", "")]⟩]
    let ts : List PoolTransfer :=
      [⟨.mamba, .trailingPages, none⟩, ⟨.indexer, .allPages, none⟩]
    batchExistsV2 c locations ts = 2 ∧ 2 ∉ Together c locations ts := by
  refine ⟨by decide, fun h => ?_⟩
  have hstate := h.2 _ mem_cons_self "m" rfl 1
  revert hstate
  decide

end TairKvCache.HiCache
