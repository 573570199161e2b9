import TairKvCache.DeleteFrame
import TairKvCache.Slotwise

/-!
# Rolling back a failed add

`ClassifyAddLocationRollback` and `ReconcileAddLocationRollback`
(`manager/meta_searcher.cc`). After a failed `BatchAddLocation` the allocated
URIs have to be freed, but only those that no metadata layer references. An
add that failed after its id was generated is *uncertain*: its location is
deleted first, and the code of that delete decides whether the URI may be
freed directly.

The code alone does not say that. The read behind the delete is answered by
the cache, so a location that reached only the persistent layer reads as
`EC_NOENT`; and a location delete the persistent layer answers with
`EC_NOENT` is not repeated on the cache. `Traceable` is the condition on the
two layers under which neither happens, and `reconcile_safe_iff` says that it
is exactly what a safe reconciliation needs.
-/

namespace TairKvCache

open Lib List Backend Decision
open Option (some.inj)

/-! ## Codes of a location delete -/

variable {items : List DeleteItem} {i : Nat} {it : RollbackItem} {e : ErrorCode} {f : WriteFaults}
    {r : LocationRead} {t : Target} {ts : List Target}
    {o : Outcome (List (DataStorageType × Nat))} {j : Nat} {keys : List KeyType} {k : KeyType}
    (ix : Indexer) {id : LocationId}

namespace Backend

theorem deleteItem_absent (b : Backend) (it : DeleteItem) (h : b.cell k id = none) :
    (b.deleteItem it).1.cell k id = none := by
  rw [deleteItem, cell_deleteLocations, h, ite_self]

/-- What the code of a location delete says about the backend. -/
theorem batch_deleteItem_code {faults : Nat → Option Fault} {b : Backend} {it : DeleteItem}
    (hit : items[i]? = some it) (he : (batch deleteItem faults b items).2[i]? = some e) :
    (e = .ok → ∀ id ∈ it.ids, (batch deleteItem faults b items).1.cell it.key id = none)
      ∧ (e = .noent → b.has it.key = false ∧ b.kind ≠ .redis) := by
  cases hfault : faults i with
  | some fl =>
    have := batch_faulted hfault he
    exact ⟨fun h => absurd h this.1, fun h => absurd h this.2⟩
  | none =>
    have hop : ∀ (t : Backend), ∀ x ∈ items,
        (t.kind = b.kind ∧ (b.kind ≠ .redis → t.has it.key = b.has it.key)) →
        (t.deleteItem x).1.kind = b.kind
          ∧ (b.kind ≠ .redis → (t.deleteItem x).1.has it.key = b.has it.key) :=
      fun t x _ ht => ⟨(deleteItem_kind t x).trans ht.1, fun hb =>
        (deleteItem_has (fun hr => hb (ht.1 ▸ hr)) x it.key).trans (ht.2 hb)⟩
    obtain ⟨t, ht, hcode, hrest⟩ := batch_slot deleteItem hop faults ⟨rfl, fun _ => rfl⟩ hit
      hfault
    obtain rfl : (t.deleteItem it).2 = e := some.inj (hcode.symm.trans he)
    constructor
    · intro _ id hid
      refine hrest (fun b => b.cell it.key id = none)
        (fun b x _ hb => deleteItem_absent b x hb) ?_
      rw [deleteItem, cell_deleteLocations, if_pos ⟨rfl, hid⟩]
    · intro h
      obtain ⟨hhas, hkind⟩ := deleteItem_noent h
      have hb : b.kind ≠ .redis := ht.1 ▸ hkind
      exact ⟨(ht.2 hb) ▸ hhas, hb⟩

end Backend

/-! ## The plan -/

structure RollbackPlan where
  pipelineKeys : List KeyType := []
  pipelineLocationIds : List LocationId := []
  directDeleteIndices : List Nat := []

structure RollbackItem where
  index : Nat
  key : KeyType
  result : AddResult

def rollbackItems (keys : List KeyType) (results : List AddResult) : List RollbackItem :=
  (keys.zip results).zipIdx.map fun p => ⟨p.2, p.1.1, p.1.2⟩

namespace RollbackItem

def confirmed (it : RollbackItem) : Bool := it.result.ec = .ok && it.result.locationId ≠ ""

/-- The id was generated, but the write failed or its fate is unknown. -/
def uncertain (it : RollbackItem) : Bool := it.result.ec ≠ .ok && it.result.locationId ≠ ""

def unwritten (it : RollbackItem) : Bool := it.result.locationId = ""

end RollbackItem

def classifyItems (items : List RollbackItem) : RollbackPlan :=
  { pipelineKeys := (items.filter (·.confirmed)).map (·.key)
    pipelineLocationIds := (items.filter (·.confirmed)).map (·.result.locationId)
    directDeleteIndices := (items.filter (·.unwritten)).map (·.index) }

def uncertainItems (keys : List KeyType) (results : List AddResult) : List RollbackItem :=
  (rollbackItems keys results).filter (·.uncertain)

/-- `ClassifyAddLocationRollback`, when no metadata can be reached. -/
def classifyAddLocationRollback (keys : List KeyType) (results : List AddResult) :
    RollbackPlan × Nat :=
  (classifyItems (rollbackItems keys results), (uncertainItems keys results).length)

/-- `synced` is the outcome of the `Sync` after the deletes. -/
structure RollbackEnv where
  batch : Nat → BatchFaults := fun _ => {}
  synced : Bool := true

/-- The delete confirmed that the metadata holds no reference. -/
def confirmsAbsence (synced : Bool) (codes : List ErrorCode) : Bool :=
  codes.headD .error = .noent || (codes.headD .error = .ok && synced)

namespace Indexer

def deleteUncertain (ix : Indexer) (env : RollbackEnv) (items : List RollbackItem) :
    LocationResults :=
  ix.batchDeleteLocations env.batch (items.map (·.key))
    (items.map fun it => [it.result.locationId]) []
    { adjustStorageUsage := false, adjustReclaimedKeyCount := false }

def reconcileAddLocationRollback (ix : Indexer) (env : RollbackEnv) (keys : List KeyType)
    (results : List AddResult) : Indexer × ErrorCode × RollbackPlan :=
  if keys.length ≠ results.length then (ix, .badargs, {})
  else
    let plan := classifyItems (rollbackItems keys results)
    let items := uncertainItems keys results
    if items.isEmpty then (ix, .ok, plan)
    else
      let r := ix.deleteUncertain env items
      if r.2.2.length ≠ items.length ∨ r.2.2.any (·.length ≠ 1) then (r.1, .ok, plan)
      else
        let freed := (items.zip r.2.2).filter fun p => confirmsAbsence env.synced p.2
        (r.1, .ok, { plan with
          directDeleteIndices := plan.directDeleteIndices ++ freed.map (·.1.index) })

end Indexer

/-! ## Absence from both layers -/

namespace Manager

structure Absent (m : Manager) (k : KeyType) (id : LocationId) : Prop where
  persistent : m.persistent.cell k id = none
  cache : ∀ c, m.cache = some c → c.cell k id = none

variable {m m' : Manager} {k : KeyType} {id : LocationId}

theorem Absent.of_cache {c : Store} (hc : m.cache = some c) (hp : m.persistent.cell k id = none)
    (h : c.cell k id = none) : Absent m k id :=
  ⟨hp, fun _ hc' => some.inj (hc.symm.trans hc') ▸ h⟩

theorem Absent.of_sameAt (hs : SameAt k m m') (h : Absent m k id) : Absent m' k id := by
  refine ⟨(hs.cell id).trans h.persistent, fun c' hc' => ?_⟩
  obtain ⟨c, hc, hlook⟩ := hs.cache_lookup hc'
  have := h.cache c hc
  rwa [Store.cell, hlook]

/-- Deleting never brings a location back: hydration copies the persistent
layer, which does not have it either. -/
theorem Absent.hydrate (h : Absent m k id) (f : WriteFaults) {c : Store} (hc : m.cache = some c)
    (keys : List KeyType) : (m.hydrate f c keys).1.cell k id = none := by
  rcases m.hydrate_lookup f c keys k with heq | ⟨-, heq⟩
  · rw [Store.cell, heq]
    exact h.cache c hc
  · rw [Store.cell, heq]
    exact h.persistent

theorem hot_deleteLocations_absent (s : Store) (it : DeleteItem) (h : s.cell k id = none) :
    (Hot.deleteLocations s it).1.cell k id = none := by
  rw [Hot.cell_deleteLocations, h, ite_self]

theorem Absent.deleteTargets (h : Absent m k id) (f : WriteFaults) (items : List DeleteItem) :
    Absent (m.deleteTargets f items).1 k id := by
  have hp : (batch deleteItem f.deleteLocations m.persistent items).1.cell k id
      = none :=
    batch_inv (P := fun b => b.cell k id = none)
      (fun b it _ hb => deleteItem_absent b it hb) _ h.persistent
  unfold Manager.deleteTargets
  cases hc : m.cache with
  | none => exact ⟨hp, fun c hc' => by simp at hc'⟩
  | some c =>
    have hh := h.hydrate f hc (items.map (·.key))
    dsimp only
    split
    · refine ⟨hp, fun c' hc' => ?_⟩
      cases hc'
      exact Hot.conditional_inv (P := fun s : Store => s.cell k id = none)
        (fun s it _ hs => hot_deleteLocations_absent s it hs) _ hh
    · exact ⟨h.persistent, fun c' hc' => by cases hc'; exact hh⟩

theorem Absent.delete (h : Absent m k id) (f : WriteFaults) (keys : List KeyType) :
    Absent (m.delete f keys).1 k id := by
  have hp : (batch deleteForOneKey f.delete m.persistent keys).1.cell k id
      = none :=
    batch_inv (P := fun b => b.cell k id = none)
      (fun b k' _ hb => by rw [cell_delete, hb, ite_self]) _ h.persistent
  unfold Manager.delete
  cases hc : m.cache with
  | none => exact ⟨hp, fun c hc' => by simp at hc'⟩
  | some c =>
    refine ⟨hp, fun c' hc' => ?_⟩
    cases hc'
    exact Hot.conditional_inv (P := fun s : Store => s.cell k id = none)
      (fun s k' _ hs => by rw [Hot.cell_delete, hs, ite_self]) _ (h.cache c hc)

end Manager

/-! ## What the code of a location delete says -/

namespace Manager

variable {m : Manager} {k : KeyType} {id : LocationId}

/-- A successful hydration leaves every named key of the persistent layer in
the cache. -/
theorem hydrate_present {c : Store} (hok : (m.hydrate f c keys).2 = true)
    (hrec : m.recoverState = .recover) (hk : k ∈ keys) (hp : m.persistent.has k = true) :
    ((m.hydrate f c keys).1.lookup k).isSome = true := by
  obtain ⟨e, he⟩ := Option.isSome_iff_exists.mp hp
  cases hc : c.lookup k with
  | some e' => rw [m.hydrate_of_some f keys hc]; rfl
  | none =>
    rw [hydrate, if_pos hrec] at hok ⊢
    unfold ensureKeyInCache at hok ⊢
    have hmem : k ∈ keys.filter fun k => (c.lookup k).isNone :=
      mem_filter.mpr ⟨hk, by simp [hc]⟩
    obtain ⟨i, hi⟩ := mem_iff_getElem?.mp hmem
    have hslot : (keys.filter fun k => (c.lookup k).isNone).zipIdx[i]? = some (k, i) := by
      simp [hi]
    obtain ⟨t, -, hres, hrest⟩ := runSlots_slot (P := fun _ => True)
      (fun _ _ _ _ => trivial) trivial hslot
    replace hres := all_eq_true.mp hok _ (mem_of_getElem? hres)
    rw [hrest]
    refine runSlots_inv (P := fun s : Store => (s.lookup k).isSome = true) ?_ ?_
    · -- later slots only insert
      rintro s ⟨k', j⟩ - hs
      dsimp only
      split
      · exact hs
      · exact hs
      · unfold Hot.putIfAbsent Hot.put
        split
        · exact hs
        · split
          · exact hs
          · by_cases hkk : k = k'
            · subst hkk; simp
            · rwa [AList.lookup_insert_ne hkk]
    · have hget : m.persistent.getForOneKey k = some e := he
      cases hf : f.getEntry i with
      | some fc => simp [hf] at hres
      | none =>
        simp only [hf, hget] at hres ⊢
        unfold Hot.putIfAbsent Hot.put at hres ⊢
        split
        · assumption
        · rename_i habs
          rw [if_neg habs] at hres
          split
          · rename_i hn
            simp [hn] at hres
          · simp

theorem deleteTargets_code {it : DeleteItem} (hit : items[i]? = some it)
    (he : (m.deleteTargets f items).2[i]? = some e) :
    (e = .ok → ∀ id ∈ it.ids, Absent (m.deleteTargets f items).1 it.key id)
      ∧ (e = .noent → (m.persistent.has it.key = false ∧ m.persistent.kind ≠ .redis)
          ∨ ∃ c, m.cache = some c ∧ (m.hydrate f c (items.map (·.key))).2 = true
              ∧ (m.hydrate f c (items.map (·.key))).1.lookup it.key = none) := by
  unfold deleteTargets at he ⊢
  cases hc : m.cache with
  | none =>
    rw [hc] at he
    have := batch_deleteItem_code hit he
    exact ⟨fun h id hid => ⟨this.1 h id hid, fun c hc' => by simp at hc'⟩,
      fun h => Or.inl (this.2 h)⟩
  | some c =>
    rw [hc] at he
    dsimp only at he ⊢
    by_cases hh : (m.hydrate f c (items.map (·.key))).2 = true
    · rw [if_pos hh] at he ⊢
      have hlen : i < (batch deleteItem f.deleteLocations m.persistent
          items).2.length := by simpa using (List.getElem?_eq_some_iff.mp hit).1
      obtain ⟨ep, hep⟩ : ∃ ep, (batch deleteItem f.deleteLocations
          m.persistent items).2[i]? = some ep := ⟨_, getElem?_eq_getElem hlen⟩
      have hpers := batch_deleteItem_code hit hep
      by_cases hok : ep = .ok
      · -- the persistent layer removed the locations, and the cache follows
        subst hok
        obtain ⟨t, ht, hcode, hrest⟩ := Hot.conditional_slot Hot.deleteLocations
          (P := fun s => (s.lookup it.key).isSome
            = ((m.hydrate f c (items.map (·.key))).1.lookup it.key).isSome)
          (fun s x _ hs => (Hot.isSome_deleteLocations s x it.key).trans hs)
          rfl hit hep
        obtain rfl : (Hot.deleteLocations t it).2 = e := some.inj (hcode.symm.trans he)
        constructor
        · intro _ id hid
          refine ⟨hpers.1 rfl id hid, fun c' hc' => ?_⟩
          cases hc'
          refine hrest (fun s => s.cell it.key id = none)
            (fun s x _ hs => hot_deleteLocations_absent s x hs) ?_
          rw [Hot.cell_deleteLocations, if_pos ⟨rfl, hid⟩]
        · intro hno
          refine Or.inr ⟨c, rfl, hh, ?_⟩
          by_contra hsome
          have : (t.lookup it.key).isSome = true := by
            rw [ht]
            exact Option.isSome_iff_ne_none.mpr hsome
          rw [Hot.deleteLocations_code this] at hno
          cases hno
      · -- the cache repeats the code of the persistent layer
        obtain rfl := some.inj ((Hot.conditional_skipped hit hep hok).symm.trans he)
        exact ⟨fun h => absurd h hok, fun h => Or.inl (hpers.2 h)⟩
    · rw [if_neg hh] at he ⊢
      obtain rfl : ErrorCode.error = e := by
        rw [getElem?_map, hit] at he
        exact some.inj he
      exact ⟨nofun, nofun⟩

/-! ## Reading one location -/

/-- The read of one location, with `persistentRead` standing for the answer of
the persistent layer. -/
theorem getLocations_single (m : Manager) (rf : Nat → Option FaultCode) (k : KeyType)
    (id : LocationId) : m.getLocations rf k [id] = match m.cache with
      | none => m.readPersistent rf k [id]
      | some c =>
        if m.recoverState = .recover ∧ c.lookup k = none then m.readPersistent rf k [id]
        else [(Hot.backend c).getLocation k id] := by
  unfold getLocations
  cases m.cache with
  | none => rfl
  | some c =>
    dsimp only
    by_cases hk : c.lookup k = none
    · have hcell : (Hot.backend c).cell k id = none := Store.cell_of_none hk id
      simp [hk, getLocation, hcell]
    · simp [hk]

/-- A location of both layers that a delete can follow: one the cache misses
is missing below as well, unless the read falls back, and a cached one can be
deleted below. -/
def Traceable (m : Manager) (k : KeyType) (id : LocationId) : Prop :=
  ∀ c, m.cache = some c →
    (c.cell k id = none →
      m.persistent.cell k id = none ∨ (m.recoverState = .recover ∧ c.lookup k = none))
    ∧ ∀ l, c.cell k id = some l → l.id = id →
        m.persistent.has k = true ∨ m.persistent.kind = .redis

theorem readPersistent_single {rf : Nat → Option FaultCode} (h : m.readPersistent rf k [id] = [r]) :
    (r.1 = .noent → m.persistent.cell k id = none)
      ∧ (r.1 = .ok → m.persistent.has k = true) := by
  obtain rfl := head_eq_of_cons_eq h
  dsimp only
  split
  · rename_i fc _
    exact ⟨fun h => absurd h fc.ne_noent, fun h => absurd h fc.ne_ok⟩
  · unfold getLocation
    split
    · rename_i l hl
      refine ⟨by simp, fun _ => ?_⟩
      unfold has
      cases hk : m.persistent.store.lookup k with
      | none => rw [Backend.cell, Store.cell_of_none hk] at hl; cases hl
      | some e => rfl
    · rename_i hl
      exact ⟨fun _ => hl, by simp⟩

/-- The key of a location is there to be deleted from, in both layers. -/
structure Deletable (m : Manager) (k : KeyType) : Prop where
  persistent : m.persistent.has k = true ∨ m.persistent.kind = .redis
  cache : ∀ c, m.cache = some c → (c.lookup k).isSome = true
    ∨ (m.recoverState = .recover ∧ m.persistent.has k = true)

theorem lookup_of_cell {s : Store} {l : CacheLocation} (h : s.cell k id = some l) :
    (s.lookup k).isSome = true := by
  cases hk : s.lookup k with
  | none => rw [Store.cell_of_none hk] at h; cases h
  | some e => rfl

theorem checkRead_ok (h : (checkRead (id, r)).1 = .ok) :
    r.1 = .ok ∧ ∃ l, r.2 = some l ∧ l.id = id := by
  unfold checkRead at h
  split at h
  · cases h
  · rename_i hne
    dsimp only at h hne
    refine ⟨h, ?_⟩
    cases hr : r.2 with
    | none => exact absurd ⟨h, by simp [hr]⟩ hne
    | some l =>
      refine ⟨l, rfl, ?_⟩
      by_contra hid
      exact hne ⟨h, by simp [hr, hid]⟩

theorem checkRead_noent : (checkRead (id, r)).1 = .noent ↔ r.1 = .noent := by
  unfold checkRead
  split
  · rename_i h
    simp only [reduceCtorEq, false_iff]
    rw [h.1]
    nofun
  · rfl

theorem Traceable.read (ht : Traceable m k id) {rf : Nat → Option FaultCode}
    (h : m.getLocations rf k [id] = [r]) : ((checkRead (id, r)).1 = .noent → Absent m k id)
      ∧ ((checkRead (id, r)).1 = .ok → Deletable m k) := by
  rw [getLocations_single] at h
  cases hc : m.cache with
  | none =>
    rw [hc] at h
    have hp := readPersistent_single h
    refine ⟨fun hn => ⟨hp.1 (checkRead_noent.mp hn), by simp [hc]⟩, fun hok => ?_⟩
    exact ⟨Or.inl (hp.2 (checkRead_ok hok).1), by simp [hc]⟩
  | some c =>
    simp only [hc] at h
    obtain ⟨hmiss, hhit⟩ := ht c hc
    split at h
    · -- the read fell back: the cache does not have the key at all
      rename_i hfall
      have hp := readPersistent_single h
      have hcell := Store.cell_of_none hfall.2 id
      refine ⟨fun hn => .of_cache hc (hp.1 (checkRead_noent.mp hn)) hcell, fun hok => ?_⟩
      have hhas := hp.2 (checkRead_ok hok).1
      exact ⟨Or.inl hhas, fun _ _ => Or.inr ⟨hfall.1, hhas⟩⟩
    · rename_i hno
      obtain rfl := head_eq_of_cons_eq h
      unfold getLocation
      cases hcell : (Hot.backend c).cell k id with
      | none =>
        refine ⟨fun _ => ?_, fun hok => by simp [checkRead] at hok⟩
        exact .of_cache hc ((hmiss hcell).resolve_right hno) hcell
      | some l =>
        refine ⟨fun hn => by simp [checkRead_noent] at hn, fun hok => ?_⟩
        obtain ⟨-, l', hl', hid⟩ := checkRead_ok hok
        cases hl'
        refine ⟨hhit l hcell hid, fun c' hc' => Or.inl ?_⟩
        rw [hc] at hc'
        cases hc'
        exact lookup_of_cell hcell

/-- A delete that found its location either removes it from both layers or
reports another failure than a missing key. -/
theorem Deletable.code (hd : Deletable m k) {it : DeleteItem} (hk : it.key = k)
    (hit : items[i]? = some it) (he : (m.deleteTargets f items).2[i]? = some e) : e ≠ .noent := by
  subst hk
  intro hno
  rcases (deleteTargets_code hit he).2 hno with ⟨hhas, hkind⟩ | ⟨c, hc, hok, hnone⟩
  · rcases hd.persistent with h | h
    · rw [h] at hhas; cases hhas
    · exact hkind h
  · have hsome : ((m.hydrate f c (items.map (·.key))).1.lookup it.key).isSome = true := by
      rcases hd.cache c hc with h | ⟨hrec, hp⟩
      · obtain ⟨v, hv⟩ := Option.isSome_iff_exists.mp h
        rw [m.hydrate_of_some f _ hv]
        rfl
      · exact hydrate_present hok hrec
          (mem_map.mpr ⟨it, mem_of_getElem? hit, rfl⟩) hp
    rw [hnone] at hsome
    cases hsome

/-! ## The delete of a key the persistent layer does not have -/

/-- Without faults such a delete reports `EC_NOENT`, and because the cache
only follows a success, it leaves the cached copy in place. -/
theorem deleteTargets_missing (hhas : m.persistent.has k = false)
    (hkind : m.persistent.kind ≠ .redis) (hids : ∀ it ∈ items, it.ids ≠ []) :
    SameAt k m (m.deleteTargets {} items).1
      ∧ ∀ (i : Nat) (it : DeleteItem), items[i]? = some it → it.key = k →
          (m.deleteTargets {} items).2[i]? = some .noent := by
  have hcodes : ∀ (i : Nat) (it : DeleteItem), items[i]? = some it → it.key = k →
      (batch deleteItem (fun _ => none) m.persistent items).2[i]?
        = some .noent := by
    intro i it hit hk
    obtain ⟨t, ht, hcode, -⟩ := batch_slot deleteItem
      (P := fun t => t.kind = m.persistent.kind ∧ t.has k = false)
      (fun t x _ ht => ⟨(deleteItem_kind t x).trans ht.1,
        (deleteItem_has (ht.1 ▸ hkind) x k).trans ht.2⟩)
      (fun _ => none) ⟨rfl, hhas⟩ hit rfl
    have hnone : t.store.lookup it.key = none := by
      rw [hk]
      simpa [has] using ht.2
    rw [hcode, deleteItem, deleteLocationsForOneKey,
      if_neg (by simpa using hids it (mem_of_getElem? hit)), hnone]
    simp [ht.1, hkind]
  have hpers : Backend.SameAt k m.persistent
      (batch deleteItem (fun _ => none) m.persistent items).1 := by
    refine batch_inv (P := Backend.SameAt k m.persistent) ?_ _ ⟨rfl, rfl⟩
    intro b it _ hb
    by_cases hk : k = it.key
    · have hnone : b.store.lookup it.key = none := by
        rw [← hk, hb.1]
        simpa [has] using hhas
      unfold deleteItem deleteLocationsForOneKey
      split
      · exact hb
      · rw [hnone]; exact hb
    · exact deleteItem_sameAt hk hb
  unfold deleteTargets
  cases hc : m.cache with
  | none => exact ⟨⟨hpers.1, hpers.2, by simp [hc], rfl⟩, hcodes⟩
  | some c =>
    dsimp only
    rw [if_pos (m.hydrate_noFault c _)]
    have hhyd : (m.hydrate {} c (items.map (·.key))).1.lookup k = c.lookup k := by
      rcases m.hydrate_lookup {} c (items.map (·.key)) k with h | ⟨hn, h⟩
      · exact h
      · rw [h, hn]
        simpa [has] using hhas
    have hcond : (Hot.conditional Hot.deleteLocations (m.hydrate {} c (items.map (·.key))).1
        items (batch deleteItem (fun _ => none) m.persistent items).2).1.lookup k
          = c.lookup k := by
      refine runSlots_inv (P := fun s : Store => s.lookup k = c.lookup k) ?_ hhyd
      rintro s ⟨it, e⟩ hp hs
      obtain ⟨i, hi⟩ := mem_iff_getElem?.mp hp
      obtain ⟨hit, he⟩ := getElem?_zip_eq_some.mp hi
      dsimp only
      split
      · rename_i hok
        have hk : k ≠ it.key := by
          intro hk
          rw [hcodes i it hit hk.symm] at he
          cases he
          cases hok
        exact (Hot.deleteLocations_lookup_ne hk s).trans hs
      · exact hs
    refine ⟨⟨hpers.1, hpers.2, by simp [hc, hcond], rfl⟩, fun i it hit hk => ?_⟩
    exact Hot.conditional_skipped hit (hcodes i it hit hk) (by decide)

theorem deleteLocations_missing (hhas : m.persistent.has k = false)
    (hkind : m.persistent.kind ≠ .redis) (hids : ∀ it ∈ items, it.ids ≠ []) :
    SameAt k m (m.deleteLocations {} items).1 := by
  obtain ⟨hsame, hcodes⟩ := deleteTargets_missing hhas hkind hids
  refine hsame.trans (delete_sameAt ?_ _)
  intro hk
  obtain ⟨⟨i, hki, hcode⟩, -⟩ := mem_reclaimKeys hk
  obtain ⟨it, hit, hkey⟩ : ∃ it : DeleteItem, items[i]? = some it ∧ it.key = k := by
    simpa using hki
  rw [hcodes i it hit hkey] at hcode
  cases hcode

/-! ## Refused deletes -/

theorem batch_rejected {α : Type} {op : Backend → α → Backend × ErrorCode}
    {faults : Nat → Option Fault} (h : ∀ i, ∃ c, faults i = some (.rejected c)) (b : Backend)
    (items : List α) : (batch op faults b items).1 = b := by
  refine runSlots_inv (P := fun b' => b' = b) ?_ rfl
  rintro b' ⟨it, i⟩ - rfl
  obtain ⟨c, hc⟩ := h i
  simp [hc, Fault.apply]

theorem deleteLocations_rejected (h : ∀ i, ∃ c, f.deleteLocations i = some (.rejected c))
    (h' : ∀ i, ∃ c, f.delete i = some (.rejected c)) (m : Manager) (items : List DeleteItem) :
    (m.deleteLocations f items).1.persistent = m.persistent := by
  have htargets : (m.deleteTargets f items).1.persistent = m.persistent := by
    unfold deleteTargets
    cases m.cache with
    | none => exact batch_rejected h _ _
    | some c =>
      dsimp only
      split
      · exact batch_rejected h _ _
      · rfl
  have hdelete : ∀ (m' : Manager) (keys : List KeyType),
      (m'.delete f keys).1.persistent = m'.persistent := by
    intro m' keys
    unfold delete
    cases m'.cache <;> exact batch_rejected h' _ _
  exact (hdelete _ _).trans htargets

end Manager

/-! ## One batch of the metadata delete -/

variable (env : RollbackEnv)

namespace Indexer

/-- The modifier of a delete that checks no values. -/
def deleteModifier : LocationModifier (List (DataStorageType × Nat)) :=
  slotModifier .delete fun _ _ => deleteSlot none

theorem deleteSlot_honest (expected : Nat → Nat → Option CacheLocation.Json) :
    Honest fun i j => deleteSlot (expected i j) := by
  intro i j id r hr
  have hne : r.1 ≠ .ok ∧ r.1 ≠ .noent := by simpa [readFailed] using hr
  simp only [deleteSlot]
  split
  · exact if_pos hne.1
  · rw [if_pos hne.1]

theorem decideDelete_single (hids : t.ids = [id]) (hid : id ≠ "") (raw : LocationRead) :
    let d := decideLocations false deleteModifier t .ok [raw]
    ((checkRead (id, raw)).1 = .ok → d.intent = .delete [id] ∧ d.codes = [.ok])
      ∧ ((checkRead (id, raw)).1 ≠ .ok → d.intent = .settled
          ∧ d.codes = [(checkRead (id, raw)).1]) := by
  have hd := decideLocations_slots (deleteSlot_honest fun _ _ => none) .delete t [raw]
    (by simp [hids])
  dsimp only
  rw [deleteModifier, hd]
  generalize hr : checkRead (id, raw) = r
  constructor
  · intro hok
    simp [slotDecision, slotsOf, readsOf, placed, slotAction, intentOf, codesOf, aliveIds, hids,
      hr, deleteSlot, hok, hid]
  · intro hne
    simp [slotDecision, slotsOf, readsOf, placed, slotAction, intentOf, codesOf, hids,
      hr, deleteSlot, hne, hid]

def SingleTargets (ts : List Target) : Prop := ∀ t ∈ ts, ∃ id, t.ids = [id] ∧ id ≠ ""

/-- One target of a batch: what it read, and what became of it. -/
def DeleteTrace (m : Manager) (f : WriteFaults) (items : List DeleteItem) (t : Target)
    (id : LocationId) (o : Outcome (List (DataStorageType × Nat))) : Prop :=
  ∃ rf r, m.getLocations rf t.key [id] = [r]
    ∧ ((checkRead (id, r)).1 ≠ .ok → o.codes = [(checkRead (id, r)).1])
    ∧ ((checkRead (id, r)).1 = .ok → ∃ (i : Nat) (e : ErrorCode),
        items[i]? = some ⟨t.key, [id]⟩ ∧ (m.deleteTargets f items).2[i]? = some e
          ∧ o.codes = [e])

def deleteBatch (ix : Indexer) (env : BatchFaults) (ts : List Target) :
    Indexer × List (Nat × Outcome (List (DataStorageType × Nat))) :=
  ix.locationBatch { adjustReclaimed := false } deleteModifier env ts

def batchItems (ix : Indexer) (env : BatchFaults) (ts : List Target) : List DeleteItem :=
  deletesOf (ix.plainDecisions deleteModifier env ts)

theorem decision_of_target (env : BatchFaults) (ht : t ∈ ts) (hids : t.ids = [id]) :
    ∃ rf r, ix.manager.getLocations rf t.key [id] = [r]
      ∧ decideLocations false deleteModifier t .ok [r]
          ∈ ix.plainDecisions deleteModifier env ts := by
  obtain ⟨s, hs⟩ := mem_iff_getElem?.mp ht
  have hlen := ix.manager.getLocations_length (env.read s) t.key [id]
  obtain ⟨r, hr⟩ := length_eq_one_iff.mp hlen
  refine ⟨env.read s, r, hr, mem_map.mpr ⟨(t, s), ?_, ?_⟩⟩
  · exact mk_mem_zipIdx_iff_getElem?.mpr hs
  · dsimp only
    rw [hids, hr]

theorem decision_single {ix : Indexer} {env : BatchFaults} (hts : SingleTargets ts)
    {d : Decision (List (DataStorageType × Nat))} (hd : d ∈ ix.plainDecisions deleteModifier env ts)
      :
    d.upsert? = none ∧ ∀ x, d.delete? = some x → x.item.ids ≠ [] := by
  obtain ⟨⟨t, s⟩, hmem, rfl⟩ := mem_map.mp hd
  obtain ⟨id, hids, hid⟩ := hts t (fst_mem_of_mem_zipIdx hmem)
  obtain ⟨r, hr⟩ := length_eq_one_iff.mp
    (ix.manager.getLocations_length (env.read s) t.key [id])
  dsimp only
  rw [hids, hr]
  obtain ⟨hok, hne⟩ := decideDelete_single hids hid r
  by_cases h : (checkRead (id, r)).1 = .ok
  · simp [upsert?, delete?, (hok h).1]
  · simp [upsert?, delete?, (hne h).1]

theorem batchItems_ids (env : BatchFaults) (hts : SingleTargets ts) :
    ∀ it ∈ ix.batchItems env ts, it.ids ≠ [] := by
  intro it hit
  obtain ⟨x, hx, rfl⟩ := mem_map.mp hit
  obtain ⟨d, hd, hx'⟩ := mem_filterMap.mp hx
  exact (decision_single hts hd).2 x hx'

theorem deleteBatch_manager {ix : Indexer} {env : BatchFaults} (hts : SingleTargets ts) :
    (ix.deleteBatch env ts).1.manager
      = (ix.manager.deleteLocations env.delete (ix.batchItems env ts)).1 := by
  rw [deleteBatch, locationBatch_plain, write,
    deletePhase_targets _ _ _ fun d hd => (decision_single hts hd).1]
  rfl

theorem deleteBatch_trace (env : BatchFaults) (hts : SingleTargets ts)
    (hnd : (ts.map (·.index)).Nodup) (ht : t ∈ ts) (hids : t.ids = [id]) :
    ∃ o, (t.index, o) ∈ (ix.deleteBatch env ts).2
      ∧ DeleteTrace ix.manager env.delete (ix.batchItems env ts) t id o := by
  have hid : id ≠ "" := by
    obtain ⟨id', hids', hid'⟩ := hts t ht
    rw [hids] at hids'
    rwa [head_eq_of_cons_eq hids']
  obtain ⟨rf, r, hr, hd⟩ := decision_of_target ix env ht hids
  obtain ⟨hok, hne⟩ := decideDelete_single hids hid r
  have hds : ((ix.plainDecisions deleteModifier env ts).map (·.index)).Nodup := by
    rwa [plainDecisions_index]
  have hups : ∀ d ∈ ix.plainDecisions deleteModifier env ts, d.upsert? = none :=
    fun d hd => (decision_single hts hd).1
  have hidx := (decideLocations_target false deleteModifier t .ok [r]).1
  refine ⟨(decideLocations false deleteModifier t .ok [r]).finish (ix.rmwCode env .targets false
    (ix.plainDecisions deleteModifier env ts) t.index) true, ?_, ⟨rf, r, hr, ?_, ?_⟩⟩
  · rw [deleteBatch, locationBatch_plain, write]
    refine mem_map.mpr ⟨_, hd, ?_⟩
    rw [hidx]
    rfl
  · intro h
    rw [finish, (hne h).2, map_singleton, if_neg h]
  · intro h
    have hdel : (decideLocations false deleteModifier t .ok [r]).delete?
        = some ⟨t.index, ⟨t.key, [id]⟩⟩ := by
      rw [delete?, (hok h).1, hidx,
        (decideLocations_target false deleteModifier t .ok [r]).2]
    have hmem := mem_filterMap.mpr ⟨_, hd, hdel⟩
    obtain ⟨i, hi⟩ := mem_iff_getElem?.mp hmem
    have hitem : (ix.batchItems env ts)[i]? = some ⟨t.key, [id]⟩ := by
      rw [batchItems, deletesOf, getElem?_map, hi]
      rfl
    have hlt : i < (ix.manager.deleteTargets env.delete (ix.batchItems env ts)).2.length := by
      simpa using (List.getElem?_eq_some_iff.mp hitem).1
    have hcode : ix.rmwCode env .targets false (ix.plainDecisions deleteModifier env ts) t.index
        = (ix.manager.deleteTargets env.delete (ix.batchItems env ts)).2[i] := by
      refine rmwCode_delete hds (x := ⟨t.index, ⟨t.key, [id]⟩⟩)
        (mem_of_getElem? (getElem?_zip_eq_some.mpr ⟨hi, ?_⟩))
      rw [deletePhase_targets _ _ _ hups]
      exact getElem?_eq_getElem hlt
    refine ⟨i, _, hitem, getElem?_eq_getElem hlt, ?_⟩
    rw [finish, (hok h).2, map_singleton, if_pos rfl, hcode]

theorem deleteBatch_sameAt (env : BatchFaults) (ts : List Target) (k : KeyType)
    (h : k ∉ ts.map Target.key) : Manager.SameAt k ix.manager (ix.deleteBatch env ts).1.manager :=
  locationBatch_sameAt _ _ _ _ h

theorem deleteBatch_labels (env : BatchFaults) (ts : List Target) :
    (ix.deleteBatch env ts).2.map (·.1) = ts.map (·.index) :=
  locationBatch_labels _ _ _ _ _

/-! ## The whole delete -/

/-- The location of `t` is gone if its code says so. -/
def Freed (m : Manager) (t : Target) (o : Outcome (List (DataStorageType × Nat))) : Prop :=
  ∀ id e, t.ids = [id] → o.codes = [e] → e = .ok ∨ e = .noent → m.Absent t.key id

theorem freed_of_trace {m : Manager} (hids : t.ids = [id]) (htr : m.Traceable t.key id)
    (h : DeleteTrace m f items t id o) :
    Freed (m.deleteLocations f items).1 t o := by
  obtain ⟨rf, r, hr, hne, hok⟩ := h
  obtain ⟨hnoent, hdel⟩ := htr.read hr
  intro id' e hids' he hcode
  obtain rfl : id = id' := head_eq_of_cons_eq (hids.symm.trans hids')
  by_cases h : (checkRead (id, r)).1 = .ok
  · obtain ⟨i, e', hit, hcode', hcodes⟩ := hok h
    obtain rfl : e = e' := head_eq_of_cons_eq (he.symm.trans hcodes)
    have hne : e ≠ .noent := (hdel h).code rfl hit hcode'
    have hok : e = .ok := hcode.resolve_right hne
    exact ((Manager.deleteTargets_code hit hcode').1 hok id (mem_singleton_self id)).delete
      _ _
  · have heq : e = (checkRead (id, r)).1 := head_eq_of_cons_eq (he.symm.trans (hne h))
    rw [← heq] at h hnoent
    exact ((hnoent (hcode.resolve_left h)).deleteTargets _ _).delete _ _

theorem Traceable_of_sameAt {m m' : Manager} (hs : Manager.SameAt k m m') (h : m.Traceable k id) :
    m'.Traceable k id := by
  intro c' hc'
  obtain ⟨c, hc, hlook⟩ := hs.cache_lookup hc'
  obtain ⟨hmiss, hhit⟩ := h c hc
  have hcell : c'.cell k id = c.cell k id := by rw [Store.cell, Store.cell, hlook]
  rw [hcell, hs.cell id, hs.recoverState, hlook, has, hs.persistent, hs.kind]
  exact ⟨hmiss, hhit⟩

/-- A location that only the persistent layer holds, where the cache
answers. -/
def Hidden (m : Manager) (k : KeyType) (id : LocationId) : Prop :=
  ∃ c, m.cache = some c ∧ c.cell k id = none ∧ m.persistent.cell k id ≠ none
    ∧ ¬(m.recoverState = .recover ∧ c.lookup k = none)

/-- A cached location whose key the persistent layer does not have. -/
def Stranded (m : Manager) (k : KeyType) (id : LocationId) : Prop :=
  ∃ c l, m.cache = some c ∧ c.cell k id = some l ∧ l.id = id ∧ m.persistent.has k = false
    ∧ m.persistent.kind ≠ .redis

theorem not_traceable {m : Manager} (h : ¬m.Traceable k id) : Hidden m k id ∨ Stranded m k id := by
  simp only [Manager.Traceable, not_forall, not_and_or, not_or, exists_prop] at h
  obtain ⟨c, hc, ⟨hnone, hp, hno⟩ | ⟨l, hl, hid, hhas, hkind⟩⟩ := h
  · exact .inl ⟨c, hc, hnone, hp, not_and_or.mpr hno⟩
  · exact .inr ⟨c, l, hc, hl, hid, by simpa using hhas, hkind⟩

theorem Hidden.of_sameAt {m m' : Manager} (hs : Manager.SameAt k m m') (h : Hidden m k id) :
    Hidden m' k id := by
  obtain ⟨c, hc, hmiss, hp, hno⟩ := h
  obtain ⟨c', hc', hlook⟩ := hs.lookup_cache hc
  refine ⟨c', hc', ?_, ?_, ?_⟩
  · rwa [Store.cell, hlook]
  · rwa [hs.cell id]
  · rwa [hs.recoverState, hlook]

theorem Stranded.of_sameAt {m m' : Manager} (hs : Manager.SameAt k m m') (h : Stranded m k id) :
    Stranded m' k id := by
  obtain ⟨c, l, hc, hl, hid, hhas, hkind⟩ := h
  obtain ⟨c', hc', hlook⟩ := hs.lookup_cache hc
  refine ⟨c', l, hc', ?_, hid, ?_, ?_⟩
  · rwa [Store.cell, hlook]
  · rwa [has, hs.persistent]
  · rwa [hs.kind]

/-- An environment in which the persistent layer refuses every delete. -/
def refuseDeletes : BatchFaults :=
  let refuse : Nat → Option Fault := fun _ => some (.rejected ⟨.ioError, nofun, nofun⟩)
  { delete := { deleteLocations := refuse, delete := refuse } }

/-! ## The reconciliation -/

def uncertainTargets (items : List RollbackItem) : List Target :=
  items.zipIdx.map fun p => ⟨p.2, p.1.key, [p.1.result.locationId]⟩

theorem mem_rollbackItems {results : List AddResult} :
    it ∈ rollbackItems keys results
      ↔ keys[it.index]? = some it.key ∧ results[it.index]? = some it.result := by
  constructor
  · intro h
    obtain ⟨⟨⟨k, r⟩, i⟩, hmem, rfl⟩ := mem_map.mp h
    exact getElem?_zip_eq_some.mp (mk_mem_zipIdx_iff_getElem?.mp hmem)
  · intro h
    exact mem_map.mpr ⟨((it.key, it.result), it.index),
      mk_mem_zipIdx_iff_getElem?.mpr (getElem?_zip_eq_some.mpr h), rfl⟩

theorem uncertainTargets_index (items : List RollbackItem) :
    (uncertainTargets items).map (·.index) = List.range items.length := by
  rw [uncertainTargets, map_map]
  have := zipIdx_map_snd 0 items
  rw [range_eq_range']
  exact this

theorem uncertainItems_id {results : List AddResult} (h : it ∈ uncertainItems keys results) :
    it.result.locationId ≠ "" := by
  have := (mem_filter.mp h).2
  simp only [RollbackItem.uncertain, Bool.and_eq_true, decide_eq_true_eq] at this
  exact this.2

theorem deleteUncertain_eq (items : List RollbackItem) :
    ix.deleteUncertain env items
      = locationResults items.length
          (runBatches deleteBatch env.batch ix (uncertainTargets items)) := by
  have htargets : targetsOf (items.map (·.key)) (items.map fun it => [it.result.locationId])
      = uncertainTargets items := by
    rw [targetsOf, uncertainTargets, zip_map', zipIdx_map, map_map]
    rfl
  have hmod : (slotModifier .delete fun i j =>
      deleteSlot ((([] : List (List CacheLocation.Json)).getD i [])[j]?)) = deleteModifier := by
    simp [deleteModifier]
  unfold deleteUncertain batchDeleteLocations readModifyWriteLocation readModifyWriteLocationImpl
  simp only [length_map, ne_eq, not_true_eq_false, false_and, or_self, if_false, Bool.false_eq_true]
  rw [htargets, hmod]
  rfl

theorem deleteUncertain_length (items : List RollbackItem) :
    (ix.deleteUncertain env items).2.2.length = items.length := by
  rw [deleteUncertain_eq]
  simp [locationResults, outcomes]

/-- Every index freed directly has its location absent from both layers, in
every environment of the reconciliation. -/
def RollbackSafe (ix : Indexer) (keys : List KeyType) (results : List AddResult) : Prop :=
  ∀ (env : RollbackEnv),
    ∀ i ∈ (ix.reconcileAddLocationRollback env keys results).2.2.directDeleteIndices,
      ∀ k r, keys[i]? = some k → results[i]? = some r → r.locationId ≠ "" →
        (ix.reconcileAddLocationRollback env keys results).1.manager.Absent k r.locationId

section

variable {results : List AddResult}

theorem uncertainTargets_single (keys : List KeyType) (results : List AddResult) :
    SingleTargets (uncertainTargets (uncertainItems keys results)) := by
  intro t ht
  obtain ⟨⟨it, j⟩, hmem, rfl⟩ := mem_map.mp ht
  exact ⟨_, rfl, uncertainItems_id (fst_mem_of_mem_zipIdx hmem)⟩

theorem deleteUncertain_at (hit : (uncertainItems keys results)[j]? = some it) :
    ∃ m n items o, (∀ x ∈ items, x.ids ≠ []) ∧ Manager.SameAt it.key ix.manager m
      ∧ DeleteTrace m (env.batch n).delete items ⟨j, it.key, [it.result.locationId]⟩
        it.result.locationId o
      ∧ Manager.SameAt it.key (m.deleteLocations (env.batch n).delete items).1
        (ix.deleteUncertain env (uncertainItems keys results)).1.manager
      ∧ (ix.deleteUncertain env (uncertainItems keys results)).2.2[j]? = some o.codes := by
  have hnd : ((uncertainTargets (uncertainItems keys results)).map (·.index)).Nodup := by
    rw [uncertainTargets_index]
    exact nodup_range
  obtain ⟨ix', n, B, hsub, hBnd, hmem, hbefore, hafter, houts⟩ := runBatches_at env.batch ix hnd
    deleteBatch_sameAt (mem_map.mpr ⟨(it, j), mk_mem_zipIdx_iff_getElem?.mpr hit, rfl⟩)
  have hB : SingleTargets B := fun t' ht' => uncertainTargets_single keys results t' (hsub ht')
  obtain ⟨o, ho, htrace⟩ := deleteBatch_trace ix' (env.batch n) hB hBnd hmem rfl
  -- the outcome that is looked up is the one that was produced
  have hat : outcomeAt (runBatches deleteBatch env.batch ix
      (uncertainTargets (uncertainItems keys results))).2 j = o :=
    labelled_of_mem _ ((runBatches_labels deleteBatch_labels _ _ _).nodup_iff.mpr hnd) (houts ho)
  refine ⟨_, n, _, o, ix'.batchItems_ids _ hB, hbefore, htrace, ?_, ?_⟩
  · rw [deleteUncertain_eq, ← deleteBatch_manager hB]
    exact hafter
  · rw [deleteUncertain_eq]
    simp [locationResults, outcomes, (List.getElem?_eq_some_iff.mp hit).1, hat]

variable {ix : Indexer}

theorem deleteUncertain_shape {codes : List ErrorCode}
    (h : (ix.deleteUncertain env (uncertainItems keys results)).2.2[j]? = some codes) :
    codes.length = 1 := by
  have hj : j < (uncertainItems keys results).length := by
    rw [← deleteUncertain_length ix env]
    exact (List.getElem?_eq_some_iff.mp h).1
  obtain ⟨m, n, items, o, -, -, ⟨rf, r, -, hne, hok⟩, -, hcodes⟩ :=
    deleteUncertain_at ix env (getElem?_eq_getElem hj)
  rw [some.inj (h.symm.trans hcodes)]
  by_cases h : (checkRead ((uncertainItems keys results)[j].result.locationId, r)).1 = .ok
  · obtain ⟨i, e, -, -, hcodes⟩ := hok h
    rw [hcodes]
    rfl
  · rw [hne h]
    rfl

/-- One environment leaves a location that is not traceable behind and reports
that it is not there. -/
theorem untraceable_left (hit : (uncertainItems keys results)[j]? = some it)
    (h : ¬ix.manager.Traceable it.key it.result.locationId) : ∃ env : RollbackEnv,
      (ix.deleteUncertain env (uncertainItems keys results)).2.2[j]? = some [.noent]
      ∧ ¬(ix.deleteUncertain env (uncertainItems keys results)).1.manager.Absent it.key
        it.result.locationId := by
  rcases not_traceable h with hhid | hstr
  · refine ⟨⟨fun _ => refuseDeletes, true⟩, ?_⟩
    obtain ⟨m, n, items, o, -, hsame, ⟨rf, r, hr, hne, -⟩, hafter, hcodes⟩ :=
      deleteUncertain_at ix ⟨fun _ => refuseDeletes, true⟩ hit
    obtain ⟨c, hc, hmiss, hp, hno⟩ := hhid.of_sameAt hsame
    have hread : (checkRead (it.result.locationId, r)).1 = .noent := by
      rw [Manager.getLocations_single, hc] at hr
      simp only [if_neg hno] at hr
      obtain rfl := head_eq_of_cons_eq hr
      have hcell : (Hot.backend c).cell it.key it.result.locationId = none := hmiss
      simp [getLocation, hcell, checkRead]
    refine ⟨by rw [hcodes, hne (by rw [hread]; nofun), hread], fun habs => hp ?_⟩
    rw [← habs.persistent, hafter.cell,
      Manager.deleteLocations_rejected (fun _ => ⟨_, rfl⟩) (fun _ => ⟨_, rfl⟩)]
  · refine ⟨⟨fun _ => {}, true⟩, ?_⟩
    obtain ⟨m, n, items, o, hne, hsame, ⟨rf, r, hr, -, hok⟩, hafter, hcodes⟩ :=
      deleteUncertain_at ix ⟨fun _ => {}, true⟩ hit
    have hstr' := hstr.of_sameAt hsame
    have ⟨c, l, hc, hl, hid, hhas, hkind⟩ := hstr'
    have hread : (checkRead (it.result.locationId, r)).1 = .ok := by
      rw [Manager.getLocations_single, hc] at hr
      have hno : ¬(m.recoverState = .recover ∧ c.lookup it.key = none) := fun h => by
        rw [Store.cell_of_none h.2] at hl
        cases hl
      simp only [if_neg hno] at hr
      obtain rfl := head_eq_of_cons_eq hr
      have hcell : (Hot.backend c).cell it.key it.result.locationId = some l := hl
      simp [getLocation, hcell, checkRead, hid]
    obtain ⟨i, e, hit, he, hcode⟩ := hok hread
    have hnoent := (Manager.deleteTargets_missing hhas hkind hne).2 i _ hit rfl
    refine ⟨by rw [hcodes, hcode, some.inj (he.symm.trans hnoent)], fun habs => ?_⟩
    obtain ⟨c', l', hc', hl', -⟩ :=
      (hstr'.of_sameAt (Manager.deleteLocations_missing hhas hkind hne)).of_sameAt hafter
    rw [habs.cache c' hc'] at hl'
    cases hl'

theorem reconcile_of_item (hlen : keys.length = results.length)
    (hne : uncertainItems keys results ≠ []) : ix.reconcileAddLocationRollback env keys results
      = ((ix.deleteUncertain env (uncertainItems keys results)).1, .ok,
          { classifyItems (rollbackItems keys results) with
            directDeleteIndices :=
              (classifyItems (rollbackItems keys results)).directDeleteIndices
                ++ (((uncertainItems keys results).zip
                    (ix.deleteUncertain env (uncertainItems keys results)).2.2).filter
                  fun p => confirmsAbsence env.synced p.2).map (·.1.index) }) := by
  unfold reconcileAddLocationRollback
  rw [if_neg (by simpa using hlen)]
  dsimp only
  rw [if_neg (by simpa using hne), if_neg]
  rintro (h | h)
  · exact h (deleteUncertain_length ix env _)
  · obtain ⟨codes, hmem, hbad⟩ := any_eq_true.mp h
    obtain ⟨j, hj⟩ := mem_iff_getElem?.mp hmem
    simp [deleteUncertain_shape env hj] at hbad

theorem traceable_of_safe (h : RollbackSafe ix keys results) (hlen : keys.length = results.length)
    (hit : it ∈ uncertainItems keys results) :
    ix.manager.Traceable it.key it.result.locationId := by
  by_contra hnot
  obtain ⟨j, hj⟩ := mem_iff_getElem?.mp hit
  obtain ⟨env, hcode, habs⟩ := untraceable_left hj hnot
  have hitem := mem_rollbackItems.mp (mem_filter.mp hit).1
  have hsafe := h env it.index (by
    rw [reconcile_of_item env hlen (ne_nil_of_mem hit)]
    exact mem_append_right _ (mem_map.mpr ⟨(it, [.noent]), mem_filter.mpr
      ⟨mem_of_getElem? (getElem?_zip_eq_some.mpr ⟨hj, hcode⟩), rfl⟩, rfl⟩)) it.key it.result hitem.1
    hitem.2 (uncertainItems_id hit)
  rw [reconcile_of_item env hlen (ne_nil_of_mem hit)] at hsafe
  exact habs hsafe

theorem safe_of_traceable
    (htr : keys.length = results.length → ∀ it ∈ uncertainItems keys results,
      ix.manager.Traceable it.key it.result.locationId) : RollbackSafe ix keys results := by
  intro env i hi k r hk hr hid
  by_cases hlen : keys.length = results.length
  case neg => simp [reconcileAddLocationRollback, hlen] at hi
  -- an index without an id is none of the ones the statement is about
  have hunwritten : i ∉ (classifyItems (rollbackItems keys results)).directDeleteIndices := by
    intro hmem
    obtain ⟨it, hit, rfl⟩ := mem_map.mp hmem
    obtain ⟨hit, hempty⟩ := mem_filter.mp hit
    obtain rfl : it.result = r :=
      some.inj ((mem_rollbackItems.mp hit).2.symm.trans hr)
    exact hid (by simpa [RollbackItem.unwritten] using hempty)
  by_cases hne : uncertainItems keys results = []
  · rw [reconcileAddLocationRollback, if_neg (by simpa using hlen)] at hi
    simp only [hne, isEmpty_nil, if_true] at hi
    exact absurd hi hunwritten
  · rw [reconcile_of_item env hlen hne] at hi ⊢
    obtain ⟨⟨it, codes⟩, hfreed, rfl⟩ :=
      mem_map.mp ((mem_append.mp hi).resolve_left hunwritten)
    obtain ⟨hzip, hconf⟩ := mem_filter.mp hfreed
    obtain ⟨j, hj⟩ := mem_iff_getElem?.mp hzip
    obtain ⟨hit, hcodes⟩ := getElem?_zip_eq_some.mp hj
    have hmem := mem_of_getElem? hit
    have hitem := mem_rollbackItems.mp (mem_filter.mp hmem).1
    obtain rfl : it.key = k := some.inj (hitem.1.symm.trans hk)
    obtain rfl : it.result = r := some.inj (hitem.2.symm.trans hr)
    obtain ⟨e, rfl⟩ := length_eq_one_iff.mp (deleteUncertain_shape env hcodes)
    obtain ⟨m, n, items, o, -, hsame, htrace, hafter, hcodes'⟩ := deleteUncertain_at ix env hit
    refine .of_sameAt hafter (freed_of_trace rfl (Traceable_of_sameAt hsame (htr hlen it hmem))
      htrace _ e rfl (some.inj (hcodes'.symm.trans hcodes)) ?_)
    have hcode : e = .noent ∨ e = .ok ∧ env.synced = true := by
      simpa [confirmsAbsence] using hconf
    exact hcode.elim Or.inr fun h => Or.inl h.1

end

/-- The URIs freed directly are unreferenced in every environment exactly when
every uncertain location can be traced through the two layers. -/
theorem reconcile_safe_iff (ix : Indexer) (keys : List KeyType) (results : List AddResult) :
    RollbackSafe ix keys results
      ↔ (keys.length = results.length → ∀ it ∈ uncertainItems keys results,
          ix.manager.Traceable it.key it.result.locationId) :=
  ⟨fun h hlen _ hit => traceable_of_safe h hlen hit, safe_of_traceable⟩

/-! ## An add that reached one layer

The persistent layer accepts the new location and the cache runs out of
space. The add reports `EC_NOSPC`, and the rollback frees the URI that the
persistent layer still references. -/

def emptyTwoLayers : Indexer :=
  { config := { maxKeyCount := 10, batchKeySize := 4, shardNum := 1, shardOf := fun _ => ⟨0, Nat.one_pos⟩ }
    manager :=
      { persistent := { kind := .localMem, store := ∅ }, cache := some ∅
        recoverState := .running, deletedKeys := [] } }

/-- The failed add, its rollback, and what they leave behind. -/
theorem add_reached_one_layer_freed :
    let add := emptyTwoLayers.batchAddLocation
      { ids := longerIds, batch := fun _ => { upsert := { cacheNospc := fun _ => true } } }
      [7] [{ type := .nfs }]
    let rollback := add.1.reconcileAddLocationRollback {} [7] add.2.2
    add.2.2 = [⟨.nospc, "x"⟩]
      ∧ rollback.2.2.directDeleteIndices = [0]
      ∧ (rollback.1.manager.persistent.cell 7 "x").isSome = true := by
  decide +kernel

end Indexer

end TairKvCache
