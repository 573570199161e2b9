import TairKvCache.Indexer

/-!
# What a call leaves alone

A manager call touches the keys it names and no others, in either layer and
under any fault (`SameAt`). The indexer runs a request batch by batch with
disjoint keys, so what a later batch reads is what the request found
(`runBatches_rule`).
-/

namespace TairKvCache

open Lib List

/-! ## One backend -/

variable {k' : KeyType} {b b' : Backend} {it : DeleteItem} {items : List DeleteItem}
    {keys : List KeyType} (ix : Indexer) (f : WriteFaults) (fl : RmwFlags) (env : BatchFaults)
    (ts : List Target) {k : KeyType}

namespace Backend

def SameAt (k : KeyType) (b b' : Backend) : Prop :=
  b'.store.lookup k = b.store.lookup k ∧ b'.kind = b.kind

theorem putEntry_sameAt (h : k ≠ k') (e : KeyEntry) (hb : SameAt k b b') :
    SameAt k b (b'.putEntry k' e) :=
  ⟨(lookup_putEntry_ne h e).trans hb.1, (putEntry_kind k' e).trans hb.2⟩

theorem upsertItem_sameAt {it : UpsertItem} (h : k ≠ it.key) (hb : SameAt k b b') :
    SameAt k b (b'.upsertItem it).1 :=
  putEntry_sameAt h _ hb

theorem deleteItem_sameAt (h : k ≠ it.key) (hb : SameAt k b b') :
    SameAt k b (b'.deleteItem it).1 := by
  unfold deleteItem deleteLocationsForOneKey
  split
  · exact hb
  · split
    · exact hb
    · exact putEntry_sameAt h _ hb

theorem deleteItem_kind (b : Backend) (it : DeleteItem) : (b.deleteItem it).1.kind = b.kind := by
  unfold deleteItem deleteLocationsForOneKey
  split
  · rfl
  · split
    · rfl
    · exact putEntry_kind _ _

/-- Except in Redis, a key survives its last location. -/
theorem deleteItem_has (h : b.kind ≠ .redis) (it : DeleteItem) (k : KeyType) :
    (b.deleteItem it).1.has k = b.has k := by
  unfold deleteItem deleteLocationsForOneKey
  split
  · rfl
  · split
    · rfl
    · rename_i e he
      rw [putEntry, if_neg (fun hr => h hr.1), has, has]
      by_cases hk : k = it.key
      · subst hk; simp [he]
      · rw [AList.lookup_insert_ne hk]

theorem deleteItem_noent (h : (b.deleteItem it).2 = .noent) :
    b.has it.key = false ∧ b.kind ≠ .redis := by
  unfold deleteItem deleteLocationsForOneKey at h
  split at h
  · cases h
  · split at h
    · rename_i hnone
      refine ⟨by simp [has, hnone], fun hr => ?_⟩
      simp [hr] at h
    · cases h

theorem deleteForOneKey_sameAt (h : k ≠ k') (hb : SameAt k b b') :
    SameAt k b (b'.deleteForOneKey k').1 := by
  unfold deleteForOneKey
  split
  · exact ⟨(AList.lookup_erase_ne h).trans hb.1, hb.2⟩
  · exact hb

theorem batch_sameAt {α : Type} {op : Backend → α → Backend × ErrorCode} {key : α → KeyType}
    {xs : List α} (hop : ∀ {b' x}, k ≠ key x → SameAt k b b' → SameAt k b (op b' x).1)
    (h : k ∉ xs.map key) (faults : Nat → Option Fault) : SameAt k b (batch op faults b xs).1 :=
  batch_inv (fun _ x hx => hop fun heq => h (mem_map.mpr ⟨x, hx, heq.symm⟩)) faults ⟨rfl, rfl⟩

end Backend

/-! ## The hot cache -/

namespace Hot

theorem upsert_lookup_ne {p : UpsertItem × Nat} (h : k ≠ p.1.key) (nospc : Nat → Bool) (s : Store) :
    (upsert nospc s p).1.lookup k = s.lookup k := by
  unfold upsert
  split
  · rfl
  · exact (Backend.upsertItem_sameAt (b := backend s) h ⟨rfl, rfl⟩).1

theorem delete_lookup_ne (h : k ≠ k') (s : Store) :
    (delete s k').1.lookup k = s.lookup k :=
  (Backend.deleteForOneKey_sameAt (b := backend s) h ⟨rfl, rfl⟩).1

theorem deleteLocations_lookup_ne (h : k ≠ it.key) (s : Store) :
    (deleteLocations s it).1.lookup k = s.lookup k :=
  (Backend.deleteItem_sameAt (b := backend s) h ⟨rfl, rfl⟩).1

theorem put_lookup_ne {p : PutItem × Nat} (h : k ≠ p.1.key) (nospc : Nat → Bool) (s : Store) :
    (put nospc s p).1.lookup k = s.lookup k := by
  unfold put
  split
  · rfl
  · exact AList.lookup_insert_ne h

theorem conditional_lookup {α : Type} {op : Store → α → Store × ErrorCode} {key : α → KeyType}
    {xs : List α} (hop : ∀ {x}, k ≠ key x → ∀ s, (op s x).1.lookup k = s.lookup k)
    (h : k ∉ xs.map key) (s : Store) (prev : List ErrorCode) :
    (conditional op s xs prev).1.lookup k = s.lookup k :=
  conditional_inv (P := fun s' : Store => s'.lookup k = s.lookup k) (fun s' x hx hs' =>
    (hop (fun heq => h (mem_map.mpr ⟨x, hx, heq.symm⟩)) s').trans hs') prev rfl

theorem deleteLocationsForMaintenance_lookup (h : k ∉ items.map (·.key)) (s : Store)
    (prev : List ErrorCode) :
    (deleteLocationsForMaintenance s items prev).1.lookup k = s.lookup k := by
  refine runSlots_inv (P := fun s' : Store => s'.lookup k = s.lookup k) ?_ rfl
  rintro s' ⟨it, ec⟩ hp hs'
  have hit := (of_mem_zip hp).1
  dsimp only
  split
  · exact (deleteLocations_lookup_ne
      (fun heq => h (mem_map.mpr ⟨it, hit, heq.symm⟩)) s').trans hs'
  · exact hs'

end Hot

/-! ## The manager -/

namespace Manager

/-- The two managers agree on key `k`, in both layers. -/
structure SameAt (k : KeyType) (m m' : Manager) : Prop where
  persistent : m'.persistent.store.lookup k = m.persistent.store.lookup k
  kind : m'.persistent.kind = m.persistent.kind
  cache : (m'.cache.map fun c => c.lookup k) = m.cache.map fun c => c.lookup k
  recoverState : m'.recoverState = m.recoverState

variable {m m' m'' : Manager} {k : KeyType}

theorem SameAt.refl : SameAt k m m := ⟨rfl, rfl, rfl, rfl⟩

theorem SameAt.trans (h : SameAt k m m') (h' : SameAt k m' m'') : SameAt k m m'' :=
  ⟨h'.persistent.trans h.persistent, h'.kind.trans h.kind, h'.cache.trans h.cache,
    h'.recoverState.trans h.recoverState⟩

theorem SameAt.cell (h : SameAt k m m') (id : LocationId) :
    m'.persistent.cell k id = m.persistent.cell k id := by
  rw [Backend.cell, Backend.cell, Store.cell, Store.cell, h.persistent]

theorem SameAt.cache_lookup (h : SameAt k m m') {c' : Store} (hc : m'.cache = some c') :
    ∃ c, m.cache = some c ∧ c'.lookup k = c.lookup k := by
  simpa [hc, eq_comm] using h.cache

theorem SameAt.lookup_cache (h : SameAt k m m') {c : Store} (hc : m.cache = some c) :
    ∃ c', m'.cache = some c' ∧ c'.lookup k = c.lookup k := by
  simpa [hc] using h.cache

theorem ensureKeyInCache_lookup_ne (h : k ∉ keys) (f : WriteFaults) (c : Store) :
    (m.ensureKeyInCache f c keys).1.lookup k = c.lookup k := by
  refine runSlots_inv (P := fun s : Store => s.lookup k = c.lookup k) ?_ rfl
  rintro s ⟨k', i⟩ hp hs
  have hne : k ≠ k' := by
    rintro rfl
    exact h (mem_filter.mp (fst_mem_of_mem_zipIdx hp)).1
  dsimp only
  split
  · exact hs
  · exact hs
  · unfold Hot.putIfAbsent
    split
    · exact hs
    · exact (Hot.put_lookup_ne hne _ _).trans hs

theorem hydrate_lookup_ne (h : k ∉ keys) (f : WriteFaults) (c : Store) :
    (m.hydrate f c keys).1.lookup k = c.lookup k := by
  unfold hydrate
  split
  · exact ensureKeyInCache_lookup_ne h f c
  · rfl

theorem upsert_sameAt {items : List UpsertItem} (h : k ∉ items.map (·.key))
    (f : WriteFaults) : SameAt k m (m.upsert f items).1 := by
  have hp := Backend.batch_sameAt (b := m.persistent) Backend.upsertItem_sameAt h f.upsert
  unfold upsert
  cases hc : m.cache with
  | none => exact ⟨hp.1, hp.2, by simp [hc], rfl⟩
  | some c =>
    have hh := hydrate_lookup_ne (m := m) h f c
    have hz : k ∉ items.zipIdx.map (·.1.key) := by
      rwa [← zipIdx_map_fst 0 items, map_map] at h
    dsimp only
    split
    · exact ⟨hp.1, hp.2, by simp [hc, Hot.conditional_lookup (Hot.upsert_lookup_ne · _) hz, hh], rfl⟩
    · exact ⟨rfl, rfl, by simp [hc, hh], rfl⟩

theorem delete_sameAt (h : k ∉ keys) (f : WriteFaults) : SameAt k m (m.delete f keys).1 := by
  have hk : k ∉ keys.map fun k => k := by rwa [map_id']
  have hp := Backend.batch_sameAt (b := m.persistent) Backend.deleteForOneKey_sameAt hk f.delete
  unfold delete
  cases hc : m.cache with
  | none => exact ⟨hp.1, hp.2, by simp [hc], rfl⟩
  | some c => exact ⟨hp.1, hp.2, by simp [hc, Hot.conditional_lookup Hot.delete_lookup_ne hk], rfl⟩

theorem deleteTargets_sameAt (h : k ∉ items.map (·.key)) (f : WriteFaults) :
    SameAt k m (m.deleteTargets f items).1 := by
  have hp := Backend.batch_sameAt (b := m.persistent) Backend.deleteItem_sameAt h f.deleteLocations
  unfold deleteTargets
  cases hc : m.cache with
  | none => exact ⟨hp.1, hp.2, by simp [hc], rfl⟩
  | some c =>
    have hh := hydrate_lookup_ne (m := m) h f c
    dsimp only
    split
    · exact ⟨hp.1, hp.2, by simp [hc, Hot.conditional_lookup Hot.deleteLocations_lookup_ne h, hh], rfl⟩
    · exact ⟨rfl, rfl, by simp [hc, hh], rfl⟩

/-- The reclaim asks a layer that still has the key, without a location. -/
theorem mem_reclaimKeys {f : WriteFaults} {codes : List ErrorCode} (h : k ∈ m.reclaimKeys f keys codes) :
    (∃ i : Nat, keys[i]? = some k ∧ codes[i]? = some ErrorCode.ok)
      ∧ ∃ i, m.existsLocation f k i = (.ok, false) := by
  simp only [reclaimKeys, mem_map, mem_filter, decide_eq_true_eq] at h
  obtain ⟨⟨k', i⟩, ⟨hmem, hex⟩, rfl⟩ := h
  refine ⟨?_, i, hex⟩
  have hcand := fst_mem_of_mem_zipIdx hmem
  rw [mem_eraseDups, mem_map] at hcand
  obtain ⟨⟨k'', ec⟩, hz, rfl⟩ := hcand
  rw [mem_filter] at hz
  obtain ⟨j, hj⟩ := mem_iff_getElem?.mp hz.1
  rw [getElem?_zip_eq_some] at hj
  have hec : ec = .ok := by simpa using hz.2
  exact ⟨j, hj.1, hec ▸ hj.2⟩

theorem deleteLocations_sameAt (h : k ∉ items.map (·.key)) (f : WriteFaults) :
    SameAt k m (m.deleteLocations f items).1 := by
  refine (deleteTargets_sameAt h f).trans (delete_sameAt (fun hk => ?_) f)
  obtain ⟨⟨i, hi, -⟩, -⟩ := mem_reclaimKeys hk
  exact h (mem_of_getElem? hi)

theorem mem_planned {f : WriteFaults} {p : MaintenancePlan} (h : it ∈ m.planned f items p) :
    it ∈ items ∧ ∃ i, m.maintenancePlan f it i = p := by
  simp only [planned, mem_map, mem_filter, decide_eq_true_eq] at h
  obtain ⟨⟨it', i⟩, ⟨hmem, hplan⟩, rfl⟩ := h
  exact ⟨fst_mem_of_mem_zipIdx hmem, i, hplan⟩

theorem maintenanceTargets_sameAt (h : k ∉ items.map (·.key)) (f : WriteFaults) :
    SameAt k m (m.maintenanceTargets f items).1 := by
  have hp := Backend.batch_sameAt (b := m.persistent) Backend.deleteItem_sameAt h f.deleteLocations
  unfold maintenanceTargets
  cases hc : m.cache with
  | none => exact ⟨hp.1, hp.2, by simp [hc], rfl⟩
  | some c =>
    exact ⟨hp.1, hp.2, by simp [hc, Hot.deleteLocationsForMaintenance_lookup h], rfl⟩

theorem maintenanceWholeKeys_sameAt (h : k ∉ keys) (f : WriteFaults) :
    SameAt k m (m.maintenanceWholeKeys f keys).1 := by
  have hk : k ∉ keys.map fun k => k := by rwa [map_id']
  have hp := Backend.batch_sameAt (b := m.persistent) Backend.deleteForOneKey_sameAt hk f.delete
  unfold maintenanceWholeKeys
  cases hc : m.cache with
  | none => exact ⟨hp.1, hp.2, by simp [hc], rfl⟩
  | some c => exact ⟨hp.1, hp.2, by simp [hc, Hot.conditional_lookup Hot.delete_lookup_ne hk], rfl⟩

theorem deleteLocationsForMaintenance_sameAt (h : k ∉ items.map (·.key)) (f : WriteFaults) :
    SameAt k m (m.deleteLocationsForMaintenance f items).1 := by
  unfold deleteLocationsForMaintenance
  split
  · exact SameAt.refl
  · have hsub : ∀ p, k ∉ (m.planned f items p).map (·.key) := fun p hk =>
      h (map_subset _ (fun _ hit => (mem_planned hit).1) hk)
    exact (maintenanceTargets_sameAt (hsub _) f).trans (maintenanceWholeKeys_sameAt (hsub _) f)

theorem refreshCacheFromPersistent_sameAt (h : k ∉ keys) (f : WriteFaults) :
    SameAt k m (m.refreshCacheFromPersistent f keys).1 := by
  unfold refreshCacheFromPersistent
  cases hc : m.cache with
  | none => exact SameAt.refl
  | some c =>
    refine ⟨rfl, rfl, ?_, rfl⟩
    simp only [hc, Option.map_some, Option.some.injEq]
    have hdel : ∀ (l : List KeyType) (s : Store), (∀ k' ∈ l, k' ∈ keys) →
        (l.foldl (fun c k => (Hot.delete c k).1) s).lookup k = s.lookup k := by
      intro l
      induction l with
      | nil => exact fun _ _ => rfl
      | cons k' l ih =>
        intro s hl
        have hne : k ≠ k' := fun heq => h (heq ▸ hl _ (mem_cons_self ..))
        rw [foldl_cons, ih _ fun k'' hk'' => hl k'' (mem_cons_of_mem _ hk'')]
        exact Hot.delete_lookup_ne hne s
    rw [hdel]
    · refine runSlots_inv (P := fun s : Store => s.lookup k = c.lookup k) ?_ rfl
      rintro s ⟨k', i⟩ hp hs
      have hne : k ≠ k' := fun heq => h (heq ▸ fst_mem_of_mem_zipIdx hp)
      dsimp only
      split
      · exact hs
      · exact hs
      · exact (Hot.put_lookup_ne hne _ _).trans hs
    · intro k' hk'
      obtain ⟨⟨k'', ec⟩, hz, rfl⟩ := mem_map.mp hk'
      exact (of_mem_zip (mem_filter.mp hz).1).1

end Manager

/-! ## The write phase -/

namespace Indexer

variable {π : Type} {k : KeyType}

theorem executeRmwUpsert_sameAt (preserve : Bool) {ups : List RmwUpsert}
    (h : k ∉ ups.map (·.item.key)) :
    Manager.SameAt k ix.manager (ix.executeRmwUpsert f preserve ups).1 := by
  unfold executeRmwUpsert
  dsimp only
  split
  · exact Manager.SameAt.refl
  · split
    · split
      · refine Manager.upsert_sameAt ?_ f
        rw [map_map]
        exact fun hk => h (map_subset _ (filter_subset_self _) hk)
      · exact Manager.SameAt.refl
    · refine Manager.upsert_sameAt ?_ f
      rwa [map_map]

theorem executeRmwDelete_sameAt (m : Manager) (f : WriteFaults) (mode : DeleteMode)
    (h : k ∉ items.map (·.key)) : Manager.SameAt k m (executeRmwDelete m f mode items).1 := by
  unfold executeRmwDelete
  split
  · exact Manager.SameAt.refl
  · cases mode with
    | wholeKey => exact Manager.delete_sameAt h f
    | targets => exact Manager.deleteLocations_sameAt h f
    | maintenance => exact Manager.deleteLocationsForMaintenance_sameAt h f

theorem upsert?_key {d : Decision π} {u : RmwUpsert} (h : d.upsert? = some u) :
    u.item.key = d.key ∧ u.index = d.index := by
  unfold Decision.upsert? at h
  split at h
  · cases h; exact ⟨rfl, rfl⟩
  · cases h

theorem delete?_key {d : Decision π} {x : RmwDelete} (h : d.delete? = some x) :
    x.item.key = d.key ∧ x.index = d.index := by
  unfold Decision.delete? at h
  split at h
  · cases h; exact ⟨rfl, rfl⟩
  · cases h

theorem upsertPhase_sameAt (preserve : Bool) {ds : List (Decision π)} (h : k ∉ ds.map (·.key)) :
    Manager.SameAt k ix.manager (ix.upsertPhase env preserve ds).1 := by
  refine ix.executeRmwUpsert_sameAt _ _ ?_
  simp only [mem_map, mem_filterMap, not_exists, not_and]
  rintro u ⟨d, hd, hu⟩ rfl
  exact h (mem_map.mpr ⟨d, hd, (upsert?_key hu).1.symm⟩)

theorem write_sameAt (mode : DeleteMode) (preserve adjust : Bool) {ds : List (Decision π)}
    (h : k ∉ ds.map (·.key)) :
    Manager.SameAt k ix.manager (ix.write env mode preserve ds adjust).1.manager := by
  refine (ix.upsertPhase_sameAt env preserve h).trans (executeRmwDelete_sameAt _ _ _ ?_)
  simp only [map_map, mem_map, mem_filterMap, not_exists, not_and]
  rintro x ⟨d, hd, hx⟩ rfl
  exact h (mem_map.mpr ⟨d, hd, (delete?_key hx).1.symm⟩)

theorem write_labels (mode : DeleteMode) (preserve adjust : Bool) (ds : List (Decision π)) :
    (ix.write env mode preserve ds adjust).2.map (·.1) = ds.map (·.index) := by
  simp [write]

end Indexer

/-! ## The batches of a request -/

def KeysApart (ts ts' : List Target) : Prop := ∀ t ∈ ts, ∀ t' ∈ ts', t.key ≠ t'.key

namespace IndexerConfig

variable (cfg : IndexerConfig)

theorem targetBatches_perm (ts : List Target) : (cfg.targetBatches ts).flatten.Perm ts := by
  have hperm : (cfg.makeBatches (ts.map (·.key))).flatten.Perm (List.range ts.length) := by
    have hlt : ∀ i < (ts.map (·.key)).length,
        (cfg.shardOf ((ts.map (·.key)).getD i 0)).val < cfg.shardNum :=
      fun i _ => (cfg.shardOf _).isLt
    have := batches_perm cfg.batchKeySize hlt
    rw [makeBatches]
    rwa [length_map] at this ⊢
  have := hperm.filterMap (ts[·]?)
  rwa [filterMap_range, filterMap_flatten] at this

theorem targetBatches_apart (ts : List Target) : (cfg.targetBatches ts).Pairwise KeysApart := by
  refine pairwise_map.mpr ((batches_separated _ _ _ _).imp ?_)
  intro b b' hsep t ht t' ht' hkey
  obtain ⟨i, hi, hti⟩ := mem_filterMap.mp ht
  obtain ⟨j, hj, htj⟩ := mem_filterMap.mp ht'
  refine hsep i hi j hj ?_
  have hget : ∀ {n : Nat} {x : Target}, ts[n]? = some x →
      (ts.map (·.key)).getD n 0 = x.key := fun hx => by
    simp [getD_eq_getElem?_getD, hx]
  dsimp only
  rw [hget hti, hget htj, hkey]

end IndexerConfig

/-- The induction rule of a request. The lists are the targets already
processed and the ones still to come; a batch shares no key with either. -/
theorem runBatches_rule {π : Type}
    (step : Indexer → BatchFaults → List Target → Indexer × List (Nat × Outcome π))
    (ts : List Target)
    {P : Indexer → List Target → List Target → List (Nat × Outcome π) → Prop}
    (env : Nat → BatchFaults)
    (hstep : ∀ ix n done B rest outs, (done ++ (B ++ rest)).Perm ts → KeysApart done B →
      KeysApart B rest → P ix done (B ++ rest) outs →
      P (step ix (env n) B).1 (done ++ B) rest (outs ++ (step ix (env n) B).2))
    (ix : Indexer)
    (h0 : P ix [] (ix.config.targetBatches ts).flatten []) :
    P (runBatches step env ix ts).1 (ix.config.targetBatches ts).flatten []
      (runBatches step env ix ts).2 := by
  have go : ∀ (bs : List (List Target)) (n : Nat) (ix : Indexer) (done : List Target)
      (outs : List (Nat × Outcome π)), (done ++ bs.flatten).Perm ts → bs.Pairwise KeysApart →
      (∀ b ∈ bs, KeysApart done b) → P ix done bs.flatten outs →
      P (runSlots (fun ix (p : List Target × Nat) => step ix (env p.2) p.1) ix (bs.zipIdx n)).1
        (done ++ bs.flatten) []
        (outs ++ (runSlots (fun ix (p : List Target × Nat) => step ix (env p.2) p.1) ix
          (bs.zipIdx n)).2.flatten) := by
    intro bs
    induction bs with
    | nil => intro n ix done outs _ _ _ h; simpa using h
    | cons B bs ih =>
      intro n ix done outs hperm hapart hdone h
      rw [pairwise_cons] at hapart
      rw [flatten_cons] at hperm h ⊢
      have hrest : KeysApart B bs.flatten := fun t ht t' ht' => by
        obtain ⟨b, hb, hmem⟩ := mem_flatten.mp ht'
        exact hapart.1 b hb t ht t' hmem
      have hnext := hstep ix n done B bs.flatten outs hperm
        (hdone B (mem_cons_self ..)) hrest h
      have := ih (n + 1) (step ix (env n) B).1 (done ++ B) _
        (by rwa [append_assoc]) hapart.2 ?_ hnext
      · simpa [append_assoc] using this
      · intro b hb t ht
        rcases mem_append.mp ht with hd | hB
        · exact hdone b (mem_cons_of_mem _ hb) t hd
        · exact hapart.1 b hb t hB
  have := go (ix.config.targetBatches ts) 0 ix [] [] (ix.config.targetBatches_perm ts)
    (ix.config.targetBatches_apart ts) (nofun) h0
  simpa [runBatches] using this

theorem runBatches_labels {π : Type}
    {step : Indexer → BatchFaults → List Target → Indexer × List (Nat × Outcome π)}
    (hstep : ∀ ix e B, (step ix e B).2.map (·.1) = B.map (·.index))
    (env : Nat → BatchFaults) (ix : Indexer) (ts : List Target) :
    ((runBatches step env ix ts).2.map (·.1)).Perm (ts.map (·.index)) := by
  have : (runBatches step env ix ts).2.map (·.1)
      = (ix.config.targetBatches ts).flatten.map (·.index) :=
    runBatches_rule step ts (P := fun _ done _ outs => outs.map (·.1) = done.map (·.index)) env
      (fun ix n done B rest outs _ _ _ h => by
        rw [map_append, map_append, h, hstep]) ix rfl
  rw [this]
  exact (ix.config.targetBatches_perm ts).map _

/-- A target is handled by one batch, which finds its key as the request did;
the later batches leave the key as it is then. -/
theorem runBatches_at {π : Type}
    {step : Indexer → BatchFaults → List Target → Indexer × List (Nat × Outcome π)}
    {ts : List Target} {t : Target} (env : Nat → BatchFaults) (ix : Indexer)
    (hnd : (ts.map (·.index)).Nodup)
    (hframe : ∀ ix e B k, k ∉ B.map Target.key →
      Manager.SameAt k ix.manager (step ix e B).1.manager) (ht : t ∈ ts) :
    ∃ ix' n B, B ⊆ ts ∧ (B.map Target.index).Nodup ∧ t ∈ B
      ∧ Manager.SameAt t.key ix.manager ix'.manager
      ∧ Manager.SameAt t.key (step ix' (env n) B).1.manager (runBatches step env ix ts).1.manager
      ∧ (step ix' (env n) B).2 ⊆ (runBatches step env ix ts).2 := by
  refine (runBatches_rule step ts (P := fun ix₁ done rest outs =>
    (t ∈ rest → Manager.SameAt t.key ix.manager ix₁.manager) ∧ (t ∈ done → ∃ ix' n B,
      B ⊆ ts ∧ (B.map Target.index).Nodup ∧ t ∈ B ∧ Manager.SameAt t.key ix.manager ix'.manager
        ∧ Manager.SameAt t.key (step ix' (env n) B).1.manager ix₁.manager
        ∧ (step ix' (env n) B).2 ⊆ outs)) env ?_ ix ⟨fun _ => .refl, nofun⟩).2
    ((ix.config.targetBatches_perm ts).mem_iff.mpr ht)
  rintro ix₁ n done B rest outs hperm hdone hrest ⟨hsame, hlater⟩
  have hout (h : ∀ t' ∈ B, t.key ≠ t'.key) :
      Manager.SameAt t.key ix₁.manager (step ix₁ (env n) B).1.manager := by
    refine hframe ix₁ _ B t.key fun hk => ?_
    obtain ⟨t', ht', hkey⟩ := mem_map.mp hk
    exact h t' ht' hkey.symm
  refine ⟨fun h => ?_, fun h => ?_⟩
  · exact (hsame (mem_append_right _ h)).trans (hout fun t' ht' => (hrest t' ht' t h).symm)
  · rcases mem_append.mp h with hd | hB
    · obtain ⟨ix', n', B', hsub, hBnd, htB, hbefore, hafter, houts⟩ := hlater hd
      exact ⟨ix', n', B', hsub, hBnd, htB, hbefore,
        hafter.trans (hout fun t' ht' => hdone t hd t' ht'), fun o ho => mem_append_left _ (houts ho)⟩
    · have hBnd := (hperm.map Target.index).nodup_iff.mpr hnd
      simp only [map_append, nodup_append] at hBnd
      exact ⟨ix₁, n, B, fun t' ht' => hperm.subset (mem_append_right _ (mem_append_left _ ht')),
        hBnd.2.1.1, hB, hsame (mem_append_left _ hB), .refl, fun o ho => mem_append_right _ ho⟩

/-! ## Whole requests -/

section

variable {π : Type} (modifier : LocationModifier π)

theorem decideLocations_target (track : Bool) (modifier : LocationModifier π) (t : Target)
    (keyEc : ErrorCode) (reads : List LocationRead) :
    (decideLocations track modifier t keyEc reads).index = t.index
      ∧ (decideLocations track modifier t keyEc reads).key = t.key := by
  unfold decideLocations
  dsimp only
  split
  · exact ⟨rfl, rfl⟩
  · split <;> exact ⟨rfl, rfl⟩

namespace Indexer

theorem refreshBatch_length : (ix.refreshBatch fl env ts).2.length = ts.length := by
  unfold refreshBatch Manager.refreshCacheFromPersistent
  split
  · cases ix.manager.cache <;> simp
  · simp

theorem zip_map_target {α β : Type} (es : List α) (h : es.length = ts.length)
    (g : (Target × α) × Nat → β) (f : Target → β) (hg : ∀ p, g p = f p.1.1) :
    ((ts.zip es).zipIdx.map g) = ts.map f := by
  have hcongr : (ts.zip es).zipIdx.map g = ((ts.zip es).zipIdx.map (·.1)).map fun p => f p.1 := by
    rw [map_map]
    exact map_congr_left fun p _ => hg p
  have hfst : (ts.zip es).map (·.1) = ts := map_fst_zip (Nat.le_of_eq h.symm)
  have hmap : ((ts.zip es).map (·.1)).map f = (ts.zip es).map fun p => f p.1 := by
    rw [map_map]
    rfl
  rw [hcongr, zipIdx_map_fst, ← hmap, hfst]

theorem locationDecisions_index (ix : Indexer) (env : BatchFaults) (ts : List Target)
    (es : List ErrorCode) (h : es.length = ts.length) :
    (ix.locationDecisions fl modifier env ts es).map (·.index) = ts.map (·.index) := by
  rw [locationDecisions, map_map]
  exact zip_map_target ts es h _ (·.index) fun p => (decideLocations_target ..).1

theorem locationDecisions_key (ix : Indexer) (env : BatchFaults) (ts : List Target)
    (es : List ErrorCode) (h : es.length = ts.length) :
    (ix.locationDecisions fl modifier env ts es).map (·.key) = ts.map (·.key) := by
  rw [locationDecisions, map_map]
  exact zip_map_target ts es h _ (·.key) fun p => (decideLocations_target ..).2

theorem locationBatch_labels (ix : Indexer) (env : BatchFaults) (ts : List Target) :
    (ix.locationBatch fl modifier env ts).2.map (·.1) = ts.map (·.index) := by
  unfold locationBatch
  split
  · simp
  · rw [write_labels, locationDecisions_index _ _ _ _ _ _ (ix.refreshBatch_length fl env ts)]

theorem locationBatch_sameAt (ix : Indexer) (env : BatchFaults) {ts : List Target}
    (h : k ∉ ts.map (·.key)) :
    Manager.SameAt k ix.manager (ix.locationBatch fl modifier env ts).1.manager := by
  unfold locationBatch
  split
  · exact Manager.SameAt.refl
  · have hfresh : Manager.SameAt k ix.manager (ix.refreshBatch fl env ts).1 := by
      unfold refreshBatch
      split
      · exact Manager.refreshCacheFromPersistent_sameAt h _
      · exact Manager.SameAt.refl
    refine hfresh.trans (write_sameAt (ix.refreshed fl env ts) _ _ _ _ ?_)
    rwa [locationDecisions_key _ _ _ _ _ _ (ix.refreshBatch_length fl env ts)]

end Indexer

end

end TairKvCache
