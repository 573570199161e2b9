import TairKvCache.KeyFrame

/-!
# What a location-level delete removes

`Delete(keys, location_ids)` removes the named locations from both layers and
then reclaims the keys left empty. Emptiness is asked of *one* layer - the
cache when there is one - while the whole-key delete goes to *both*. So the
reclaim removes exactly what was named as long as the layer it does not ask
holds no location that was left unnamed; `Covered` is that condition, and
`locationDeletes_frame_iff` shows that nothing weaker will do.

The maintenance delete asks both layers before it touches either, and needs
no condition.
-/

namespace TairKvCache

open Lib List Backend

/-- The request names location `id` of key `k`. -/
def Named (items : List DeleteItem) (k : KeyType) (id : LocationId) : Prop :=
  ∃ it ∈ items, it.key = k ∧ id ∈ it.ids

/-- No location that the request leaves unnamed is lost from either layer. -/
structure KeepsUnnamed (m m' : Manager) (items : List DeleteItem) : Prop where
  persistent : ∀ k id l, ¬ Named items k id →
    m.persistent.cell k id = some l → m'.persistent.cell k id = some l
  cache : ∀ c, m.cache = some c → ∃ c', m'.cache = some c' ∧
    ∀ k id l, ¬ Named items k id → c.cell k id = some l → c'.cell k id = some l

/-- Both location-level deletes keep every unnamed location, whatever fails. -/
def LocationDeletesFrame (m : Manager) (items : List DeleteItem) : Prop :=
  ∀ f, KeepsUnnamed m (m.deleteLocations f items).1 items
    ∧ KeepsUnnamed m (m.deleteLocationsForMaintenance f items).1 items

/-- For every requested key whose cached locations are all named, the
persistent locations are all named too. -/
def Covered (m : Manager) (items : List DeleteItem) : Prop :=
  ∀ it ∈ items, ∀ c, m.cache = some c → (c.lookup it.key).isSome →
    (∀ id l, c.cell it.key id = some l → Named items it.key id) →
    ∀ id l, m.persistent.cell it.key id = some l → Named items it.key id

/-! ## The target deletes -/

variable {items : List DeleteItem} {k : KeyType} {id : LocationId} {keys : List KeyType}
    {l : CacheLocation} {b : Backend} {f : WriteFaults} {it : DeleteItem}

theorem deleteItem_cell (hn : ¬ Named items k id) {v : Option CacheLocation} (b : Backend)
    (it : DeleteItem) (hit : it ∈ items) (h : b.cell k id = v) :
    (b.deleteItem it).1.cell k id = v := by
  rw [deleteItem, cell_deleteLocations, if_neg ?_, h]
  rintro ⟨rfl, hid⟩
  exact hn ⟨it, hit, rfl, hid⟩

theorem hot_deleteLocations_cell (hn : ¬ Named items k id) {v : Option CacheLocation} (s : Store)
    (it : DeleteItem) (hit : it ∈ items) (h : s.cell k id = v) :
    (Hot.deleteLocations s it).1.cell k id = v :=
  deleteItem_cell hn (Hot.backend s) it hit h

theorem batch_deleteItem_cell (hn : ¬ Named items k id) (faults : Nat → Option Fault) (b : Backend) :
    (batch deleteItem faults b items).1.cell k id = b.cell k id :=
  batch_inv (P := fun b' => b'.cell k id = b.cell k id)
    (fun b' it hit h => deleteItem_cell hn b' it hit h) faults rfl

theorem conditional_deleteLocations_cell (hn : ¬ Named items k id) (s : Store)
    (prev : List ErrorCode) :
    (Hot.conditional Hot.deleteLocations s items prev).1.cell k id = s.cell k id :=
  Hot.conditional_inv (P := fun s' => s'.cell k id = s.cell k id)
    (fun s' it hit h => hot_deleteLocations_cell hn s' it hit h) prev rfl

theorem conditional_deleteLocations_isSome (items : List DeleteItem) (s : Store)
    (prev : List ErrorCode) (k : KeyType) :
    ((Hot.conditional Hot.deleteLocations s items prev).1.lookup k).isSome
      = (s.lookup k).isSome :=
  Hot.conditional_inv (P := fun s' => (s'.lookup k).isSome = (s.lookup k).isSome)
    (fun s' it _ h => (Hot.isSome_deleteLocations s' it k).trans h) prev rfl

theorem KeepsUnnamed.trans {m₁ m₂ m₃ : Manager} (h₁ : KeepsUnnamed m₁ m₂ items)
    (h₂ : KeepsUnnamed m₂ m₃ items) : KeepsUnnamed m₁ m₃ items := by
  refine ⟨fun k id l hn h => h₂.persistent k id l hn (h₁.persistent k id l hn h), ?_⟩
  intro c hc
  obtain ⟨c₂, hc₂, hkeep₁⟩ := h₁.cache c hc
  obtain ⟨c₃, hc₃, hkeep₂⟩ := h₂.cache c₂ hc₂
  exact ⟨c₃, hc₃, fun k id l hn h => hkeep₂ k id l hn (hkeep₁ k id l hn h)⟩

namespace Manager

variable {m : Manager}

theorem keeps_of_delete {m' : Manager} (h : ∀ k ∈ keys, ∀ id, ¬ Named items k id →
      m.persistent.cell k id = none ∧ ∀ c, m.cache = some c → c.cell k id = none)
    (hsame : ∀ k ∉ keys, SameAt k m m') (hcache : m'.cache.isSome = m.cache.isSome) :
    KeepsUnnamed m m' items := by
  refine ⟨fun k id l hn hl => ?_, fun c hc => ?_⟩
  · by_cases hk : k ∈ keys
    · rw [(h k hk id hn).1] at hl
      cases hl
    · rwa [(hsame k hk).cell]
  · obtain ⟨c', hc'⟩ := Option.isSome_iff_exists.mp (hcache.trans (by rw [hc]; rfl))
    refine ⟨c', hc', fun k id l hn hl => ?_⟩
    by_cases hk : k ∈ keys
    · rw [(h k hk id hn).2 c hc] at hl
      cases hl
    · obtain ⟨c'', hc'', hlook⟩ := (hsame k hk).lookup_cache hc
      rwa [Option.some.inj (hc'.symm.trans hc''), Store.cell, hlook]

theorem mem_reclaimKeys_of {codes : List ErrorCode} {i : Nat} (hk : keys[i]? = some k)
    (hcode : codes[i]? = some .ok) (hex : ∀ j, m.existsLocation f k j = (.ok, false)) :
    k ∈ m.reclaimKeys f keys codes := by
  have hz : (k, ErrorCode.ok) ∈ keys.zip codes :=
    mem_of_getElem? (getElem?_zip_eq_some.mpr ⟨hk, hcode⟩)
  have hcand : k ∈ (((keys.zip codes).filter fun p => p.2 = .ok).map (·.1)).eraseDups := by
    rw [mem_eraseDups, mem_map]
    exact ⟨_, mem_filter.mpr ⟨hz, by simp⟩, rfl⟩
  obtain ⟨j, hj⟩ := mem_iff_getElem?.mp hcand
  simp only [reclaimKeys, mem_map, mem_filter, decide_eq_true_eq]
  exact ⟨(k, j), ⟨mk_mem_zipIdx_iff_getElem?.mpr hj, hex j⟩, rfl⟩

theorem existsLocation_of_empty (hk : b.has k = true) (hempty : ∀ id, b.cell k id = none) :
    b.existsLocation k = (.ok, false) := by
  obtain ⟨e, he⟩ := Option.isSome_iff_exists.mp hk
  have hfalse : e.hasLocations = false := by
    rw [Bool.eq_false_iff, ne_eq, KeyEntry.hasLocations_iff]
    rintro ⟨id, l, hl⟩
    have := hempty id
    rw [cell, Store.cell_of_lookup he, hl] at this
    cases this
  simp [Backend.existsLocation, he, hfalse]

theorem existsLocation_false (h : b.existsLocation k = (.ok, false)) :
    b.has k = true ∧ ∀ id, b.cell k id = none := by
  unfold Backend.existsLocation at h
  split at h
  · rename_i e he
    have hfalse : e.hasLocations = false := congrArg Prod.snd h
    refine ⟨by simp [has, he], fun id => ?_⟩
    rw [cell, Store.cell_of_lookup he, KeyEntry.locations_eq_empty hfalse,
      AList.lookup_empty]
  · cases h

/-! ## Sufficiency -/

theorem deleteTargets_keeps (f : WriteFaults) (items : List DeleteItem) :
    KeepsUnnamed m (m.deleteTargets f items).1 items := by
  unfold deleteTargets
  cases hcache : m.cache with
  | none =>
    exact ⟨fun k id l hn h => (batch_deleteItem_cell hn _ _).trans h, by simp [hcache]⟩
  | some c =>
    have hhyd : ∀ k id l, c.cell k id = some l →
        (m.hydrate f c (items.map (·.key))).1.cell k id = some l := by
      intro k id l h
      obtain ⟨e, he, hl⟩ := Option.bind_eq_some_iff.mp h
      rw [Store.cell_of_lookup (m.hydrate_of_some f _ he), hl]
    simp only
    split
    · refine ⟨fun k id l hn h => ?_, fun c' hsome => ⟨_, rfl, fun k id l hn h => ?_⟩⟩
      · exact (batch_deleteItem_cell hn _ _).trans h
      · obtain rfl : c = c' := Option.some.inj (hcache.symm.trans hsome)
        exact (conditional_deleteLocations_cell hn _ _).trans (hhyd k id l h)
    · refine ⟨fun k id l hn h => h, fun c' hsome => ⟨_, rfl, fun k id l hn h => ?_⟩⟩
      obtain rfl : c = c' := Option.some.inj (hcache.symm.trans hsome)
      exact hhyd k id l h

theorem reclaimKeys_unnamed (hcov : Covered m items)
    (hk : k ∈ (m.deleteTargets f items).1.reclaimKeys f (items.map (·.key))
      (m.deleteTargets f items).2)
    (hn : ¬ Named items k id) : (m.deleteTargets f items).1.persistent.cell k id = none
      ∧ ∀ c, (m.deleteTargets f items).1.cache = some c → c.cell k id = none := by
  obtain ⟨⟨j, hkey, hcode⟩, i, hex⟩ := mem_reclaimKeys hk
  obtain ⟨it, hit, rfl⟩ : ∃ it ∈ items, it.key = k := by
    simpa using mem_of_getElem? hkey
  unfold deleteTargets at hex hcode ⊢
  cases hcache : m.cache with
  | none =>
    -- the reclaim asked the persistent layer itself
    simp only [hcache, existsLocation] at hex ⊢
    refine ⟨?_, nofun⟩
    cases hf : f.existsLocation i with
    | some fc =>
      rw [hf] at hex
      exact absurd (congrArg Prod.fst hex) fc.ne_ok
    | none =>
      rw [hf] at hex
      exact (existsLocation_false hex).2 id
  | some c =>
    simp only [hcache] at hex hcode ⊢
    split at hex
    · rename_i hhyd
      simp only [hhyd, if_true] at hcode ⊢
      obtain ⟨hhas, hempty⟩ := existsLocation_false hex
      refine ⟨?_, fun c' hsome => ?_⟩
      · rw [batch_deleteItem_cell hn]
        have hkept : ∀ id', ¬ Named items it.key id' →
            (m.hydrate f c (items.map (·.key))).1.cell it.key id' = none := fun id' hn' => by
          rw [← conditional_deleteLocations_cell hn' _ _]
          exact hempty id'
        have hsome : ((m.hydrate f c (items.map (·.key))).1.lookup it.key).isSome = true := by
          rw [← conditional_deleteLocations_isSome items _ _ it.key]
          exact hhas
        rcases m.hydrate_lookup f c (items.map (·.key)) it.key with heq | ⟨-, heq⟩
        · -- the cache had the key all along: this is where the layers may differ
          rw [heq] at hsome
          by_contra hne
          obtain ⟨l, hl⟩ := Option.ne_none_iff_exists'.mp hne
          refine hn (hcov it hit c hcache hsome (fun id' l' hl' => ?_) id l hl)
          by_contra hn'
          have hnone := hkept id' hn'
          rw [Store.cell, heq, ← Store.cell, hl'] at hnone
          cases hnone
        · have hnone := hkept id hn
          rw [Store.cell, heq, ← Store.cell] at hnone
          exact hnone
      · obtain rfl := Option.some.inj hsome
        exact hempty id
    · rename_i hhyd
      have herr := mem_of_getElem? hcode
      simp [hhyd] at herr

theorem deleteLocations_keeps (hcov : Covered m items) (f : WriteFaults) :
    KeepsUnnamed m (m.deleteLocations f items).1 items := by
  refine (deleteTargets_keeps f items).trans (keeps_of_delete
    (fun k hk id hn => reclaimKeys_unnamed hcov hk hn) (fun k hk => delete_sameAt hk f) ?_)
  unfold deleteLocations maybeReclaimEmptyKeys delete
  cases hc : (m.deleteTargets f items).1.cache <;> simp [hc]

/-! ## The maintenance delete -/

theorem onlyTargets_cell {ids : List LocationId} (h : onlyTargets ids (b.getLocationIds k) = true)
    (hid : id ∉ ids) : b.cell k id = none := by
  unfold Backend.getLocationIds at h
  cases hl : b.store.lookup k with
  | none => exact Store.cell_of_none hl id
  | some e =>
    rw [hl] at h
    have hall : ∀ id' ∈ e.locations.keys, id' ∈ ids := by simpa [onlyTargets] using h
    rw [cell, Store.cell_of_lookup hl, AList.lookup_eq_none]
    exact fun hmem => hid (hall id hmem)

/-- A key planned for a whole-key delete has only named locations, in both
layers. -/
theorem planned_wholeKey_cell (hk : k ∈ (m.planned f items .wholeKey).map (·.key))
    (hn : ¬ Named items k id) :
    m.persistent.cell k id = none ∧ ∀ c, m.cache = some c → c.cell k id = none := by
  obtain ⟨it, hit, rfl⟩ := mem_map.mp hk
  obtain ⟨hmem, i, hplan⟩ := mem_planned hit
  have hid : id ∉ it.ids := fun hid => hn ⟨it, hmem, rfl, hid⟩
  unfold maintenancePlan at hplan
  split at hplan
  · cases hplan
  · split at hplan
    · cases hplan
    · split at hplan
      · rename_i hboth
        rw [Bool.and_eq_true] at hboth
        refine ⟨onlyTargets_cell hboth.1 hid, fun c hc => ?_⟩
        have hhot := hboth.2
        rw [hc] at hhot
        exact onlyTargets_cell (b := Hot.backend c) hhot hid
      · cases hplan

/-- The target-only half works on a part of the request: the unnamed cells of
both layers stay as they were. -/
theorem maintenanceTargets_cell {targets : List DeleteItem} (hsub : ∀ it ∈ targets, it ∈ items)
    (hn : ¬ Named items k id) :
    (m.maintenanceTargets f targets).1.persistent.cell k id = m.persistent.cell k id := by
  have hn' : ¬ Named targets k id := fun ⟨it, hit, hk, hid⟩ => hn ⟨it, hsub it hit, hk, hid⟩
  unfold maintenanceTargets
  cases m.cache <;> exact batch_deleteItem_cell hn' _ _

theorem maintenanceTargets_cache {targets : List DeleteItem} (hsub : ∀ it ∈ targets, it ∈ items) :
    ∃ g : Store → Store, (m.maintenanceTargets f targets).1.cache = m.cache.map g
      ∧ ∀ c k id, ¬ Named items k id → (g c).cell k id = c.cell k id := by
  refine ⟨fun c => (Hot.deleteLocationsForMaintenance c targets
    (batch deleteItem f.deleteLocations m.persistent targets).2).1, ?_, ?_⟩
  · unfold maintenanceTargets
    cases m.cache <;> rfl
  · intro c k id hn
    have hn' : ¬ Named targets k id :=
      fun ⟨it, hit, hk, hid⟩ => hn ⟨it, hsub it hit, hk, hid⟩
    refine runSlots_inv (P := fun s : Store => s.cell k id = c.cell k id) ?_ rfl
    intro s p hp hs
    split
    · exact hot_deleteLocations_cell hn' s p.1 (of_mem_zip hp).1 hs
    · exact hs

theorem deleteLocationsForMaintenance_keeps (f : WriteFaults) (items : List DeleteItem) :
    KeepsUnnamed m (m.deleteLocationsForMaintenance f items).1 items := by
  unfold deleteLocationsForMaintenance
  split
  · exact ⟨fun k id l _ h => h, fun c hc => ⟨c, hc, fun k id l _ h => h⟩⟩
  · have hsub : ∀ it ∈ m.planned f items .targetOnly, it ∈ items :=
      fun it hit => (mem_planned hit).1
    obtain ⟨g, hg, hsame⟩ := maintenanceTargets_cache (m := m) (f := f) hsub
    have htargets : KeepsUnnamed m
        (m.maintenanceTargets f (m.planned f items .targetOnly)).1 items := by
      refine ⟨fun k id l hn h => by rw [maintenanceTargets_cell hsub hn, h], fun c hc => ?_⟩
      rw [hc] at hg
      exact ⟨g c, hg, fun k id l hn h => by rw [hsame c k id hn, h]⟩
    refine htargets.trans (keeps_of_delete (fun k hk id hn => ?_)
      (fun k hk => maintenanceWholeKeys_sameAt hk f) ?_)
    · obtain ⟨hp, hc⟩ := planned_wholeKey_cell hk hn
      refine ⟨by rw [maintenanceTargets_cell hsub hn, hp], fun c' hc' => ?_⟩
      rw [hg] at hc'
      obtain ⟨c, hcache, rfl⟩ := Option.map_eq_some_iff.mp hc'
      rw [hsame c k id hn, hc c hcache]
    · unfold maintenanceWholeKeys
      cases hc : (m.maintenanceTargets f (m.planned f items .targetOnly)).1.cache <;> simp [hc]

/-! ## Necessity

Without faults a request reclaims every key whose cached locations it names,
and the whole-key delete takes the persistent ones along. -/

theorem deleteTargets_of_hydrated {c : Store} (hc : m.cache = some c)
    (hh : (m.hydrate f c (items.map (·.key))).2 = true) : m.deleteTargets f items =
      let r := batch deleteItem f.deleteLocations m.persistent items
      let rc := Hot.conditional Hot.deleteLocations
        (m.hydrate f c (items.map (·.key))).1 items r.2
      ({ m with persistent := r.1, cache := some rc.1 }, rc.2) := by
  simp [deleteTargets, hc, hh]

theorem deleteItem_code (h : b.cell it.key id = some l) : (b.deleteItem it).2 = .ok := by
  obtain ⟨e, he, -⟩ := Option.bind_eq_some_iff.mp h
  unfold deleteItem deleteLocationsForOneKey
  rw [he]
  split <;> rfl

theorem batch_delete_gone (hk : k ∈ keys) (b : Backend) (id : LocationId) :
    (batch deleteForOneKey (fun _ => none) b keys).1.cell k id = none := by
  obtain ⟨i, hi⟩ := mem_iff_getElem?.mp hk
  obtain ⟨t, -, -, hrest⟩ := batch_slot deleteForOneKey
    (P := fun _ => True) (fun _ _ _ _ => trivial) (fun _ => none) (b := b) trivial hi rfl
  refine hrest (fun b' => b'.cell k id = none) (fun b' k' _ h => ?_) ?_
  · rw [cell_delete, h, ite_self]
  · rw [cell_delete, if_pos rfl]

/-- The fault-free run leaves the key in the cache without a location, and
with a successful slot. -/
theorem deleteTargets_empties (hit : it ∈ items) {c : Store} (hc : m.cache = some c)
    (hsome : (c.lookup it.key).isSome = true)
    (hnamed : ∀ id l, c.cell it.key id = some l → Named items it.key id)
    (hl : m.persistent.cell it.key id = some l) (hn : ¬ Named items it.key id) :
    it.key ∈ (m.deleteTargets {} items).1.reclaimKeys {} (items.map (·.key))
      (m.deleteTargets {} items).2 := by
  set keys := items.map (·.key)
  obtain ⟨e, he⟩ := Option.isSome_iff_exists.mp hsome
  have hlook := m.hydrate_of_some {} keys he
  rw [deleteTargets_of_hydrated hc (m.hydrate_noFault c keys)]
  simp only
  set r := batch deleteItem (WriteFaults.deleteLocations {}) m.persistent items
  set s := (m.hydrate {} c keys).1
  set rc := Hot.conditional Hot.deleteLocations s items r.2
  -- the unnamed location keeps the key alive below, so each of its slots is accepted
  have hpcode : ∀ (i : Nat) (it' : DeleteItem), items[i]? = some it' → it'.key = it.key →
      r.2[i]? = some ErrorCode.ok := by
    intro i it' hi hkey
    obtain ⟨t, ht, hcode, -⟩ := batch_slot deleteItem
      (fun b' it' hit' h => deleteItem_cell hn b' it' hit' h) (WriteFaults.deleteLocations {})
      hl hi rfl
    rw [hcode, deleteItem_code (hkey ▸ ht)]
  have halive : (rc.1.lookup it.key).isSome = true := by
    rw [conditional_deleteLocations_isSome, hlook]
    rfl
  have hempty : ∀ id', rc.1.cell it.key id' = none := by
    intro id'
    by_cases hn' : Named items it.key id'
    · obtain ⟨it', hit', hkey, hid⟩ := hn'
      obtain ⟨j, hj⟩ := mem_iff_getElem?.mp hit'
      obtain ⟨t, -, -, hrest⟩ := Hot.conditional_slot Hot.deleteLocations
        (P := fun _ => True) (fun _ _ _ _ => trivial) (s := s) trivial hj (hpcode j it' hj hkey)
      refine hrest (fun s' => s'.cell it.key id' = none) (fun s' it'' _ h => ?_) ?_
      · rw [Hot.cell_deleteLocations, h, ite_self]
      · rw [Hot.cell_deleteLocations, if_pos ⟨hkey.symm, hid⟩]
    · rw [conditional_deleteLocations_cell hn', Store.cell, hlook, ← he, ← Store.cell]
      by_contra hne
      obtain ⟨l', hl'⟩ := Option.ne_none_iff_exists'.mp hne
      exact hn' (hnamed id' l' hl')
  obtain ⟨j, hj⟩ := mem_iff_getElem?.mp hit
  have hcode : rc.2[j]? = some ErrorCode.ok := by
    obtain ⟨t, ht, hcode, -⟩ := Hot.conditional_slot Hot.deleteLocations
      (P := fun s' => (s'.lookup it.key).isSome = true)
      (fun s' it' _ h => (Hot.isSome_deleteLocations s' it' it.key).trans h)
      (s := s) (by rw [hlook]; rfl) hj (hpcode j it hj rfl)
    rw [hcode, Hot.deleteLocations_code ht]
  refine mem_reclaimKeys_of (i := j) (by simp [keys, hj]) hcode fun i => ?_
  exact existsLocation_of_empty halive hempty

theorem covered_of_keeps (h : KeepsUnnamed m (m.deleteLocations {} items).1 items) :
    Covered m items := by
  intro it hit c hc hsome hnamed id l hl
  by_contra hn
  have hk := deleteTargets_empties hit hc hsome hnamed hl hn
  have hkept := h.persistent it.key id l hn hl
  have hgone : (m.deleteLocations {} items).1.persistent.cell it.key id = none := by
    unfold deleteLocations maybeReclaimEmptyKeys delete
    simp only
    split <;> exact batch_delete_gone hk _ id
  rw [hgone] at hkept
  cases hkept

end Manager

/-! ## The exact condition -/

theorem locationDeletes_frame_iff (m : Manager) (items : List DeleteItem) :
    LocationDeletesFrame m items ↔ Covered m items := by
  constructor
  · intro h
    exact Manager.covered_of_keeps (h {}).1
  · intro hcov f
    exact ⟨Manager.deleteLocations_keeps hcov f,
      Manager.deleteLocationsForMaintenance_keeps f items⟩

/-- The state a partially failed `Upsert` leaves: location `B` reached the
persistent layer and not the cache. -/
def divergedManager : Manager :=
  let loc := fun (id : LocationId) =>
    ({ id, status := .serving, type := .hf3fs, specSize := 1, createTime := 0,
       locationSpecs := [], validatedTotalSize := none } : CacheLocation)
  let cached : CacheLocationMap := (∅ : CacheLocationMap).insert "A" (loc "A")
  { persistent :=
      { kind := .redis
        store := (∅ : Store).insert 1 ⟨cached.insert "B" (loc "B"), ∅⟩ }
    cache := some ((∅ : Store).insert 1 ⟨cached, ∅⟩)
    recoverState := .running
    deletedKeys := [] }

theorem divergedManager_loses_unnamed : ∃ m items, ¬ LocationDeletesFrame m items := by
  refine ⟨divergedManager, [⟨1, ["A"]⟩], fun h => ?_⟩
  have hn : ¬ Named [⟨1, ["A"]⟩] 1 "B" := by
    rintro ⟨it, hit, -, hid⟩
    obtain rfl := mem_singleton.mp hit
    exact absurd hid (by decide)
  obtain ⟨l, hl⟩ : ∃ l, divergedManager.persistent.cell 1 "B" = some l := ⟨_, rfl⟩
  have hkept := (h {}).1.persistent 1 "B" l hn hl
  have hgone : (divergedManager.deleteLocations {} [⟨1, ["A"]⟩]).1.persistent.cell 1 "B"
      = none := by decide
  rw [hgone] at hkept
  cases hkept

end TairKvCache
