import TairKvCache.Reclaimer.Model

/-!
# What the filter may take

A location that `FilterLocID` takes is an ordinary one that nobody else deletes
or writes, and while only the total water level is exceeded the names it carries
stay readable on a cold storage.
-/

namespace TairKvCache.Reclaimer

open List

variable {cfg : AsyncDeleteConfig} {T : Totals} {insId insGr : String} {env : FilterEnv}
  {F : Filtered} {blockKey : KeyType} {locMap : CacheLocationMap}

/-! ## Safe choices -/

/-- A serving copy on a cold storage that is not about to be deleted. -/
def isColdCopy (T : Totals) (insId : String) (env : FilterEnv) (blockKey : KeyType)
    (loc : CacheLocation) : Prop :=
  loc.status = .serving ∧ isPendingLocation T insId blockKey loc.id = false ∧
    locOnColdStorage env loc = true

/-- What the locations taken from a block must satisfy. -/
structure SafeChoice (T : Totals) (insId : String) (env : FilterEnv) (blockKey : KeyType)
    (locMap : CacheLocationMap) (taken : List CacheLocation) : Prop where
  ordinary : ∀ loc ∈ taken, isEventReportStorageType loc.type = false
  fresh : ∀ loc ∈ taken, isPendingLocation T insId blockKey loc.id = false
  unused : ∀ loc ∈ taken, loc.status = .writing →
    env.hasActiveCopyTargetLocation blockKey loc.id = false ∧
      ∃ has, env.hasLocationId = some has ∧ has loc.id = false
  covered : env.storageTypeWaterLevelExceed = false →
    (∃ cold ∈ locMap.entries.map Sigma.snd, isColdCopy T insId env blockKey cold ∧
      isEventReportStorageType cold.type = false) →
    ∀ hot ∈ taken, hot.status = .serving → locOnColdStorage env hot = false →
      ∀ spec ∈ hot.locationSpecs, ∃ cold ∈ locMap.entries.map Sigma.snd,
        isColdCopy T insId env blockKey cold ∧ cold ∉ taken ∧
          ∃ other ∈ cold.locationSpecs, other.name = spec.name

theorem eligible_iff {loc : CacheLocation} : eligible T insId env blockKey locMap loc = true ↔
    (isEventReportStorageType loc.type = false ∧
      isPendingLocation T insId blockKey loc.id = false) ∧
      (loc.status = .serving ∨ isOrphanedWriting env blockKey loc = true) ∧
        selectedByWaterLevel T insId env blockKey locMap loc = true := by
  simp [eligible, and_assoc]

theorem mem_coldLocationsCoverSpecs {source : CacheLocation} {spec : LocationSpec}
    (h : coldLocationsCoverSpecs T insId env blockKey locMap source = true)
    (hspec : spec ∈ source.locationSpecs) : ∃ cold ∈ locMap.entries.map Sigma.snd,
      isColdCopy T insId env blockKey cold ∧ ∃ other ∈ cold.locationSpecs,
        other.name = spec.name := by
  simp only [coldLocationsCoverSpecs, Bool.and_eq_true, all_eq_true, any_eq_true,
    decide_eq_true_eq, Bool.not_eq_true'] at h
  obtain ⟨entry, hentry, ⟨⟨⟨hserving, _⟩, hfresh⟩, hcold⟩, hname⟩ := h.2 spec hspec
  exact ⟨entry.2, mem_map_of_mem hentry, ⟨hserving, hfresh, hcold⟩, hname⟩

/-- Eligible locations of a block form a safe choice, however many the limits
let through. -/
theorem safeChoice_of_eligible {taken : List CacheLocation}
    (hsub : ∀ loc ∈ taken, loc ∈ locMap.entries.map Sigma.snd)
    (helig : ∀ loc ∈ taken, eligible T insId env blockKey locMap loc = true) :
    SafeChoice T insId env blockKey locMap taken where
  ordinary loc hloc := (eligible_iff.mp (helig loc hloc)).1.1
  fresh loc hloc := (eligible_iff.mp (helig loc hloc)).1.2
  unused loc hloc hwriting := by
    rcases (eligible_iff.mp (helig loc hloc)).2.1 with hserving | horphan
    · rw [hwriting] at hserving
      cases hserving
    · simpa [isOrphanedWriting, hwriting, Option.any_eq_true, and_comm] using horphan
  covered htotal := by
    rintro ⟨cold, hcold, ⟨hserving, hfresh, hstorage⟩, hordinary⟩ hot hhot hhotServing hhotStorage
      spec hspec
    obtain ⟨⟨hhotOrdinary, hhotFresh⟩, _, _⟩ := eligible_iff.mp (helig hot hhot)
    have hkeep : keepColdEvictHot T insId env blockKey locMap = true := by
      have hne : env.coldStorages ≠ [] := by
        intro hnil
        revert hstorage
        cases hspecs : cold.locationSpecs <;> simp [locOnColdStorage, hspecs, hnil]
      simp only [keepColdEvictHot, htotal, Bool.not_false, Bool.true_and, Bool.and_eq_true,
        Bool.not_eq_true', isEmpty_eq_false_iff, any_eq_true, mem_filter, decide_eq_true_eq]
      exact ⟨⟨hne, cold, ⟨hcold, ⟨hordinary, hfresh⟩, hserving⟩, hstorage⟩,
        hot, ⟨hsub hot hhot, ⟨hhotOrdinary, hhotFresh⟩, hhotServing⟩, hhotStorage⟩
    -- with a cold copy at hand a serving location is taken only off the cold storages
    have hserved : ∀ loc ∈ taken, loc.status = .serving → locOnColdStorage env loc = false ∧
        coldLocationsCoverSpecs T insId env blockKey locMap loc = true := by
      intro loc hloc hs
      simpa [selectedByWaterLevel, htotal, hkeep, hs] using (eligible_iff.mp (helig loc hloc)).2.2
    obtain ⟨other, hother, hcopy, hname⟩ :=
      mem_coldLocationsCoverSpecs (hserved hot hhot hhotServing).2 hspec
    refine ⟨other, hother, hcopy, fun htaken => ?_, hname⟩
    exact absurd hcopy.2.2 (by simp [(hserved other htaken hcopy.1).1])

/-! ## The loops -/

/-- The identifiers written for one block are those of a safe choice from it. -/
def SafeIds (T : Totals) (insId : String) (env : FilterEnv) (block : KeyType × CacheLocationMap)
    (ids : List LocationId) : Prop :=
  ∃ taken, taken.Sublist (block.2.entries.map Sigma.snd) ∧ ids = taken.map CacheLocation.id ∧
    SafeChoice T insId env block.1 block.2 taken

section Loops

variable (cfg T insId insGr env)

theorem filterBlock_taken (blockKey : KeyType) (locMap : CacheLocationMap) (F : Filtered)
    (locs : List CacheLocation) :
    (filterBlock cfg T insId insGr env blockKey locMap F locs).1.locIds = F.locIds ∧
      ∃ taken : List CacheLocation, taken.Sublist locs ∧
        (filterBlock cfg T insId insGr env blockKey locMap F locs).2 = taken.map (·.id) ∧
        ∀ loc ∈ taken, eligible T insId env blockKey locMap loc = true := by
  induction locs generalizing F with
  | nil => exact ⟨rfl, [], List.Sublist.slnil, rfl, by simp⟩
  | cons loc locs ih =>
    rw [filterBlock]
    dsimp only
    split
    next htake =>
      obtain ⟨hids, taken, hsub, hmap, helig⟩ :=
        ih (F.take (toBaseType loc.type) (getLocationBytes loc))
      refine ⟨hids, loc :: taken, hsub.cons_cons loc, by rw [hmap, map_cons], ?_⟩
      exact forall_mem_cons.mpr ⟨(Bool.and_eq_true_iff.mp htake).1, helig⟩
    next =>
      obtain ⟨hids, taken, hsub, hmap, helig⟩ := ih F
      exact ⟨hids, taken, hsub.cons loc, hmap, helig⟩

theorem foldl_onBlock_locIds (F : Filtered) (blocks : List (KeyType × CacheLocationMap)) :
    ∃ rest, (blocks.foldl (onBlock cfg T insId insGr env) F).locIds = F.locIds ++ rest ∧
      List.Forall₂ (SafeIds T insId env) blocks rest := by
  induction blocks generalizing F with
  | nil => exact ⟨[], (append_nil _).symm, .nil⟩
  | cons block blocks ih =>
    obtain ⟨hids, taken, hsub, hmap, helig⟩ := filterBlock_taken cfg T insId insGr env block.1
      block.2 F (block.2.entries.map Sigma.snd)
    obtain ⟨rest, hrest, hall⟩ := ih (onBlock cfg T insId insGr env F block)
    refine ⟨_ :: rest, ?_, .cons ⟨taken, hsub, hmap,
      safeChoice_of_eligible (fun loc hloc => hsub.subset hloc) helig⟩ hall⟩
    rw [foldl_cons, hrest, onBlock, hids, append_assoc, singleton_append]

end Loops

/-- Every list of identifiers that `FilterLocID` returns is a safe choice from
the block it belongs to. -/
theorem filterLocID_safe {batch : List KeyType} {maps : List CacheLocationMap}
    (hmaps : env.locationMaps = some maps)
    (h : filterLocID cfg T insId insGr env batch = some F) {i : Nat}
    {block : KeyType × CacheLocationMap} (hblock : (batch.zip maps)[i]? = some block) :
    ∃ ids, F.locIds[i]? = some ids ∧ SafeIds T insId env block ids := by
  obtain ⟨hi, hget⟩ := List.getElem?_eq_some_iff.mp hblock
  unfold filterLocID at h
  split at h
  next =>
    -- a limit of the process is reached: nothing is taken from any block
    obtain rfl := Option.some.inj h
    rw [length_zip, lt_min_iff] at hi
    exact ⟨[], by simp [hi.1], [], nil_sublist _, rfl,
      safeChoice_of_eligible (by simp) (by simp)⟩
  next =>
    simp only [hmaps] at h
    split at h
    next => cases h
    next =>
      obtain rfl := Option.some.inj h
      obtain ⟨rest, hrest, hall⟩ := foldl_onBlock_locIds cfg T insId insGr env {} (batch.zip maps)
      have hi' : i < rest.length := hall.length_eq ▸ hi
      rw [hrest, nil_append]
      exact ⟨_, getElem?_eq_getElem hi', hget ▸ hall.get hi hi'⟩

/-- A block with a serving location on each tier; only `cold` is a target of a
migration. -/
def twoTiers (coldType : DataStorageType) (coldName : String) : CacheLocationMap :=
  let loc id type spec : CacheLocation := ⟨id, .serving, type, 1, 0, [spec], none⟩
  ((∅ : CacheLocationMap).insert "h" (loc "h" .hf3fs ⟨"tp0", "hf3fs://hot/f?size=5"⟩)).insert "c"
    (loc "c" coldType ⟨coldName, "nfs://cold/f?size=5"⟩)

def tieredEnv (locMap : CacheLocationMap) : FilterEnv where
  locationMaps := some [locMap]
  storageTypeWaterLevelExceed := false
  waterLevelExceedByType := fun _ => false
  coldStorages := ["cold"]
  hasActiveCopyTargetLocation := fun _ _ => false
  hasLocationId := none

theorem filterLocID_safe_two : ∃ F,
    filterLocID {} {} "i" "g" (tieredEnv (twoTiers .nfs "tp0")) [1] = some F ∧
      ∃ ids, F.locIds[0]? = some ids ∧
        SafeIds {} "i" (tieredEnv (twoTiers .nfs "tp0")) (1, twoTiers .nfs "tp0") ids :=
  have h : filterLocID {} {} "i" "g" (tieredEnv (twoTiers .nfs "tp0")) [1] = some _ :=
    (Option.some_get (by decide +kernel)).symm
  ⟨_, h, filterLocID_safe rfl h rfl⟩

/-- A reporter's location on a cold storage keeps nothing: the only location with
`tp0` is taken beside it. -/
theorem reporter_location_keeps_nothing : ∃ locMap : CacheLocationMap,
    (∃ cold ∈ locMap.entries.map Sigma.snd, isColdCopy {} "i" (tieredEnv locMap) 1 cold) ∧
      (filterLocID {} {} "i" "g" (tieredEnv locMap) [1]).map (·.locIds) = some [["h"]] ∧
      ∀ loc ∈ locMap.entries.map Sigma.snd, loc.id ≠ "h" → ∀ spec ∈ loc.locationSpecs,
        spec.name ≠ "tp0" := by
  refine ⟨twoTiers .eventReportL2 "tp1", ?_, by decide +kernel, by decide +kernel⟩
  exact ⟨_, mem_cons_self, rfl, by decide +kernel, by decide +kernel⟩

end TairKvCache.Reclaimer
