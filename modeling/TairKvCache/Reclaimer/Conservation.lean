import TairKvCache.Reclaimer.Accounts

/-!
# Conservation over whole runs of the reclaimer

`FilterLocID` picks under the same limits that `SubmitDelReq` checks again, so
the sums of a request are exact (`Picked`) and a submitted handler always fits.
Together with the moves of `Accounts` this makes the totals sums over the live
handlers in every state of every run, and at every turn of the polling loop.
-/

namespace TairKvCache.Reclaimer

open Lib List Machine

variable {cfg : AsyncDeleteConfig} {T : Totals}

/-! ## What the filter picks -/

def sumBytes (bytes : ByStorageType) : Nat := (storageTypes.map bytes).sum

theorem sumBytes_update (bytes : ByStorageType) (t : DataStorageType) (n : Nat) :
    sumBytes (Function.update bytes t (bytes t + n)) = sumBytes bytes + n := by
  cases t <;> simp [sumBytes, storageTypes, Function.update] <;> omega

theorem le_sumBytes (bytes : ByStorageType) (t : DataStorageType) : bytes t ≤ sumBytes bytes := by
  cases t <;> simp [sumBytes, storageTypes] <;> omega

/-- The sums of a request so far are exact and within the range. -/
structure Picked (limit pending : Nat) (F : Filtered) : Prop where
  sum : sumBytes F.bytesByType = F.selectedTotalBytes
  fits : pending + F.selectedTotalBytes ≤ limit
  predicted : F.predictedDeletedKeys ≤ (F.locIds.map List.length).sum

theorem Picked.init {limit pending : Nat} (h : pending ≤ limit) : Picked limit pending {} :=
  ⟨rfl, h, Nat.zero_le _⟩

variable {F : Filtered} {s : Reclaimer}

theorem Picked.take {limit pending : Nat} {type : DataStorageType} {bytes : Nat}
    (hlimit : limit ≤ maxU64) (hp : Picked limit pending F)
    (hfree : exceedsLimit limit (saturatingAdd pending F.selectedTotalBytes) bytes = false) :
    Picked limit pending (F.take type bytes) := by
  have hfits := hp.fits
  have hroom := not_exceedsLimit hfree
  rw [saturatingAdd_eq (by omega)] at hroom
  have htype : F.bytesByType type ≤ F.selectedTotalBytes := hp.sum ▸ le_sumBytes _ _
  have htotal : (F.take type bytes).selectedTotalBytes = F.selectedTotalBytes + bytes :=
    saturatingAdd_eq (by omega)
  refine ⟨?_, by omega, hp.predicted⟩
  rw [htotal, ← hp.sum, Filtered.take]
  dsimp only
  rw [saturatingAdd_eq (by omega), sumBytes_update]

section Filter

variable {insId insGr : String} {env : FilterEnv}

theorem limitReached_process {type : DataStorageType} {bytes : Nat}
    (h : limitReached cfg T insGr F type bytes = false) : exceedsLimit cfg.pendingBytesLimit
      (saturatingAdd T.pendingDeleteBytes F.selectedTotalBytes) bytes = false := by
  simp only [limitReached, Bool.or_eq_false_iff] at h
  exact h.2

theorem filterBlock_picked (insId insGr : String) (env : FilterEnv) (blockKey : KeyType)
    (locMap : CacheLocationMap) (locs : List CacheLocation)
    (hp : Picked cfg.pendingBytesLimit T.pendingDeleteBytes F) :
    Picked cfg.pendingBytesLimit T.pendingDeleteBytes
      (filterBlock cfg T insId insGr env blockKey locMap F locs).1 := by
  induction locs generalizing F with
  | nil => exact hp
  | cons loc locs ih =>
    rw [filterBlock]
    dsimp only
    split
    next htake =>
      simp only [Bool.and_eq_true, Bool.not_eq_true'] at htake
      exact ih (hp.take cfg.bytesLimit_le (limitReached_process htake.2))
    next => exact ih hp

theorem onBlock_picked (block : KeyType × CacheLocationMap)
    (hp : Picked cfg.pendingBytesLimit T.pendingDeleteBytes F) :
    Picked cfg.pendingBytesLimit T.pendingDeleteBytes (onBlock cfg T insId insGr env F block) := by
  have hpick := filterBlock_picked insId insGr env block.1 block.2
    (block.2.entries.map Sigma.snd) hp
  rw [onBlock]
  generalize filterBlock cfg T insId insGr env block.1 block.2 F
    (block.2.entries.map Sigma.snd) = r at hpick
  refine ⟨hpick.sum, hpick.fits, ?_⟩
  have hle := hpick.predicted
  dsimp only
  rw [map_append, sum_append, map_singleton, sum_singleton]
  split
  next hall =>
    -- a block counted for its key has a location in the request
    simp only [Bool.and_eq_true, Bool.not_eq_true', isEmpty_eq_false_iff] at hall
    have hpos := length_pos_of_ne_nil hall.1
    unfold saturatingAdd
    split <;> omega
  next => omega

/-- The outputs of `FilterLocID`: an exact sum of bytes, and no more predicted
keys than locations. -/
theorem filterLocID_spec {batch : List KeyType}
    (h : filterLocID cfg T insId insGr env batch = some F) : sumBytes F.bytesByType ≤ maxU64 ∧
      F.predictedDeletedKeys ≤ (F.locIds.map List.length).sum := by
  unfold filterLocID at h
  split at h
  next =>
    obtain rfl := Option.some.inj h
    exact ⟨Nat.zero_le _, Nat.zero_le _⟩
  next hroom =>
    simp only [Bool.or_eq_true, decide_eq_true_eq, not_or, not_le] at hroom
    split at h
    next => cases h
    next maps _ =>
      split at h
      next => cases h
      next =>
        obtain rfl := Option.some.inj h
        have hp : Picked cfg.pendingBytesLimit T.pendingDeleteBytes
            ((batch.zip maps).foldl (onBlock cfg T insId insGr env) {}) :=
          List.foldlRecOn (batch.zip maps) _ (Picked.init hroom.2.le)
            fun F hF block _ => onBlock_picked block hF
        have hfits := hp.fits
        have hlimit := cfg.bytesLimit_le
        exact ⟨by rw [hp.sum]; omega, hp.predicted⟩

end Filter

/-! ## Submitting -/

theorem collectPending_spec {pending : Finset PendingLocationKey}
    {seen ks l : List PendingLocationKey} (h : collectPending pending seen ks = some l)
    (hseen : seen.Nodup) : l = seen ++ ks ∧ l.Nodup ∧ ∀ k ∈ ks, k ∉ pending := by
  induction ks generalizing seen with
  | nil =>
    obtain rfl : seen = l := Option.some.inj h
    exact ⟨(append_nil _).symm, hseen, fun k hk => absurd hk not_mem_nil⟩
  | cons k ks ih =>
    rw [collectPending] at h
    split_ifs at h with hdup hpending
    have hseen' : (seen ++ [k]).Nodup := by
      refine nodup_append.mpr ⟨hseen, nodup_singleton k, ?_⟩
      rintro a ha b hb rfl
      exact hdup (mem_singleton.mp hb ▸ ha)
    obtain ⟨hl, hnd, hfresh⟩ := ih h hseen'
    refine ⟨by rw [hl, append_assoc]; rfl, hnd, fun k' hk' => ?_⟩
    rcases mem_cons.mp hk' with rfl | hk'
    · exact hpending
    · exact hfresh k' hk'

theorem length_requestLocations {insId : String} {blockKeys : List KeyType}
    {locationIds : List (List LocationId)} (h : blockKeys.length = locationIds.length) :
    (requestLocations insId blockKeys locationIds).length
      = (locationIds.map List.length).sum := by
  induction locationIds generalizing blockKeys with
  | nil =>
    obtain rfl : blockKeys = [] := length_eq_zero_iff.mp h
    rfl
  | cons ids locationIds ih =>
    cases blockKeys with
    | nil => cases h
    | cons k blockKeys =>
      have ih := ih (Nat.succ.inj h)
      simp only [requestLocations] at ih
      simp [requestLocations, ih]

/-- A type the request does not touch has no check, and needs none. -/
theorem typeLimitExceeded_false {insGr : String} {t : DataStorageType}
    (hcount : (T.pendingQuota insGr t).locationCount ≤ cfg.pendingLocationLimitPerGroupType)
    (hbytes : (T.pendingQuota insGr t).bytes ≤ cfg.pendingBytesLimitPerGroupType)
    (h : typeLimitExceeded cfg T insGr F t = false) :
    (T.pendingQuota insGr t).locationCount + F.locationCountsByType t
        ≤ cfg.pendingLocationLimitPerGroupType ∧
      (T.pendingQuota insGr t).bytes + F.bytesByType t ≤ cfg.pendingBytesLimitPerGroupType := by
  by_cases hz : F.locationCountsByType t = 0 ∧ F.bytesByType t = 0
  · omega
  · have hz' : (!(decide (F.locationCountsByType t = 0) && decide (F.bytesByType t = 0))) = true := by
      rw [← Bool.decide_and, Bool.not_eq_true', decide_eq_false_iff_not]
      exact hz
    simp only [typeLimitExceeded, hz', Bool.true_and, Bool.or_eq_false_iff] at h
    exact ⟨not_exceedsLimit h.1, not_exceedsLimit h.2⟩

theorem mem_storageTypes (t : DataStorageType) : t ∈ storageTypes := by
  cases t <;> decide

/-- A request is turned down without a trace, or leaves one handler for which
there was room. -/
theorem submitDelReq_cases {env : SubmitEnv} {insId insGr : String} {blockKeys : List KeyType}
    {delayUs : Int} (ha : Accounts cfg s.totals s.deleteHandlers)
    (hbytes : sumBytes F.bytesByType ≤ maxU64)
    (hpred : F.predictedDeletedKeys ≤ (F.locIds.map List.length).sum)
    (hsize : (heldLocations (submitDelReq cfg env insId insGr blockKeys F delayUs
      s).deleteHandlers).length ≤ maxU64) :
    submitDelReq cfg env insId insGr blockKeys F delayUs s = s ∨
      ∃ h, Fits cfg s.totals s.deleteHandlers h ∧
        submitDelReq cfg env insId insGr blockKeys F delayUs s =
          { deleteHandlers := h :: s.deleteHandlers
            totals := s.totals.addDeleteHandlerState h } := by
  generalize hr : submitDelReq cfg env insId insGr blockKeys F delayUs s = s' at hsize ⊢
  unfold submitDelReq at hr
  split at hr
  next => exact .inl hr.symm
  next =>
  split at hr
  next => exact .inl hr.symm
  next hlen =>
  split at hr
  next => exact .inl hr.symm
  next keys hcollect =>
  obtain ⟨hkeys, hnd, hfresh⟩ := collectPending_spec hcollect nodup_nil
  rw [nil_append] at hkeys
  subst hkeys
  dsimp only at hr
  split at hr
  next => exact .inl hr.symm
  next =>
  split at hr
  next => exact .inl hr.symm
  next hhandlers =>
  split at hr
  next => exact .inl hr.symm
  next htypes =>
  split at hr
  next => exact .inl hr.symm
  next hprocess =>
  split at hr
  next => exact .inl hr.symm
  next fut hfut =>
  subst hr
  have htype : ∀ t, typeLimitExceeded cfg s.totals insGr F t = false := fun t => by
    simpa using fun h => htypes (any_eq_true.mpr ⟨t, mem_storageTypes t, h⟩)
  have hroom : ∀ t, _ ∧ _ := fun t => typeLimitExceeded_false
    (ha.quotaCount insGr t ▸ ha.countLimit insGr t)
    (ha.quotaBytes insGr t ▸ ha.bytesLimit insGr t) (htype t)
  refine .inr ⟨_, ⟨hnd, hfresh, hsize, rfl, fun t => (hroom t).1, fun t => (hroom t).2,
    not_le.mp hhandlers, ?_, ?_⟩, rfl⟩
  · have h := not_exceedsLimit (Bool.eq_false_iff.mpr hprocess)
    rwa [foldl_saturatingAdd (by rw [Nat.zero_add]; exact hbytes), Nat.zero_add] at h
  · rw [length_requestLocations (not_not.mp hlen)]
    exact hpred

theorem reclaimByLRU_accounts {i : ReclaimInput} (ha : Accounts cfg s.totals s.deleteHandlers)
    (hsize : (heldLocations (reclaimByLRU cfg i s).deleteHandlers).length ≤ maxU64) :
    Accounts cfg (reclaimByLRU cfg i s).totals (reclaimByLRU cfg i s).deleteHandlers := by
  unfold reclaimByLRU at hsize ⊢
  split
  next => exact ha
  next F hF =>
    rw [hF] at hsize
    obtain ⟨hbytes, hpred⟩ := filterLocID_spec hF
    rcases submitDelReq_cases ha hbytes hpred hsize with h | ⟨d, hfits, h⟩
    · rw [h]
      exact ha
    · rw [h]
      exact ha.add hfits

/-! ## Polling -/

theorem handleOne_accounts (env : PollEnv) {h : DeleteHandler} {hs : List DeleteHandler}
    (ha : Accounts cfg T (h :: hs)) :
    Accounts cfg (handleOne env T h).1 ((handleOne env T h).2.toList ++ hs) := by
  have hlost : Uncredited h { h.disableCredit with outcomeUnknownReported := true } :=
    ⟨rfl, rfl, rfl, rfl, rfl, rfl⟩
  unfold handleOne
  cases env.answer h.fut with
  | invalid | threw | deferred => exact ha.disable hlost
  | ready => exact ha.release
  | timeout =>
    dsimp only
    split
    next => exact ha.disable ⟨rfl, rfl, rfl, rfl, rfl, rfl⟩
    next => exact ha

theorem next_accounts {env : PollEnv} {v : Visit}
    (ha : Accounts cfg v.totals v.current.deleteHandlers) :
    Accounts cfg (v.next env).totals (v.next env).current.deleteHandlers := by
  obtain ⟨T, kept, rest⟩ := v
  cases rest with
  | nil => exact ha
  | cons h rest =>
    have hperm : (kept ++ h :: rest).Perm (h :: (kept ++ rest)) := perm_middle
    have hone := handleOne_accounts env (ha.perm hperm)
    refine hone.perm ?_
    rw [← append_assoc]
    exact perm_append_comm.append_right rest

theorem visit_accounts (env : PollEnv) (ha : Accounts cfg s.totals s.deleteHandlers) (n : Nat) :
    Accounts cfg (visit env s n).totals (visit env s n).current.deleteHandlers := by
  induction n with
  | zero => exact ha
  | succ n ih =>
    rw [visit, Function.iterate_succ_apply']
    exact next_accounts ih

theorem reach_accounts (h : (machine cfg).Reach anyAction s) :
    Accounts cfg s.totals s.deleteHandlers := by
  refine h.inv (P := fun s => Accounts cfg s.totals s.deleteHandlers) ?_ ?_
  · rintro s rfl
    exact Accounts.init cfg
  · intro s a s' ha _ hstep
    cases a with
    | reclaim i =>
      simp only [machine] at hstep
      split_ifs at hstep with hsize
      obtain rfl := Option.some.inj hstep
      exact reclaimByLRU_accounts ha hsize
    | handleDelRes env =>
      obtain rfl := Option.some.inj hstep
      exact visit_accounts env ha _

/-! ## The totals of every state -/

/-- The totals are the sums over the live handlers and within the limits; a
credit is summed over the handlers that still have it. -/
structure Balanced (cfg : AsyncDeleteConfig) (s : Reclaimer) : Prop where
  pending : ∀ k, k ∈ s.totals.pendingLocations ↔ ∃ h ∈ s.deleteHandlers, k ∈ h.pendingLocations
  owner : ∀ (i j : Nat) (h h' : DeleteHandler) (k : PendingLocationKey),
    s.deleteHandlers[i]? = some h → s.deleteHandlers[j]? = some h' →
      k ∈ h.pendingLocations → k ∈ h'.pendingLocations → i = j
  quotaCount : ∀ g t, (s.totals.pendingQuota g t).locationCount
    = total (·.countAt g t) s.deleteHandlers
  quotaBytes : ∀ g t, (s.totals.pendingQuota g t).bytes = total (·.bytesAt g t) s.deleteHandlers
  handlerCount : s.totals.pendingDeleteHandlerCount = s.deleteHandlers.length
  deleteBytes : s.totals.pendingDeleteBytes = total (·.totalBytes) s.deleteHandlers
  credited : ∀ g t, s.totals.creditedDeleteBytes g t = total (·.creditAt g t) s.deleteHandlers
  predicted : ∀ g, s.totals.predictedDeletedKeys g = total (·.predictedAt g) s.deleteHandlers
  countLimit : ∀ g t, (s.totals.pendingQuota g t).locationCount
    ≤ cfg.pendingLocationLimitPerGroupType
  bytesLimit : ∀ g t, (s.totals.pendingQuota g t).bytes ≤ cfg.pendingBytesLimitPerGroupType
  handlerLimit : s.totals.pendingDeleteHandlerCount ≤ cfg.pendingDeleteHandlerLimit
  processLimit : s.totals.pendingDeleteBytes ≤ cfg.pendingBytesLimit

/-- Whatever disabling or releasing a live handler would subtract is there. -/
structure Covered (s : Reclaimer) (h : DeleteHandler) : Prop where
  quotaCount : ∀ t, h.locationCountsByType t ≤ (s.totals.pendingQuota h.insGr t).locationCount
  quotaBytes : ∀ t, h.bytesByType t ≤ (s.totals.pendingQuota h.insGr t).bytes
  handlerCount : 1 ≤ s.totals.pendingDeleteHandlerCount
  deleteBytes : h.totalBytes ≤ s.totals.pendingDeleteBytes
  credited : h.creditEnabled = true → ∀ t, isCreditedType t = true →
    h.bytesByType t ≤ s.totals.creditedDeleteBytes h.insGr t
  predicted : h.creditEnabled = true →
    h.predictedDeletedKeys ≤ s.totals.predictedDeletedKeys h.insGr

theorem Accounts.balanced (ha : Accounts cfg s.totals s.deleteHandlers) : Balanced cfg s where
  pending := fun k => by
    rw [ha.pending, mem_toFinset, heldLocations, mem_flatMap]
  owner := fun _ _ _ _ _ hi hj hk hk' => owner_unique ha.nodup hi hj hk hk'
  quotaCount := ha.quotaCount
  quotaBytes := ha.quotaBytes
  handlerCount := ha.handlerCount
  deleteBytes := ha.deleteBytes
  credited := ha.credited
  predicted := ha.predicted
  countLimit := fun g t => ha.quotaCount g t ▸ ha.countLimit g t
  bytesLimit := fun g t => ha.quotaBytes g t ▸ ha.bytesLimit g t
  handlerLimit := ha.handlerCount ▸ ha.handlerLimit
  processLimit := ha.deleteBytes ▸ ha.processLimit

theorem Accounts.covered (ha : Accounts cfg s.totals s.deleteHandlers) {h : DeleteHandler}
    (hm : h ∈ s.deleteHandlers) : Covered s h where
  quotaCount := fun t => by
    rw [ha.quotaCount]
    simpa [DeleteHandler.countAt] using le_total (f := (·.countAt h.insGr t)) hm
  quotaBytes := fun t => by
    rw [ha.quotaBytes]
    simpa [DeleteHandler.bytesAt] using le_total (f := (·.bytesAt h.insGr t)) hm
  handlerCount := by
    rw [ha.handlerCount]
    exact length_pos_of_mem hm
  deleteBytes := by
    rw [ha.deleteBytes]
    exact le_total (f := (·.totalBytes)) hm
  credited := fun hon t ht => by
    rw [ha.credited]
    simpa [DeleteHandler.creditAt, hon, ht] using le_total (f := (·.creditAt h.insGr t)) hm
  predicted := fun hon => by
    rw [ha.predicted]
    simpa [DeleteHandler.predictedAt, hon] using le_total (f := (·.predictedAt h.insGr)) hm

/-- In every run, after every batch and at every turn of every polling loop,
the totals are balanced and nothing that is subtracted later is missing. -/
theorem totals_balanced (cfg : AsyncDeleteConfig) {s : Reclaimer}
    (h : (machine cfg).Reach anyAction s) :
    (Balanced cfg s ∧ ∀ d ∈ s.deleteHandlers, Covered s d) ∧
      ∀ env n, Balanced cfg (visit env s n).current ∧
        ∀ d ∈ (visit env s n).current.deleteHandlers, Covered (visit env s n).current d := by
  have ha := reach_accounts h
  refine ⟨⟨ha.balanced, fun d hd => ha.covered hd⟩, fun env n => ?_⟩
  have hv : Accounts cfg (visit env s n).current.totals (visit env s n).current.deleteHandlers :=
    visit_accounts env ha n
  exact ⟨hv.balanced, fun d hd => hv.covered hd⟩

/-! ## A delete that outlives its credit -/

/-- One serving location of five bytes under block 1. -/
def oneLocation : ReclaimInput where
  insId := "i"
  insGr := "g"
  blockKeys := [1]
  delayUs := 0
  filter :=
    { locationMaps := some [(∅ : CacheLocationMap).insert "l"
        { id := "l", status := .serving, type := .hf3fs,
          locationSpecs := [⟨"tp0", "hf3fs://c/f?size=5"⟩] }]
      storageTypeWaterLevelExceed := false
      waterLevelExceedByType := fun _ => false
      coldStorages := []
      hasActiveCopyTargetLocation := fun _ _ => false
      hasLocationId := none }
  submit := { active := true, submitAsync := some 0, submittedAt := 0 }

/-- The delete is still running when its credit runs out. -/
def pastDeadline : PollEnv where
  answer := fun _ => .timeout
  now := fun _ => 60000 * 1000

def lateRun : Option Reclaimer :=
  (machine {}).run {} [.reclaim oneLocation, .handleDelRes pastDeadline]

theorem lateRun_isSome : lateRun.isSome = true := by decide +kernel

theorem lateRun_reach : (machine {}).Reach anyAction (lateRun.get lateRun_isSome) := by
  have hinit : (machine {}).init {} := rfl
  exact reach_of_run hinit (Option.some_get lateRun_isSome).symm

theorem totals_balanced_late : (lateRun.get lateRun_isSome).deleteHandlers.length = 1 ∧
      (lateRun.get lateRun_isSome).totals.pendingDeleteBytes = 5 ∧
      Balanced {} (lateRun.get lateRun_isSome) :=
  ⟨by decide +kernel, by decide +kernel, (totals_balanced {} lateRun_reach).1.1⟩

/-- The handler is live, its five bytes and its key are in no credit. -/
theorem credit_not_of_all_live_handlers : ∃ s : Reclaimer, (machine {}).Reach anyAction s ∧
      s.totals.creditedDeleteBytes "g" .hf3fs ≠ total (·.bytesAt "g" .hf3fs) s.deleteHandlers ∧
      s.totals.predictedDeletedKeys "g" ≠ total (·.predictedDeletedKeys) s.deleteHandlers :=
  ⟨_, lateRun_reach, by decide +kernel, by decide +kernel⟩

end TairKvCache.Reclaimer
