import TairKvCache.Reclaimer.Model

/-!
# The totals are sums over the live handlers

`Accounts` says what every total is in terms of the handlers: the pending set
is the disjoint union of the handlers' locations, the quota and the pending
bytes are sums over all of them, and what is credited is a sum over those
whose credit is still enabled. It also carries the limits, since it is the
limits that keep the `uint64_t` sums from saturating.

Adding a handler and disabling or releasing one keep `Accounts`, so every
batch and every turn of the polling loop do.
-/

namespace TairKvCache.Reclaimer

open Lib List DeleteHandler

/-! ## Saturating arithmetic inside the range -/

theorem saturatingSub_eq (a b : Nat) : saturatingSub a b = a - b := by
  unfold saturatingSub
  split <;> omega

theorem saturatingAdd_eq {a b : Nat} (h : a + b ≤ maxU64) : saturatingAdd a b = a + b := by
  unfold saturatingAdd
  split <;> omega

theorem foldl_saturatingSub (l : List Nat) (c : Nat) : l.foldl saturatingSub c = c - l.sum := by
  induction l generalizing c with
  | nil => rfl
  | cons a l ih => rw [foldl_cons, ih, saturatingSub_eq, sum_cons, Nat.sub_sub]

theorem foldl_saturatingAdd {l : List Nat} {c : Nat} (h : c + l.sum ≤ maxU64) :
    l.foldl saturatingAdd c = c + l.sum := by
  induction l generalizing c with
  | nil => rfl
  | cons a l ih =>
    rw [sum_cons] at h
    rw [foldl_cons, saturatingAdd_eq (by omega), ih (by omega), sum_cons, Nat.add_assoc]

theorem not_exceedsLimit {limit current extra : Nat}
    (h : exceedsLimit limit current extra = false) : current + extra ≤ limit := by
  simp only [exceedsLimit, Bool.or_eq_false_iff, decide_eq_false_iff_not] at h
  omega

/-! ## What one handler contributes -/

namespace DeleteHandler

variable (h : DeleteHandler) (g : String) (t : DataStorageType)

def countAt : Nat := if g = h.insGr then h.locationCountsByType t else 0

def bytesAt : Nat := if g = h.insGr then h.bytesByType t else 0

def totalBytes : Nat := (storageTypes.map h.bytesByType).sum

/-- The bytes credited to the group for deletes that are under way. -/
def creditAt : Nat :=
  if h.creditEnabled = true ∧ g = h.insGr ∧ isCreditedType t = true then h.bytesByType t else 0

def predictedAt : Nat :=
  if h.creditEnabled = true ∧ g = h.insGr then h.predictedDeletedKeys else 0

end DeleteHandler

def total (f : DeleteHandler → Nat) (hs : List DeleteHandler) : Nat := (hs.map f).sum

@[simp] theorem total_cons (f : DeleteHandler → Nat) (h : DeleteHandler) (hs : List DeleteHandler) :
    total f (h :: hs) = f h + total f hs := by
  simp [total]

theorem total_perm {f : DeleteHandler → Nat} {hs hs' : List DeleteHandler} (h : hs.Perm hs') :
    total f hs = total f hs' := (h.map f).sum_eq

theorem le_total {f : DeleteHandler → Nat} {h : DeleteHandler} {hs : List DeleteHandler}
    (hm : h ∈ hs) : f h ≤ total f hs :=
  le_sum_of_mem (mem_map_of_mem hm)

/-- A handler is weighed by no more than another weight of it, so are all. -/
theorem total_mono {f f' : DeleteHandler → Nat} {hs : List DeleteHandler}
    (h : ∀ d ∈ hs, f d ≤ f' d) : total f hs ≤ total f' hs := by
  induction hs with
  | nil => exact le_rfl
  | cons d hs ih =>
    rw [total_cons, total_cons]
    exact Nat.add_le_add (h d mem_cons_self) (ih fun e he => h e (mem_cons_of_mem _ he))

/-! ## The accounts -/

structure Accounts (cfg : AsyncDeleteConfig) (T : Totals) (hs : List DeleteHandler) : Prop where
  pending : T.pendingLocations = (heldLocations hs).toFinset
  nodup : (heldLocations hs).Nodup
  size : (heldLocations hs).length ≤ maxU64
  quotaCount : ∀ g t, (T.pendingQuota g t).locationCount = total (·.countAt g t) hs
  quotaBytes : ∀ g t, (T.pendingQuota g t).bytes = total (·.bytesAt g t) hs
  handlerCount : T.pendingDeleteHandlerCount = hs.length
  deleteBytes : T.pendingDeleteBytes = total (·.totalBytes) hs
  credited : ∀ g t, T.creditedDeleteBytes g t = total (·.creditAt g t) hs
  predicted : ∀ g, T.predictedDeletedKeys g = total (·.predictedAt g) hs
  countLimit : ∀ g t, total (·.countAt g t) hs ≤ cfg.pendingLocationLimitPerGroupType
  bytesLimit : ∀ g t, total (·.bytesAt g t) hs ≤ cfg.pendingBytesLimitPerGroupType
  handlerLimit : hs.length ≤ cfg.pendingDeleteHandlerLimit
  processLimit : total (·.totalBytes) hs ≤ cfg.pendingBytesLimit
  predictedLe : ∀ h ∈ hs, h.predictedDeletedKeys ≤ h.pendingLocations.length

variable {cfg : AsyncDeleteConfig} {T : Totals} {hs hs' : List DeleteHandler} {h : DeleteHandler}

theorem heldLocations_cons (h : DeleteHandler) (hs : List DeleteHandler) :
    heldLocations (h :: hs) = h.pendingLocations ++ heldLocations hs := by
  simp [heldLocations]

theorem Accounts.init (cfg : AsyncDeleteConfig) : Accounts cfg {} [] where
  pending := rfl
  nodup := nodup_nil
  size := Nat.zero_le _
  quotaCount := fun _ _ => rfl
  quotaBytes := fun _ _ => rfl
  handlerCount := rfl
  deleteBytes := rfl
  credited := fun _ _ => rfl
  predicted := fun _ => rfl
  countLimit := fun _ _ => Nat.zero_le _
  bytesLimit := fun _ _ => Nat.zero_le _
  handlerLimit := Nat.zero_le _
  processLimit := Nat.zero_le _
  predictedLe := fun _ hm => absurd hm not_mem_nil

theorem Accounts.perm (hp : hs.Perm hs') (ha : Accounts cfg T hs) : Accounts cfg T hs' := by
  have hheld : (heldLocations hs).Perm (heldLocations hs') := hp.flatMap_right _
  refine ⟨?_, hheld.nodup_iff.mp ha.nodup, hheld.length_eq ▸ ha.size, fun g t => ?_, fun g t => ?_,
    ?_, ?_, fun g t => ?_, fun g => ?_, fun g t => ?_, fun g t => ?_, ?_, ?_, fun h hm => ?_⟩
  · rw [ha.pending]
    exact toFinset_eq_of_perm _ _ hheld
  · rw [ha.quotaCount, total_perm hp]
  · rw [ha.quotaBytes, total_perm hp]
  · rw [ha.handlerCount, hp.length_eq]
  · rw [ha.deleteBytes, total_perm hp]
  · rw [ha.credited, total_perm hp]
  · rw [ha.predicted, total_perm hp]
  · exact total_perm hp ▸ ha.countLimit g t
  · exact total_perm hp ▸ ha.bytesLimit g t
  · exact hp.length_eq ▸ ha.handlerLimit
  · exact total_perm hp ▸ ha.processLimit
  · exact ha.predictedLe h (hp.mem_iff.mpr hm)

/-! ## Ending the credit of a handler -/

theorem isCreditedType_false_credit (g : String) {t : DataStorageType}
    (ht : isCreditedType t = false) : h.creditAt g t = 0 := by
  simp [creditAt, ht]

theorem total_creditAt_uncredited (g : String) {t : DataStorageType}
    (ht : isCreditedType t = false) (hs : List DeleteHandler) : total (·.creditAt g t) hs = 0 := by
  induction hs with
  | nil => rfl
  | cons d hs ih => rw [total_cons, isCreditedType_false_credit g ht, ih]

theorem disableCredit_credited (ha : Accounts cfg T (h :: hs)) (g : String) (t : DataStorageType) :
    (T.disableCredit h).creditedDeleteBytes g t = total (·.creditAt g t) hs := by
  have hc := ha.credited g t
  rw [total_cons] at hc
  unfold Totals.disableCredit
  split
  next hoff =>
    rw [hc, creditAt, hoff]
    simp
  next hon =>
    have hon : h.creditEnabled = true := by simpa using hon
    dsimp only
    by_cases hg : g = h.insGr
    · rw [if_pos hg, saturatingSub_eq, hc]
      cases ht : isCreditedType t with
      | true =>
        simp only [creditAt, hon, hg, ht, and_self, if_true]
        omega
      | false =>
        -- nothing was added for this type, and nothing can be taken off
        rw [isCreditedType_false_credit g ht, total_creditAt_uncredited g ht]
        omega
    · rw [if_neg hg, hc]
      simp [creditAt, hg]

theorem disableCredit_predicted (ha : Accounts cfg T (h :: hs)) (g : String) :
    (T.disableCredit h).predictedDeletedKeys g = total (·.predictedAt g) hs := by
  have hp := ha.predicted g
  rw [total_cons] at hp
  unfold Totals.disableCredit
  split
  next hoff =>
    rw [hp, predictedAt, hoff]
    simp
  next hon =>
    have hon : h.creditEnabled = true := by simpa using hon
    dsimp only
    by_cases hg : g = h.insGr
    · rw [if_pos hg, saturatingSub_eq, hp]
      simp only [predictedAt, hon, hg, and_self, if_true]
      omega
    · rw [if_neg hg, hp]
      simp [predictedAt, hg]

theorem disableCredit_frame (T : Totals) (h : DeleteHandler) : ∃ credited predicted,
    T.disableCredit h =
      { T with creditedDeleteBytes := credited, predictedDeletedKeys := predicted } := by
  unfold Totals.disableCredit
  split <;> exact ⟨_, _, rfl⟩

/-- `h'` is the handler `h` without its credit. -/
structure Uncredited (h h' : DeleteHandler) : Prop where
  insGr : h'.insGr = h.insGr
  pendingLocations : h'.pendingLocations = h.pendingLocations
  bytesByType : h'.bytesByType = h.bytesByType
  locationCountsByType : h'.locationCountsByType = h.locationCountsByType
  predictedDeletedKeys : h'.predictedDeletedKeys = h.predictedDeletedKeys
  creditEnabled : h'.creditEnabled = false

theorem Accounts.disable {h' : DeleteHandler} (hu : Uncredited h h')
    (ha : Accounts cfg T (h :: hs)) : Accounts cfg (T.disableCredit h) (h' :: hs) := by
  have hheld : heldLocations (h' :: hs) = heldLocations (h :: hs) := by
    rw [heldLocations_cons, heldLocations_cons, hu.pendingLocations]
  have hcount : ∀ g t, total (·.countAt g t) (h' :: hs) = total (·.countAt g t) (h :: hs) := by
    intro g t
    simp [countAt, hu.insGr, hu.locationCountsByType]
  have hbytes : ∀ g t, total (·.bytesAt g t) (h' :: hs) = total (·.bytesAt g t) (h :: hs) := by
    intro g t
    simp [bytesAt, hu.insGr, hu.bytesByType]
  have htotal : total (·.totalBytes) (h' :: hs) = total (·.totalBytes) (h :: hs) := by
    simp [totalBytes, hu.bytesByType]
  have hcredited := disableCredit_credited ha
  have hpredicted := disableCredit_predicted ha
  obtain ⟨credited, predicted, heq⟩ := disableCredit_frame T h
  rw [heq] at hcredited hpredicted ⊢
  refine ⟨?_, ?_, ?_, fun g t => ?_, fun g t => ?_, ha.handlerCount, ?_, fun g t => ?_,
    fun g => ?_, fun g t => ?_, fun g t => ?_, ha.handlerLimit, ?_, fun d hd => ?_⟩
  · rw [hheld]; exact ha.pending
  · rw [hheld]; exact ha.nodup
  · rw [hheld]; exact ha.size
  · rw [hcount]; exact ha.quotaCount g t
  · rw [hbytes]; exact ha.quotaBytes g t
  · rw [htotal]; exact ha.deleteBytes
  · rw [hcredited, total_cons, creditAt, hu.creditEnabled]
    simp
  · rw [hpredicted, total_cons, predictedAt, hu.creditEnabled]
    simp
  · rw [hcount]; exact ha.countLimit g t
  · rw [hbytes]; exact ha.bytesLimit g t
  · rw [htotal]; exact ha.processLimit
  · rcases mem_cons.mp hd with rfl | hd
    · rw [hu.predictedDeletedKeys, hu.pendingLocations]
      exact ha.predictedLe h mem_cons_self
    · exact ha.predictedLe d (mem_cons_of_mem _ hd)

/-! ## Releasing a handler -/

/-- The entries skipped for being zero make no difference. -/
theorem dropPending_quota (T : Totals) (h : DeleteHandler) (g : String) (t : DataStorageType) :
    (T.dropPending h).pendingQuota g t =
      { locationCount := (T.pendingQuota g t).locationCount - h.countAt g t
        bytes := (T.pendingQuota g t).bytes - h.bytesAt g t } := by
  simp only [Totals.dropPending, countAt, bytesAt, saturatingSub_eq]
  by_cases hg : g = h.insGr
  · by_cases hz : h.locationCountsByType t = 0 ∧ h.bytesByType t = 0
    · simp [hg, hz]
    · simp [hg, hz]
  · simp [hg]

/-- An uncredited handler goes, and with it everything it had in the totals. -/
theorem Accounts.drop (hoff : h.creditEnabled = false) (ha : Accounts cfg T (h :: hs)) :
    Accounts cfg (T.dropPending h) hs := by
  have hheld := heldLocations_cons h hs
  have hnd : (h.pendingLocations ++ heldLocations hs).Nodup := hheld ▸ ha.nodup
  have hsize := ha.size
  rw [hheld, length_append] at hsize
  refine ⟨?_, (nodup_append.mp hnd).2.1, by omega, fun g t => ?_, fun g t => ?_, ?_, ?_,
    fun g t => ?_, fun g => ?_, fun g t => ?_, fun g t => ?_, ?_, ?_, fun d hd => ?_⟩
  · rw [Totals.dropPending]
    dsimp only
    rw [ha.pending, hheld]
    exact release_owned hnd
  · rw [dropPending_quota, ha.quotaCount, total_cons]
    exact Nat.add_sub_cancel_left ..
  · rw [dropPending_quota, ha.quotaBytes, total_cons]
    exact Nat.add_sub_cancel_left ..
  · rw [Totals.dropPending, saturatingSub_eq, ha.handlerCount]
    rfl
  · rw [Totals.dropPending, foldl_saturatingSub, ha.deleteBytes, total_cons]
    exact Nat.add_sub_cancel_left ..
  · simpa [Totals.dropPending, creditAt, hoff] using ha.credited g t
  · simpa [Totals.dropPending, predictedAt, hoff] using ha.predicted g
  · exact le_trans (by rw [total_cons]; omega) (ha.countLimit g t)
  · exact le_trans (by rw [total_cons]; omega) (ha.bytesLimit g t)
  · exact le_trans (Nat.le_succ _) ha.handlerLimit
  · exact le_trans (by rw [total_cons]; omega) ha.processLimit
  · exact ha.predictedLe d (mem_cons_of_mem _ hd)

theorem Accounts.release (ha : Accounts cfg T (h :: hs)) :
    Accounts cfg (T.releaseDeleteHandlerState h) hs := by
  have hu : Uncredited h h.disableCredit := ⟨rfl, rfl, rfl, rfl, rfl, rfl⟩
  exact Accounts.drop (h := h.disableCredit) rfl (ha.disable hu)

/-! ## Adding a handler -/

structure Fits (cfg : AsyncDeleteConfig) (T : Totals) (hs : List DeleteHandler)
    (h : DeleteHandler) : Prop where
  nodup : h.pendingLocations.Nodup
  fresh : ∀ k ∈ h.pendingLocations, k ∉ T.pendingLocations
  size : (heldLocations (h :: hs)).length ≤ maxU64
  enabled : h.creditEnabled = true
  count : ∀ t, (T.pendingQuota h.insGr t).locationCount + h.locationCountsByType t
    ≤ cfg.pendingLocationLimitPerGroupType
  bytes : ∀ t, (T.pendingQuota h.insGr t).bytes + h.bytesByType t
    ≤ cfg.pendingBytesLimitPerGroupType
  handlers : T.pendingDeleteHandlerCount < cfg.pendingDeleteHandlerLimit
  process : T.pendingDeleteBytes + h.totalBytes ≤ cfg.pendingBytesLimit
  predicted : h.predictedDeletedKeys ≤ h.pendingLocations.length

theorem creditAt_le_bytesAt (h : DeleteHandler) (g : String) (t : DataStorageType) :
    h.creditAt g t ≤ h.bytesAt g t := by
  unfold creditAt bytesAt
  by_cases hg : g = h.insGr
  · rw [if_pos hg]
    split <;> omega
  · simp [hg]

theorem predictedAt_le (h : DeleteHandler) (g : String) :
    h.predictedAt g ≤ h.predictedDeletedKeys := by
  unfold predictedAt
  split <;> omega

theorem length_heldLocations (hs : List DeleteHandler) :
    (heldLocations hs).length = total (·.pendingLocations.length) hs := by
  rw [heldLocations, length_flatMap, total]

/-- The predictions of all handlers stay below the number of pending locations. -/
theorem total_predictedAt_le (g : String)
    (h : ∀ d ∈ hs, d.predictedDeletedKeys ≤ d.pendingLocations.length) :
    total (·.predictedAt g) hs ≤ (heldLocations hs).length := by
  rw [length_heldLocations]
  exact total_mono fun d hd => le_trans (predictedAt_le d g) (h d hd)

theorem add_quota (hf : Fits cfg T hs h) (g : String) (t : DataStorageType) :
    (T.addDeleteHandlerState h).pendingQuota g t =
      { locationCount := (T.pendingQuota g t).locationCount + h.countAt g t
        bytes := (T.pendingQuota g t).bytes + h.bytesAt g t } := by
  have hcount := hf.count t
  have hbytes := hf.bytes t
  have hlc := cfg.locationLimit_le
  have hlb := cfg.typeBytesLimit_le
  simp only [Totals.addDeleteHandlerState, countAt, bytesAt]
  by_cases hg : g = h.insGr
  · subst hg
    by_cases hz : h.locationCountsByType t = 0 ∧ h.bytesByType t = 0
    · simp [hz]
    · simp only [hz, not_false_eq_true, and_self, if_true]
      rw [saturatingAdd_eq (by omega), saturatingAdd_eq (by omega)]
  · simp [hg]

theorem add_credited (ha : Accounts cfg T hs) (hf : Fits cfg T hs h) (g : String)
    (t : DataStorageType) : (T.addDeleteHandlerState h).creditedDeleteBytes g t
      = T.creditedDeleteBytes g t + h.creditAt g t := by
  simp only [Totals.addDeleteHandlerState, creditAt, hf.enabled, true_and]
  by_cases hg : g = h.insGr ∧ isCreditedType t = true
  · obtain ⟨rfl, ht⟩ := hg
    have hle : T.creditedDeleteBytes h.insGr t ≤ (T.pendingQuota h.insGr t).bytes := by
      rw [ha.credited, ha.quotaBytes]
      exact total_mono fun d _ => creditAt_le_bytesAt d _ t
    have hfit := hf.bytes t
    have hlim := cfg.typeBytesLimit_le
    by_cases hz : h.bytesByType t = 0
    · simp [hz]
    · simp only [ht, hz, ne_eq, not_false_eq_true, and_self, if_true]
      exact saturatingAdd_eq (by omega)
  · rw [if_neg hg, if_neg (by tauto)]
    rfl

theorem add_predicted (ha : Accounts cfg T hs) (hf : Fits cfg T hs h) (g : String) :
    (T.addDeleteHandlerState h).predictedDeletedKeys g
      = T.predictedDeletedKeys g + h.predictedAt g := by
  simp only [Totals.addDeleteHandlerState, predictedAt, hf.enabled, true_and]
  by_cases hg : g = h.insGr
  · have hle : T.predictedDeletedKeys g ≤ (heldLocations hs).length := by
      rw [ha.predicted]
      exact total_predictedAt_le g ha.predictedLe
    have hsize := hf.size
    rw [heldLocations_cons, length_append] at hsize
    have hp := hf.predicted
    by_cases hz : h.predictedDeletedKeys = 0
    · simp [hz]
    · simp only [hg, hz, ne_eq, not_false_eq_true, and_self, if_true]
      rw [hg] at hle
      exact saturatingAdd_eq (by omega)
  · simp [hg]

theorem Accounts.add (ha : Accounts cfg T hs) (hf : Fits cfg T hs h) :
    Accounts cfg (T.addDeleteHandlerState h) (h :: hs) := by
  have hprocess := hf.process
  have hlimit := cfg.bytesLimit_le
  have hhandlers := hf.handlers
  have hhl := cfg.handlerLimit_le
  have hdisj : (h.pendingLocations ++ heldLocations hs).Nodup := by
    refine nodup_append.mpr ⟨hf.nodup, ha.nodup, ?_⟩
    rintro k hk _ hk' rfl
    exact hf.fresh k hk (by rw [ha.pending]; exact mem_toFinset.mpr hk')
  refine ⟨?_, heldLocations_cons h hs ▸ hdisj, hf.size, fun g t => ?_, fun g t => ?_, ?_, ?_,
    fun g t => ?_, fun g => ?_, fun g t => ?_, fun g t => ?_, ?_, ?_, fun d hd => ?_⟩
  · rw [Totals.addDeleteHandlerState]
    dsimp only
    rw [foldl_insert, ha.pending, heldLocations_cons, toFinset_append, Finset.union_comm]
  · rw [add_quota hf, total_cons, ← ha.quotaCount]
    exact Nat.add_comm _ _
  · rw [add_quota hf, total_cons, ← ha.quotaBytes]
    exact Nat.add_comm _ _
  · rw [Totals.addDeleteHandlerState]
    dsimp only
    rw [saturatingAdd_eq (by omega), ha.handlerCount, length_cons]
  · rw [Totals.addDeleteHandlerState]
    dsimp only
    rw [foldl_saturatingAdd (le_trans hprocess hlimit), ha.deleteBytes, total_cons, Nat.add_comm]
    rfl
  · rw [add_credited ha hf, total_cons, ← ha.credited, Nat.add_comm]
  · rw [add_predicted ha hf, total_cons, ← ha.predicted, Nat.add_comm]
  · rw [total_cons, countAt]
    have hlim := ha.countLimit g t
    split
    next hg =>
      have hfit := hf.count t
      rw [← hg, ha.quotaCount] at hfit
      omega
    next => omega
  · rw [total_cons, bytesAt]
    have hlim := ha.bytesLimit g t
    split
    next hg =>
      have hfit := hf.bytes t
      rw [← hg, ha.quotaBytes] at hfit
      omega
    next => omega
  · rw [length_cons, ← ha.handlerCount]
    omega
  · rw [total_cons, ← ha.deleteBytes]
    omega
  · rcases mem_cons.mp hd with rfl | hd
    · exact hf.predicted
    · exact ha.predictedLe d hd

end TairKvCache.Reclaimer
