import TairKvCache.EventReport.Lifecycle

/-!
# The delta gate

`BeginDeltaMutation` and `EndDeltaMutation` count the active deltas of a
reporter, `BeginSnapshot` closes the gate and waits for the count to drain.
The count belongs to the snapshot state, which lives as long as the node: a
REGISTER of a present node, or the recovery of an unavailable one, opens a
new generation and keeps the state. An unregistration throws it away, and the
deltas it had counted end later, against whatever state is there then.

The token tells them apart. A delta carries the token that was committed
when it was admitted, the token changes only when nothing is active, and a
state that is created later gets a fresh one. So the deltas of the present
life are exactly those that carry the committed token (`Gate.current`), and
`EndDeltaMutation`, which compares tokens, counts down exactly for them.
-/

namespace TairKvCache.EventReport

open Lib List Option Machine

variable {g : Nat} {minInterval : Int} {key : ReporterSnapshotKey} {named accepting : Bool}
    {nowMs : Int} {s' s : System} {token : String}

namespace Reporter

def committed (r : Reporter) : String := (r.snapshot.getD {}).committed

def inFlight (r : Reporter) : String := (r.snapshot.getD {}).inFlight

def active (r : Reporter) : Nat := (r.snapshot.getD {}).activeDeltaMutations

/-- Generation `g` belongs to the present life of the node. -/
def alive (r : Reporter) (era : Nat → Nat) (g : Nat) : Bool :=
  r.node.isSome && era g = era r.currentGeneration

theorem alive_iff {r : Reporter} {era : Nat → Nat} :
    r.alive era g = true ↔ r.node.isSome = true ∧ era g = era r.currentGeneration := by
  simp [alive]

theorem alive_congr {r r' : Reporter} (hn : r'.node = r.node)
    (hg : r'.currentGeneration = r.currentGeneration) (era : Nat → Nat) :
    r'.alive era = r.alive era := by
  funext g
  simp [alive, hn, hg]

/-! ## Inversion of the gate operations -/

section Inversion

variable {r : Reporter} {accepting named : Bool} {token : String}

/-- The token a delta is admitted with: the committed one, or a new one. -/
def tokenFor (r : Reporter) (token : String) : String :=
  if r.committed = "" then token else r.committed

theorem beginDeltaMutation_state (r : Reporter) (token : String) :
    (if (r.snapshot.getD {}).committed = "" then { r.snapshot.getD {} with committed := token }
      else r.snapshot.getD {}) = { r.snapshot.getD {} with committed := r.tokenFor token } := by
  unfold tokenFor committed
  split <;> rfl

theorem beginDeltaMutation_ok (h : (r.beginDeltaMutation accepting named token).1 = .ok) :
    accepting = true ∧ r.inFlight = "" ∧ (r.committed = "" → r.node.isSome = true) ∧
      r.beginDeltaMutation accepting named token =
        (.ok,
          { r with
            snapshot := some { r.snapshot.getD {} with
              committed := r.tokenFor token, activeDeltaMutations := r.active + 1 }
            generation := some r.currentGeneration },
          r.tokenFor token, r.currentGeneration) := by
  unfold beginDeltaMutation at h ⊢
  dsimp only at h ⊢
  rw [beginDeltaMutation_state] at h ⊢
  split_ifs at h ⊢ with hnamed hacc hflight hreq hfull
  refine ⟨by simpa using hacc, not_not.mp hflight, fun hc => ?_, rfl⟩
  have hc' : (r.snapshot.getD {}).committed = "" := hc
  simpa [hc', isSome_iff_ne_none] using hreq

theorem beginDeltaMutation_failed (h : (r.beginDeltaMutation accepting named token).1 ≠ .ok) :
    (r.beginDeltaMutation accepting named token).2.1 = r ∨
      r.active = 2 ^ 64 - 1 ∧ (r.beginDeltaMutation accepting named token).2.1 =
        { r with snapshot := some { r.snapshot.getD {} with committed := r.tokenFor token } } := by
  refine Or.resolve_left (?_ : _ = ErrorCode.ok ∨ _) h
  unfold beginDeltaMutation
  dsimp only
  rw [beginDeltaMutation_state]
  split_ifs with hnamed hacc hflight hreq hfull
  iterate 4 · exact .inr (.inl rfl)
  · exact .inr (.inr ⟨hfull, rfl⟩)
  · exact .inl rfl

theorem endDeltaMutation_eq {version : String} (hv : version ≠ "") : r.endDeltaMutation version =
      if r.committed = version ∧ r.active ≠ 0 then
        { r with
          snapshot := some { r.snapshot.getD {} with activeDeltaMutations := r.active - 1 } }
      else r := by
  unfold endDeltaMutation committed active
  cases hs : r.snapshot with
  | none => simp
  | some st =>
    by_cases hc : st.committed = version
    · by_cases hz : st.activeDeltaMutations = 0
      · simp [hv, hc, hz]
      · simp [hv, hc, hz]
    · simp [hv, hc]

theorem beginSnapshot_ok (hgood : r.Good)
    (h : (r.beginSnapshot accepting named nowMs minInterval token).1 = .ok) :
    r.node.isSome = true ∧ r.inFlight = "" ∧
      (r.beginSnapshot accepting named nowMs minInterval token).2.2 = r.currentGeneration ∧
      (r.beginSnapshot accepting named nowMs minInterval token).2.1 =
        { r.withFence with
          snapshot := some { r.snapshot.getD {} with
            attemptEpoch := (r.snapshot.getD {}).attemptEpoch + 1, inFlight := token } } := by
  unfold beginSnapshot at h ⊢
  dsimp only at h ⊢
  split_ifs at h ⊢ with hnamed hacc hreg hflight hrate
  simp only [withFence_node, Bool.or_eq_true, not_or, Bool.not_eq_true,
    isNone_eq_false_iff] at hreg
  exact ⟨hreg.1, not_not.mp hflight, (hgood.withFence.fence _ rfl).1, rfl⟩

/-- A rejected snapshot at most creates empty entries. -/
theorem beginSnapshot_failed
    (h : (r.beginSnapshot accepting named nowMs minInterval token).1 ≠ .ok) :
    (r.beginSnapshot accepting named nowMs minInterval token).2.1 = r ∨
      (r.beginSnapshot accepting named nowMs minInterval token).2.1 = r.withFence ∨
      (r.beginSnapshot accepting named nowMs minInterval token).2.1 =
        { r.withFence with snapshot := some (r.snapshot.getD {}) } := by
  refine Or.resolve_left (?_ : _ = ErrorCode.ok ∨ _) h
  unfold beginSnapshot
  dsimp only
  split_ifs
  · exact .inr (.inl rfl)
  iterate 2 · exact .inr (.inr (.inl rfl))
  iterate 2 · exact .inr (.inr (.inr rfl))
  · exact .inl rfl

theorem dropCandidate_eq {candidate : String} (hv : candidate ≠ "") : r.dropCandidate candidate =
      if r.inFlight = candidate then
        { r with snapshot := some { r.snapshot.getD {} with inFlight := "" } }
      else r := by
  unfold dropCandidate inFlight
  cases hs : r.snapshot with
  | none => simp [hv.symm]
  | some st => simp

theorem finishBeginSnapshot_ok {candidate : String}
    (h : (r.finishBeginSnapshot accepting candidate).1 = .ok) :
    accepting = true ∧ (r.finishBeginSnapshot accepting candidate).2 = r ∧
      r.inFlight = candidate ∧ r.active = 0 := by
  unfold finishBeginSnapshot drained at h ⊢
  cases accepting with
  | false => simp at h
  | true =>
    cases hs : r.snapshot with
    | none => simp [hs] at h
    | some st =>
      simp only [hs, Bool.not_true, Bool.false_eq_true, if_false, Bool.false_or] at h ⊢
      split at h
      · cases h
      · rename_i hdrained
        split at h
        · cases h
        · rename_i hflight
          rw [if_neg hdrained, if_neg hflight]
          have hflight' : st.inFlight = candidate := not_not.mp hflight
          refine ⟨trivial, rfl, by simp [inFlight, hs, hflight'], ?_⟩
          simpa [active, hs, hflight'] using hdrained

theorem finishBeginSnapshot_cases (r : Reporter) (accepting : Bool) (candidate : String) :
    (r.finishBeginSnapshot accepting candidate).2 = r ∨
      (r.finishBeginSnapshot accepting candidate).2 = r.dropCandidate candidate := by
  unfold finishBeginSnapshot
  split
  · exact .inr rfl
  split
  · exact .inr rfl
  split
  · exact .inl rfl
  split
  · exact .inl rfl
  · exact .inl rfl

theorem commitSnapshotVersion_cases (r : Reporter) (version : String) (nowMs : Int) :
    r.commitSnapshotVersion version nowMs = (false, r) ∨
      version ≠ "" ∧ r.inFlight = version ∧ r.commitSnapshotVersion version nowMs =
        (true,
          { r with
            snapshot := some { r.snapshot.getD {} with
              committed := version, inFlight := "", lastCommitMs := nowMs
              strictQueryVisibility := true } }) := by
  unfold commitSnapshotVersion
  split
  · exact .inl rfl
  · rename_i hvalid
    cases hs : r.snapshot with
    | none => exact .inl rfl
    | some st =>
      dsimp only
      split
      · exact .inl rfl
      · rename_i hflight
        refine .inr ⟨?_, by simpa [inFlight, hs] using hflight, rfl⟩
        rintro rfl
        exact hvalid rfl

theorem commitSnapshotVersionIfGeneration_cases (r : Reporter) (accepting : Bool)
    (version : String) (g : Nat) (nowMs : Int) :
    (r.commitSnapshotVersionIfGeneration accepting version g nowMs).1 ≠ .ok ∧
        (r.commitSnapshotVersionIfGeneration accepting version g nowMs).2 = r ∨
      r.registeredAt g = true ∧
        (r.commitSnapshotVersionIfGeneration accepting version g nowMs).2
          = (r.commitSnapshotVersion version nowMs).2 ∧
        ((r.commitSnapshotVersionIfGeneration accepting version g nowMs).1 = .ok ↔
          (r.commitSnapshotVersion version nowMs).1 = true) := by
  unfold commitSnapshotVersionIfGeneration
  split
  · exact .inl ⟨by simp, rfl⟩
  split
  · exact .inl ⟨by simp, rfl⟩
  split
  · exact .inl ⟨by simp, rfl⟩
  · rename_i hreg
    refine .inr ⟨by simpa using hreg, rfl, ?_⟩
    cases hc : (r.commitSnapshotVersion version nowMs).1 <;> simp [hc]

theorem abortSnapshotVersion_cases (r : Reporter) (named : Bool) (version : String) :
    r.abortSnapshotVersion named version = r ∨
      r.inFlight = version ∧ r.abortSnapshotVersion named version =
        { r with
          snapshot := some { r.snapshot.getD {} with
            inFlight := "", strictQueryVisibility := false } } := by
  unfold abortSnapshotVersion
  split
  · exact .inl rfl
  cases hs : r.snapshot with
  | none => exact .inl rfl
  | some st =>
    dsimp only
    split
    · rename_i hflight
      exact .inr ⟨by simpa [inFlight, hs] using hflight, rfl⟩
    · exact .inl rfl

theorem acquireLifecycleMutationLease_ok (h : r.acquireLifecycleMutationLease accepting g = .ok) :
    accepting = true ∧ r.registeredAt g = true := by
  unfold acquireLifecycleMutationLease at h
  split at h
  · cases h
  split at h
  · cases h
  rename_i hacc
  split at h
  · cases h
  · rename_i hreg
    exact ⟨by simpa using hacc, by simpa using hreg⟩

end Inversion

end Reporter

open Reporter

/-- One reporter, its admissions `ds` and its snapshot attempts `as`. -/
structure Gate (r : Reporter) (era : Nat → Nat) (ds : List Delta) (as : List Attempt)
    (issued : List String) : Prop where
  era_le : ∀ g, era g ≤ g
  delta_le : ∀ d ∈ ds, d.admittedAt ≤ r.currentGeneration
  attempt_le : ∀ a ∈ as, a.generation ≤ r.currentGeneration
  delta_token : ∀ d ∈ ds, d.version ≠ "" ∧ d.version ∈ issued
  attempt_token : ∀ a ∈ as, a.version ≠ "" ∧ a.version ∈ issued
  versions : (as.map (·.version)).Nodup
  committed_issued : r.committed = "" ∨ r.committed ∈ issued
  current : ∀ d ∈ ds, r.alive era d.admittedAt = true ↔ r.committed = d.version
  unshared : ∀ d ∈ ds, r.inFlight ≠ d.version
  flight : ∀ a ∈ as, r.inFlight = a.version → r.alive era a.generation = true
  gate : ∀ a ∈ as, a.admitted = true → r.alive era a.generation = true →
    r.inFlight = a.version ∧ r.active = 0
  count : r.active = ds.countP fun d => r.alive era d.admittedAt
  apart : ∀ a ∈ as, a.admitted = true → ∀ d ∈ ds, era d.admittedAt ≠ era a.generation

namespace Gate

variable {r r' : Reporter} {era : Nat → Nat} {ds ds' : List Delta} {as as' : List Attempt}
  {issued issued' : List String} {d : Delta} {a : Attempt}

/-! ## Rules that do not look at the operation -/

/-- The same tokens and the same lives, for some of the admissions and attempts. -/
theorem transfer {era' : Nat → Nat} (h : Gate r era ds as issued) (hera : ∀ g, era' g ≤ g)
    (hle : r.currentGeneration ≤ r'.currentGeneration)
    (hsame : ∀ g ≤ r.currentGeneration, era' g = era g ∧ r'.alive era' g = r.alive era g)
    (hc : r'.committed = r.committed) (hf : r'.inFlight = r.inFlight)
    (hz : r.active = 0 → r'.active = 0)
    (hcount : r'.active = ds'.countP fun d => r.alive era d.admittedAt)
    (hd : ds' ⊆ ds) (ha : as' ⊆ as) (hv : (as'.map (·.version)).Nodup) :
    Gate r' era' ds' as' issued := by
  have hdelta := fun d (hm : d ∈ ds') => hsame _ (h.delta_le d (hd hm))
  have hattempt := fun a (hm : a ∈ as') => hsame _ (h.attempt_le a (ha hm))
  refine ⟨hera, fun d hm => (h.delta_le d (hd hm)).trans hle,
    fun a hm => (h.attempt_le a (ha hm)).trans hle, fun d hm => h.delta_token d (hd hm),
    fun a hm => h.attempt_token a (ha hm), hv, hc ▸ h.committed_issued, fun d hm => ?_,
    fun d hm => hf ▸ h.unshared d (hd hm), fun a hm => ?_, fun a hm hadm hal => ?_, ?_,
    fun a hm hadm d hm' => ?_⟩
  · rw [(hdelta d hm).2, hc]
    exact h.current d (hd hm)
  · rw [(hattempt a hm).2, hf]
    exact h.flight a (ha hm)
  · rw [(hattempt a hm).2] at hal
    exact (h.gate a (ha hm) hadm hal).imp hf.trans hz
  · rw [hcount]
    exact countP_congr fun d hm => by rw [(hdelta d hm).2]
  · rw [(hdelta d hm').1, (hattempt a hm).1]
    exact h.apart a (ha hm) hadm d (hd hm')

theorem perm (h : Gate r era ds as issued) (hd : ds.Perm ds') (ha : as.Perm as') :
    Gate r era ds' as' issued :=
  h.transfer h.era_le le_rfl (fun _ _ => ⟨rfl, rfl⟩) rfl rfl id (h.count.trans (hd.countP_eq _))
    hd.symm.subset ha.symm.subset ((ha.map _).nodup_iff.mp h.versions)

theorem issue (h : Gate r era ds as issued) (hi : issued ⊆ issued') : Gate r era ds as issued' :=
  { h with
    delta_token := fun d hd => ⟨(h.delta_token d hd).1, hi (h.delta_token d hd).2⟩
    attempt_token := fun a ha => ⟨(h.attempt_token a ha).1, hi (h.attempt_token a ha).2⟩
    committed_issued := h.committed_issued.imp id (fun hc => hi hc) }

theorem drop (h : Gate r era ds (a :: as) issued) : Gate r era ds as issued :=
  h.transfer h.era_le le_rfl (fun _ _ => ⟨rfl, rfl⟩) rfl rfl id h.count (List.Subset.refl _)
    (subset_cons_self _ _) (nodup_cons.mp h.versions).2

theorem replace {d' : Delta} (h : Gate r era (d :: ds) as issued) (hv : d'.version = d.version)
    (ha : d'.admittedAt = d.admittedAt) : Gate r era (d' :: ds) as issued :=
  { h with
    delta_le := by simpa [ha] using h.delta_le
    delta_token := by simpa [hv] using h.delta_token
    current := by simpa [hv, ha] using h.current
    unshared := by simpa [hv] using h.unshared
    count := by simpa [countP_cons, ha] using h.count
    apart := by simpa [ha] using h.apart }

theorem congr (h : Gate r era ds as issued) (hn : r'.node = r.node)
    (hg : r'.currentGeneration = r.currentGeneration) (hc : r'.committed = r.committed)
    (hf : r'.inFlight = r.inFlight) (ha : r'.active = r.active) : Gate r' era ds as issued :=
  h.transfer h.era_le hg.ge (fun _ _ => ⟨rfl, by rw [alive_congr hn hg]⟩) hc hf ha.trans
    (ha.trans h.count) (List.Subset.refl _) (List.Subset.refl _) h.versions

theorem active_eq_zero (h : Gate r era ds as issued) (hc : r.committed = "") : r.active = 0 := by
  rw [h.count, countP_eq_zero]
  intro d hd halive
  exact (h.delta_token d hd).1 ((h.current d hd).mp halive ▸ hc)

/-- When nothing is active, no admission is of the present life. -/
theorem alive_eq_false (h : Gate r era ds as issued) (hz : r.active = 0) (hd : d ∈ ds) :
    r.alive era d.admittedAt = false := by
  rw [h.count, countP_eq_zero] at hz
  simpa using hz d hd

/-! ## Lifecycle steps -/

/-- The history after a lifecycle step. -/
def nextEra (r r' : Reporter) (era : Nat → Nat) (g : Nat) : Nat :=
  if g = r'.currentGeneration ∧ r.currentGeneration < g then
    if r.node.isSome then era r.currentGeneration else r'.currentGeneration
  else era g

theorem nextEra_of_le (hg : g ≤ r.currentGeneration) : nextEra r r' era g = era g :=
  if_neg fun h => absurd h.2 (Nat.not_lt.mpr hg)

theorem nextEra_le (hera : ∀ g, era g ≤ g) (g : Nat) : nextEra r r' era g ≤ g := by
  unfold nextEra
  split
  · rename_i h
    split
    · exact (hera _).trans (Nat.le_of_lt h.2)
    · exact Nat.le_of_eq h.1.symm
  · exact hera g

theorem alive_nextEra_of_kept (hm : Moves r r') (hn : r.node.isSome = true)
    (hn' : r'.node.isSome = true) (hg : g ≤ r.currentGeneration) :
    r'.alive (nextEra r r' era) g = r.alive era g := by
  have hlast : nextEra r r' era r'.currentGeneration = era r.currentGeneration := by
    rcases Nat.lt_or_eq_of_le hm.le with hlt | heq
    · simp [nextEra, hlt, hn]
    · rw [← heq, nextEra_of_le (le_rfl)]
  simp [alive, hn, hn', nextEra_of_le hg, hlast]

theorem alive_nextEra_of_ended (hm : Moves r r') (hera : ∀ g, era g ≤ g)
    (h : r.node = none ∨ r'.node = none) (hg : g ≤ r.currentGeneration) :
    r'.alive (nextEra r r' era) g = false := by
  by_cases hn' : r'.node = none
  · simp [alive, hn']
  · have hn : r.node = none := h.resolve_right hn'
    have hlt := hm.created hn hn'
    have hlast : nextEra r r' era r'.currentGeneration = r'.currentGeneration := by
      simp [nextEra, hlt, hn]
    have hne : era g ≠ r'.currentGeneration :=
      Nat.ne_of_lt (((hera g).trans hg).trans_lt hlt)
    simp [alive, nextEra_of_le hg, hlast, hne]

theorem moves (h : Gate r era ds as issued) (hgood : r.Good) (hm : Moves r r') :
    Gate r' (nextEra r r' era) ds as issued := by
  by_cases hkept : r.node.isSome = true ∧ r'.node.isSome = true
  · -- the node stays, and with it the snapshot state
    obtain ⟨hn, hn'⟩ := hkept
    have hsnap : r'.snapshot = r.snapshot := by simp [hm.snapshot, hn']
    have ha : r'.active = r.active := by simp [active, hsnap]
    exact h.transfer (nextEra_le h.era_le) hm.le
      (fun g hg => ⟨nextEra_of_le hg, alive_nextEra_of_kept hm hn hn' hg⟩)
      (by simp [committed, hsnap]) (by simp [inFlight, hsnap]) ha.trans (ha.trans h.count)
      (List.Subset.refl _) (List.Subset.refl _) h.versions
  · -- no snapshot state is left, and nothing known before is alive
    have hended : r.node = none ∨ r'.node = none := by
      by_contra hno
      simp only [not_or, ← isSome_iff_ne_none] at hno
      exact hkept hno
    have hsnap : r'.snapshot = none := by
      rcases hended with hn | hn'
      · simp [hm.snapshot, hgood.snapshot hn]
      · simp [hm.snapshot, hn']
    have hdead : ∀ g ≤ r.currentGeneration, r'.alive (nextEra r r' era) g = false :=
      fun g hg => alive_nextEra_of_ended hm h.era_le hended hg
    have hc : r'.committed = "" := by simp [committed, hsnap]
    have hf : r'.inFlight = "" := by simp [inFlight, hsnap]
    have ha : r'.active = 0 := by simp [active, hsnap]
    refine ⟨nextEra_le h.era_le, fun d hd => (h.delta_le d hd).trans hm.le,
      fun a ha => (h.attempt_le a ha).trans hm.le, h.delta_token, h.attempt_token, h.versions,
      .inl hc, fun d hd => ?_, fun d hd => ?_, fun a hma hfl => ?_, fun a hma _ hal => ?_, ?_,
      fun a hma hadm d hd => ?_⟩
    · rw [hdead _ (h.delta_le d hd), hc]
      simp [(h.delta_token d hd).1.symm]
    · rw [hf]
      exact (h.delta_token d hd).1.symm
    · exact absurd (hf ▸ hfl).symm (h.attempt_token a hma).1
    · simp [hdead _ (h.attempt_le a hma)] at hal
    · rw [ha, eq_comm, countP_eq_zero]
      intro d hd
      simp [hdead _ (h.delta_le d hd)]
    · rw [nextEra_of_le (h.delta_le d hd), nextEra_of_le (h.attempt_le a hma)]
      exact h.apart a hma hadm d hd

/-! ## Deltas -/

theorem node_isSome (h : r.Good) (hc : r.committed ≠ "") : r.node.isSome = true := by
  rw [isSome_iff_ne_none]
  intro hn
  simp [committed, h.snapshot hn] at hc

/-- While nothing is in flight no attempt of the present life is admitted. -/
theorem not_admitted (h : Gate r era ds as issued) (hf : r.inFlight = "") (ha : a ∈ as)
    (hadm : a.admitted = true) : r.alive era a.generation = false := by
  by_contra halive
  have hflight := (h.gate a ha hadm (by simpa using halive)).1
  exact (h.attempt_token a ha).1 (hflight ▸ hf)

theorem tokenFor_ne_empty (ht : token ≠ "") : r.tokenFor token ≠ "" := by
  unfold tokenFor
  split
  · exact ht
  · assumption

theorem beginDelta (h : Gate r era ds as issued) (hgood : r.Good) (ht : token ≠ "")
    (hfresh : token ∉ issued) (hok : (r.beginDeltaMutation accepting named token).1 = .ok)
    (hv : d.version = (r.beginDeltaMutation accepting named token).2.2.1)
    (hat : d.admittedAt = (r.beginDeltaMutation accepting named token).2.2.2) :
    Gate (r.beginDeltaMutation accepting named token).2.1 era (d :: ds) as (token :: issued) := by
  obtain ⟨-, hf, hnode, heq⟩ := beginDeltaMutation_ok hok
  rw [heq] at hv hat ⊢
  dsimp only at hv hat ⊢
  have hn : r.node.isSome = true := by
    by_cases hc : r.committed = ""
    · exact hnode hc
    · exact node_isSome hgood hc
  have hnew : r.alive era d.admittedAt = true := by simp [alive, hn, hat]
  have hve : d.version ≠ "" := hv ▸ tokenFor_ne_empty ht
  have hvi : d.version ∈ token :: issued := by
    rw [hv]
    unfold tokenFor
    split
    · exact mem_cons_self
    · rename_i hc
      exact mem_cons_of_mem _ (h.committed_issued.resolve_left hc)
  -- an earlier admission has the same token exactly if it was current before
  have hsame : ∀ x ∈ ds, r.committed = x.version ↔ r.tokenFor token = x.version := by
    intro x hx
    unfold tokenFor
    split
    · rename_i hc
      rw [hc]
      refine iff_of_false (h.delta_token x hx).1.symm fun heq => ?_
      exact hfresh (heq ▸ (h.delta_token x hx).2)
    · exact Iff.rfl
  have hissued := h.issue (subset_cons_self token issued)
  have hnone : ∀ x ∈ as, x.admitted = true → r.alive era x.generation = false :=
    fun x hx hadm => h.not_admitted hf hx hadm
  exact
    { hissued with
      delta_le := forall_mem_cons.mpr ⟨hat.le, h.delta_le⟩
      delta_token := forall_mem_cons.mpr ⟨⟨hve, hvi⟩, hissued.delta_token⟩
      committed_issued := .inr (hv ▸ hvi)
      current := forall_mem_cons.mpr ⟨iff_of_true hnew hv.symm, fun x hx =>
        (h.current x hx).trans (hsame x hx)⟩
      unshared := forall_mem_cons.mpr ⟨fun heq => hve (heq.symm.trans hf), h.unshared⟩
      gate := fun x hx hadm hal => absurd ((hnone x hx hadm).symm.trans hal) (by simp)
      count := by
        show r.active + 1 = (d :: ds).countP fun d => r.alive era d.admittedAt
        simp [hnew, h.count]
      apart := fun x hx hadm => forall_mem_cons.mpr ⟨fun heq => by
        have hno := hnone x hx hadm
        simp only [alive, hn, hat] at hno heq
        simp [heq] at hno, h.apart x hx hadm⟩ }

theorem beginDelta_failed (h : Gate r era ds as issued)
    (hno : (r.beginDeltaMutation accepting named token).1 ≠ .ok) :
    Gate (r.beginDeltaMutation accepting named token).2.1 era ds as issued := by
  rcases beginDeltaMutation_failed hno with heq | ⟨hfull, heq⟩
  · rw [heq]
    exact h
  · have hc : r.committed ≠ "" := fun hc => by simp [h.active_eq_zero hc] at hfull
    rw [heq]
    exact h.congr rfl rfl (if_neg hc) rfl rfl

theorem endDelta (h : Gate r era (d :: ds) as issued) :
    Gate (r.endDeltaMutation d.version) era ds as issued := by
  have hrest : ∀ r', r'.node = r.node → r'.currentGeneration = r.currentGeneration →
      r'.committed = r.committed → r'.inFlight = r.inFlight →
      r'.active = ds.countP (fun d => r.alive era d.admittedAt) →
      (r.active = 0 → r'.active = 0) → Gate r' era ds as issued := by
    intro r' hn hg hc hf hcount hz
    exact h.transfer h.era_le hg.ge (fun _ _ => ⟨rfl, by rw [alive_congr hn hg]⟩) hc hf hz hcount
      (subset_cons_self _ _) (List.Subset.refl _) h.versions
  have hcur := h.current d mem_cons_self
  rw [endDeltaMutation_eq (h.delta_token d mem_cons_self).1]
  by_cases hc : r.committed = d.version
  · have hcount : r.active = ds.countP (fun d => r.alive era d.admittedAt) + 1 := by
      simp [h.count, hcur.mpr hc]
    rw [if_pos ⟨hc, by omega⟩]
    refine hrest _ rfl rfl rfl rfl ?_ fun hz => by omega
    show r.active - 1 = _
    omega
  · have hdead : r.alive era d.admittedAt = false := by simpa [hc] using hcur
    have hcount : r.active = ds.countP (fun d => r.alive era d.admittedAt) := by
      simp [h.count, hdead]
    rw [if_neg fun hboth => hc hboth.1]
    exact hrest r rfl rfl rfl rfl hcount id

/-! ## Snapshots -/

theorem beginSnapshot (h : Gate r era ds as issued) (hgood : r.Good) (ht : token ≠ "")
    (hfresh : token ∉ issued)
    (hok : (r.beginSnapshot accepting named nowMs minInterval token).1 = .ok)
    (hv : a.version = token)
    (hgen : a.generation = (r.beginSnapshot accepting named nowMs minInterval token).2.2)
    (hadm : a.admitted = false) :
    Gate (r.beginSnapshot accepting named nowMs minInterval token).2.1 era ds (a :: as)
      (token :: issued) := by
  obtain ⟨hn, hf, hg, heq⟩ := beginSnapshot_ok hgood hok
  rw [hg] at hgen
  rw [heq]
  have hissued := h.issue (subset_cons_self token issued)
  have hnew : a.admitted ≠ true := by simp [hadm]
  exact
    { hissued with
      attempt_le := forall_mem_cons.mpr ⟨hgen.le, h.attempt_le⟩
      attempt_token := forall_mem_cons.mpr
        ⟨⟨hv ▸ ht, hv ▸ mem_cons_self⟩, hissued.attempt_token⟩
      versions := by
        refine nodup_cons.mpr ⟨fun hmem => ?_, h.versions⟩
        obtain ⟨x, hx, hxv⟩ := mem_map.mp hmem
        have hxt : x.version = token := hxv.trans hv
        exact hfresh (hxt ▸ (h.attempt_token x hx).2)
      unshared := fun x hx hfl => by
        have hxt : token = x.version := hfl
        exact hfresh (hxt ▸ (h.delta_token x hx).2)
      flight := forall_mem_cons.mpr ⟨fun _ => by
        show r.alive era a.generation = true
        simp [alive, hn, hgen], fun x hx hfl => absurd (h.attempt_token x hx).2 (hfl ▸ hfresh)⟩
      gate := forall_mem_cons.mpr ⟨fun hadm' => absurd hadm' hnew, fun x hx hadm' hal =>
        absurd ((h.not_admitted hf hx hadm').symm.trans hal) (by simp)⟩
      apart := forall_mem_cons.mpr ⟨fun hadm' => absurd hadm' hnew, h.apart⟩ }

theorem beginSnapshot_failed (h : Gate r era ds as issued)
    (hno : (r.beginSnapshot accepting named nowMs minInterval token).1 ≠ .ok) :
    Gate (r.beginSnapshot accepting named nowMs minInterval token).2.1 era ds as issued := by
  rcases Reporter.beginSnapshot_failed hno with heq | heq | heq
  · rw [heq]
    exact h
  · rw [heq]
    exact h.congr rfl rfl rfl rfl rfl
  · rw [heq]
    exact h.congr rfl rfl rfl rfl rfl

/-- The wait is over and the snapshot is admitted: nothing is active. -/
theorem admitAttempt (h : Gate r era ds (a :: as) issued) (hf : r.inFlight = a.version)
    (hz : r.active = 0) : Gate r era ds ({ a with admitted := true } :: as) issued := by
  have hlife := h.flight a mem_cons_self hf
  have hrest := h.drop
  exact
    { h with
      attempt_le := forall_mem_cons.mpr ⟨h.attempt_le a mem_cons_self, hrest.attempt_le⟩
      attempt_token := forall_mem_cons.mpr
        ⟨h.attempt_token a mem_cons_self, hrest.attempt_token⟩
      flight := forall_mem_cons.mpr ⟨fun _ => hlife, hrest.flight⟩
      gate := forall_mem_cons.mpr ⟨fun _ _ => ⟨hf, hz⟩, hrest.gate⟩
      apart := forall_mem_cons.mpr ⟨fun _ d hd heq => by
        -- an admission of that life would be active
        have hdead := h.alive_eq_false hz hd
        rw [alive_iff] at hlife
        simp [alive, hlife.1, heq, hlife.2] at hdead, hrest.apart⟩ }

/-- The flight ends, with the old token or with that of the attempt. -/
theorem land (h : Gate r era ds (a :: as) issued) (hf : r.inFlight = a.version)
    (hn : r'.node = r.node) (hg : r'.currentGeneration = r.currentGeneration)
    (hc : r'.committed = r.committed ∨ a.admitted = true ∧ r'.committed = a.version)
    (hf' : r'.inFlight = "") (ha : r'.active = r.active) : Gate r' era ds as issued := by
  have halive := alive_congr hn hg era
  have hdrop := h.drop
  -- nobody else is admitted: the in-flight token is that of `a` alone
  have hnone : ∀ x ∈ as, x.admitted = true → r.alive era x.generation = false := by
    intro x hx hadm
    by_contra hal
    obtain ⟨hfl, -⟩ := hdrop.gate x hx hadm (by simpa using hal)
    have hmem : a.version ∈ as.map (·.version) :=
      mem_map.mpr ⟨x, hx, (hf.symm.trans hfl).symm⟩
    exact (nodup_cons.mp h.versions).1 hmem
  constructor
  case era_le => exact h.era_le
  case delta_le => exact fun x hx => hg ▸ h.delta_le x hx
  case attempt_le => exact fun x hx => hg ▸ hdrop.attempt_le x hx
  case delta_token => exact h.delta_token
  case attempt_token => exact hdrop.attempt_token
  case versions => exact hdrop.versions
  case committed_issued =>
    rcases hc with hc | ⟨-, hc⟩
    · exact hc ▸ h.committed_issued
    · exact .inr (hc ▸ (h.attempt_token a mem_cons_self).2)
  case current =>
    intro x hx
    rw [halive]
    rcases hc with hc | ⟨hadm, hc⟩
    · rw [hc]
      exact h.current x hx
    · have hz := (h.gate a mem_cons_self hadm (h.flight a mem_cons_self hf)).2
      rw [h.alive_eq_false hz hx, hc, ← hf]
      exact iff_of_false (by simp) (h.unshared x hx)
  case unshared =>
    intro x hx
    rw [hf']
    exact (h.delta_token x hx).1.symm
  case flight => exact fun x hx hfl => absurd (hf' ▸ hfl).symm (hdrop.attempt_token x hx).1
  case gate =>
    intro x hx hadm hal
    rw [halive, hnone x hx hadm] at hal
    cases hal
  case count =>
    rw [halive, ha]
    exact h.count
  case apart => exact hdrop.apart

theorem finish_failed (h : Gate r era ds (a :: as) issued) :
    Gate (r.finishBeginSnapshot accepting a.version).2 era ds as issued := by
  rcases finishBeginSnapshot_cases r accepting a.version with heq | heq
  · rw [heq]
    exact h.drop
  · rw [heq, dropCandidate_eq (h.attempt_token a mem_cons_self).1]
    split
    · rename_i hf
      exact h.land hf rfl rfl (.inl rfl) rfl rfl
    · exact h.drop

theorem commit (h : Gate r era ds (a :: as) issued) (hadm : a.admitted = true) (nowMs : Int) :
    Gate (r.commitSnapshotVersion a.version nowMs).2 era ds
      (if (r.commitSnapshotVersion a.version nowMs).1 = true then as else a :: as) issued := by
  rcases commitSnapshotVersion_cases r a.version nowMs with heq | ⟨-, hf, heq⟩
  · rw [heq]
    exact h
  · rw [heq]
    exact h.land hf rfl rfl (.inr ⟨hadm, rfl⟩) rfl rfl

theorem abort (h : Gate r era ds (a :: as) issued) :
    Gate (r.abortSnapshotVersion named a.version) era ds as issued := by
  rcases abortSnapshotVersion_cases r named a.version with heq | ⟨hf, heq⟩
  · rw [heq]
    exact h.drop
  · rw [heq]
    exact h.land hf rfl rfl (.inl rfl) rfl rfl

end Gate

/-! ## The gates of the system -/

section Erase

variable {α : Type*} [DecidableEq α] {l : List α} {x : α} (hx : x ∈ l) {p : α → Bool}

include hx

/-- What is left of a part of a list when one of its elements is taken out. -/
theorem filter_perm_cons_erase (h : p x) : (l.filter p).Perm (x :: (l.erase x).filter p) := by
  have hperm := (perm_cons_erase hx).filter p
  rwa [filter_cons_of_pos h] at hperm

theorem filter_perm_erase (h : ¬p x) : (l.filter p).Perm ((l.erase x).filter p) := by
  have hperm := (perm_cons_erase hx).filter p
  rwa [filter_cons_of_neg h] at hperm

end Erase

namespace System

def deltasOf (s : System) (key : ReporterSnapshotKey) : List Delta :=
  s.deltas.filter fun d => d.key = key

def attemptsOf (s : System) (key : ReporterSnapshotKey) : List Attempt :=
  s.attempts.filter fun a => a.key = key

def GateAt (s : System) (key : ReporterSnapshotKey) : Prop :=
  Gate (s.reporter key) (s.era key) (s.deltasOf key) (s.attemptsOf key) s.issued

theorem gateAt_lifecycle (hgood : s.AllGood) (hg : ∀ key, s.GateAt key)
    (h : Lifecycle s s') (key : ReporterSnapshotKey) :
    s'.GateAt key := by
  have hmoves := (hg key).moves (hgood key) (h.moves key)
  have hera : s'.era key = Gate.nextEra (s.reporter key) (s'.reporter key) (s.era key) :=
    funext fun g => h.era key g
  unfold GateAt deltasOf attemptsOf
  rw [hera, h.deltas, h.attempts, h.issued]
  exact hmoves

/-- A step on one reporter, its admissions and its attempts. -/
theorem gateAt_put (hg : ∀ key, s.GateAt key) {r : Reporter} {deltas : List Delta}
    {attempts : List Attempt} {issued : List String}
    (hgen : r.currentGeneration = (s.reporter key).currentGeneration) (hi : s.issued ⊆ issued)
    (hd : ∀ k, k ≠ key → (s.deltasOf k).Perm (deltas.filter fun d => d.key = k))
    (ha : ∀ k, k ≠ key → (s.attemptsOf k).Perm (attempts.filter fun a => a.key = k))
    (hkey : Gate r (s.era key) (deltas.filter fun d => d.key = key)
      (attempts.filter fun a => a.key = key) issued) (k : ReporterSnapshotKey) :
    GateAt { s.put key r with deltas := deltas, attempts := attempts, issued := issued } k := by
  have hera := put_era_of_eq s key hgen
  rcases eq_or_ne k key with rfl | hk
  · have hr := reporter_put_self s k r
    unfold GateAt
    rw [show reporter { s.put k r with deltas := deltas, attempts := attempts, issued := issued } k
      = r from hr]
    simp only [hera]
    exact hkey
  · have hr := reporter_put_ne s r hk
    unfold GateAt
    rw [show reporter { s.put key r with deltas := deltas, attempts := attempts, issued := issued } k
      = s.reporter k from hr]
    simp only [hera]
    exact ((hg k).perm (hd k hk) (ha k hk)).issue hi

/-- A step of the request that holds the admission `d`. -/
theorem gateAt_setDelta (hg : ∀ key, s.GateAt key) {d d' : Delta} (hd : d ∈ s.deltas)
    (hkey : d'.key = d.key) (hv : d'.version = d.version) (ha : d'.admittedAt = d.admittedAt)
    (k : ReporterSnapshotKey) : (s.setDelta d d').GateAt k := by
  show Gate (s.reporter k) (s.era k) ((d' :: s.deltas.erase d).filter fun d => d.key = k)
    (s.attemptsOf k) s.issued
  by_cases hk : d.key = k
  · rw [filter_cons_of_pos (by simp [hkey, hk])]
    exact ((hg k).perm (filter_perm_cons_erase hd (by simp [hk])) (.refl _)).replace hv ha
  · rw [filter_cons_of_neg (by simp [hkey, hk])]
    exact (hg k).perm (filter_perm_erase hd (by simp [hk])) (.refl _)

theorem fresh_iff : s.fresh token = true ↔
      SnapshotUri.isValidSnapshotVersionToken token = true ∧ token ∉ s.issued := by
  simp [fresh]

theorem fresh_ne_empty (h : s.fresh token = true) : token ≠ "" := by
  rintro rfl
  exact absurd (fresh_iff.mp h).1 (by decide)

section Steps

variable {s s' : System} {a : Attempt} {nowMs : Int} (hgood : s.AllGood)
  (hg : ∀ key, s.GateAt key)

section

variable {r : Reporter} (ha : a ∈ s.attempts)
  (hgen : r.currentGeneration = (s.reporter a.key).currentGeneration)

include hg ha hgen

/-- A step that ends the attempt `a`, or keeps it as `a'`. -/
theorem gateAt_attempt (rest : List Attempt) (hrest : ∀ x ∈ rest, x.key = a.key)
    (hkey : ∀ as, Gate (s.reporter a.key) (s.era a.key) (s.deltasOf a.key) (a :: as) s.issued →
      Gate r (s.era a.key) (s.deltasOf a.key) (rest ++ as) s.issued) (k : ReporterSnapshotKey) :
    GateAt { s.put a.key r with attempts := rest ++ s.attempts.erase a } k := by
  refine gateAt_put hg hgen (List.Subset.refl _) (fun _ _ => .refl _) (fun k hk => ?_) ?_ k
  · have hnone : rest.filter (fun x => x.key = k) = [] := by
      rw [filter_eq_nil_iff]
      intro x hx
      simp [hrest x hx, hk.symm]
    rw [filter_append, hnone]
    exact filter_perm_erase ha (by simp [hk.symm])
  · have hall : rest.filter (fun x => x.key = a.key) = rest := by
      rw [filter_eq_self]
      intro x hx
      simp [hrest x hx]
    rw [filter_append, hall]
    exact hkey _ ((hg a.key).perm (.refl _) (filter_perm_cons_erase ha (by simp)))

theorem gateAt_committed {committed : Prop} [Decidable committed]
    (hkey : ∀ as, Gate (s.reporter a.key) (s.era a.key) (s.deltasOf a.key) (a :: as) s.issued →
      Gate r (s.era a.key) (s.deltasOf a.key) (if committed then as else a :: as) s.issued)
    (k : ReporterSnapshotKey) :
    GateAt { s.put a.key r with
      attempts := if committed then s.attempts.erase a else s.attempts } k := by
  by_cases hc : committed
  · simp only [hc, if_true] at hkey ⊢
    exact gateAt_attempt hg ha hgen [] (by simp) hkey k
  · simp only [hc, if_false] at hkey ⊢
    have hperm : (s.attemptsOf a.key).Perm _ := filter_perm_cons_erase ha (by simp)
    refine gateAt_put hg hgen (List.Subset.refl _) (fun _ _ => .refl _) (fun _ _ => .refl _) ?_ k
    exact (hkey _ ((hg a.key).perm (.refl _) hperm)).perm (.refl _) hperm.symm

end

include hg

theorem gateAt_endDelta {d : Delta} (h : s.step (.endDelta d) = some s')
    (k : ReporterSnapshotKey) : s'.GateAt k := by
  obtain ⟨hd, -, rfl⟩ := step_endDelta h
  refine gateAt_put hg (endDeltaMutation_gate ..).generation (List.Subset.refl _) (fun k hk => ?_)
    (fun _ _ => .refl _) ?_ k
  · exact filter_perm_erase hd (by simp [hk.symm])
  · exact ((hg d.key).perm (filter_perm_cons_erase hd (by simp)) (.refl _)).endDelta

theorem gateAt_finishSnapshot {timedOut : Bool} (h : s.step (.finishSnapshot a timedOut) = some s')
    (k : ReporterSnapshotKey) : s'.GateAt k := by
  obtain ⟨ha, -, out, rfl, rfl⟩ := step_finishSnapshot h
  have hgen := (finishBeginSnapshot_gate (s.reporter a.key) s.accepting a.version).generation
  by_cases hok : ((s.reporter a.key).finishBeginSnapshot s.accepting a.version).1 = .ok
  · simp only [hok, if_true]
    refine gateAt_attempt hg ha hgen [{ a with admitted := true }] (by simp) (fun as hgate => ?_) k
    obtain ⟨-, heq, hf, hz⟩ := finishBeginSnapshot_ok hok
    rw [heq]
    exact hgate.admitAttempt hf hz
  · simp only [hok, if_false]
    exact gateAt_attempt hg ha hgen [] (by simp) (fun as hgate => hgate.finish_failed) k

theorem gateAt_commit (h : s.step (.commit a nowMs) = some s') (k : ReporterSnapshotKey) :
    s'.GateAt k := by
  obtain ⟨ha, hadm, out, rfl, rfl⟩ := step_commit h
  exact gateAt_committed hg ha (commitSnapshotVersion_gate ..).generation
    (fun as hgate => hgate.commit hadm nowMs) k

theorem gateAt_commitIfGeneration {generation : Nat}
    (h : s.step (.commitIfGeneration a generation nowMs) = some s') (k : ReporterSnapshotKey) :
    s'.GateAt k := by
  obtain ⟨ha, hadm, out, rfl, rfl⟩ := step_commitIfGeneration h
  refine gateAt_committed hg ha (commitSnapshotVersionIfGeneration_gate ..).generation
    (fun as hgate => ?_) k
  rcases commitSnapshotVersionIfGeneration_cases (s.reporter a.key) s.accepting a.version generation
    nowMs with ⟨hno, heq⟩ | ⟨-, heq, hiff⟩
  · rw [if_neg hno, heq]
    exact hgate
  · simp only [heq, hiff]
    exact hgate.commit hadm nowMs

theorem gateAt_abort (h : s.step (.abort a) = some s') (k : ReporterSnapshotKey) : s'.GateAt k := by
  obtain ⟨ha, -, -, rfl⟩ := step_abort h
  exact gateAt_attempt hg ha (abortSnapshotVersion_gate ..).generation [] (by simp)
    (fun as hgate => hgate.abort) k

include hgood

theorem gateAt_beginDelta (h : s.step (.beginDelta key token) = some s') (k : ReporterSnapshotKey) :
    s'.GateAt k := by
  obtain ⟨hfresh, out, rfl, rfl⟩ := step_beginDelta h
  by_cases hok : ((s.reporter key).beginDeltaMutation s.accepting (namedReporter key) token).1 = .ok
  · simp only [hok, if_true]
    refine gateAt_put hg (beginDeltaMutation_gate ..).generation (subset_cons_self _ _)
      (fun k hk => ?_) (fun _ _ => .refl _) ?_ k
    · rw [filter_cons_of_neg (by simp [hk.symm])]
      exact .refl _
    · rw [filter_cons_of_pos (by simp)]
      exact (hg key).beginDelta (hgood key) (fresh_ne_empty hfresh) (fresh_iff.mp hfresh).2 hok rfl
        rfl
  · simp only [hok, if_false]
    exact gateAt_put hg (beginDeltaMutation_gate ..).generation (subset_cons_self _ _)
      (fun _ _ => .refl _) (fun _ _ => .refl _)
      (((hg key).beginDelta_failed hok).issue (subset_cons_self _ _)) k

theorem gateAt_beginSnapshot (h : s.step (.beginSnapshot key nowMs token) = some s')
    (k : ReporterSnapshotKey) :
    s'.GateAt k := by
  obtain ⟨hfresh, -, out, rfl, rfl⟩ := step_beginSnapshot h
  by_cases hok : ((s.reporter key).beginSnapshot s.accepting (namedReporter key) nowMs
      s.backend.snapshotMinIntervalMs token).1 = .ok
  · simp only [hok, if_true]
    refine gateAt_put hg (beginSnapshot_gate ..).generation (subset_cons_self _ _)
      (fun _ _ => .refl _) (fun k hk => ?_) ?_ k
    · rw [filter_cons_of_neg (by simp [hk.symm])]
      exact .refl _
    · rw [filter_cons_of_pos (by simp)]
      exact (hg key).beginSnapshot (hgood key) (fresh_ne_empty hfresh) (fresh_iff.mp hfresh).2 hok
        rfl rfl rfl
  · simp only [hok, if_false]
    exact gateAt_put hg (beginSnapshot_gate ..).generation (subset_cons_self _ _)
      (fun _ _ => .refl _) (fun _ _ => .refl _)
      (((hg key).beginSnapshot_failed hok).issue (subset_cons_self _ _)) k

theorem gateAt_step {a : Action} (hc : a ≠ .clear) (h : s.step a = some s')
    (k : ReporterSnapshotKey) : s'.GateAt k := by
  cases hl : a.lifecycle with
  | true => exact gateAt_lifecycle hgood hg (lifecycle_of_step hgood hl h) k
  | false =>
    cases a with
    | beginDelta key token => exact gateAt_beginDelta hgood hg h k
    | endDelta d => exact gateAt_endDelta hg h k
    | adopt d =>
      obtain ⟨hd, -, rfl⟩ := step_adopt h
      exact gateAt_setDelta hg hd (by rfl) (by rfl) (by rfl) k
    | acquireWrite d =>
      obtain ⟨hd, -, -, rfl⟩ := step_acquireWrite h
      exact gateAt_setDelta hg hd (by rfl) (by rfl) (by rfl) k
    | write d =>
      obtain ⟨-, -, rfl⟩ := step_write h
      exact hg k
    | releaseWrite d =>
      obtain ⟨hd, -, rfl⟩ := step_releaseWrite h
      exact gateAt_setDelta hg hd (by rfl) (by rfl) (by rfl) k
    | beginSnapshot key nowMs token => exact gateAt_beginSnapshot hgood hg h k
    | finishSnapshot a timedOut => exact gateAt_finishSnapshot hg h k
    | commit a nowMs => exact gateAt_commit hg h k
    | commitIfGeneration a g nowMs => exact gateAt_commitIfGeneration hg h k
    | abort a => exact gateAt_abort hg h k
    | clear => exact absurd rfl hc
    | _ => cases hl

end Steps

/-! ## After `Close` -/

/-- The tables are gone and nothing enters them any more. -/
structure Closed (s : System) : Prop where
  retired : s.backend.retired = true
  gone : ∀ key, (s.reporter key).node = none

/-- No active delta is of a generation that a snapshot is admitted for. -/
def Apart (s : System) : Prop :=
  ∀ a ∈ s.attempts, a.admitted = true → ∀ d ∈ s.deltas, d.key = a.key →
    s.era a.key d.admittedAt ≠ s.era a.key a.generation

theorem apart_of_gateAt (hg : ∀ key, s.GateAt key) : s.Apart := by
  intro a ha hadm d hd hkey
  refine (hg a.key).apart a ?_ hadm d ?_
  · simp [attemptsOf, ha]
  · simp [deltasOf, hd, hkey]

/-- Admissions and attempts go on as they are, or end. -/
structure Fades (s s' : System) : Prop where
  era : s'.era = s.era
  deltas : ∀ d' ∈ s'.deltas, ∃ d ∈ s.deltas, d'.key = d.key ∧ d'.admittedAt = d.admittedAt ∧
    (d'.writing = true → d.writing = true)
  attempts : ∀ a' ∈ s'.attempts, a'.admitted = true → a' ∈ s.attempts
  writes : (∀ d ∈ s.deltas, d.writing = false) → s'.writes = s.writes

theorem Fades.apart (h : Fades s s') (ha : s.Apart) : s'.Apart := by
  intro a ha' hadm d' hd' hkey
  obtain ⟨d, hd, hk, hat, -⟩ := h.deltas d' hd'
  rw [h.era, hat]
  exact ha a (h.attempts a ha' hadm) hadm d hd (hk.symm.trans hkey)

theorem Closed.step {a : Action} (hgood : s.AllGood) (hcl : s.Closed) (h : s.step a = some s') :
    s'.Closed ∧ Fades s s' := by
  have hacc := accepting_of_retired hcl.retired
  have hkeep : ∀ d ∈ s.deltas, ∃ x ∈ s.deltas, d.key = x.key ∧ d.admittedAt = x.admittedAt ∧
      (d.writing = true → x.writing = true) := fun d hd => ⟨d, hd, rfl, rfl, id⟩
  rcases step_kind hgood h with rfl | hlife | hgate
  · obtain ⟨-, -, -, rfl⟩ := step_clear h
    refine ⟨⟨hcl.retired, fun key => ?_⟩, rfl, hkeep, fun a ha _ => ha, fun _ => rfl⟩
    rw [reporter_cleared]
  · refine ⟨⟨hlife.retired hcl.retired, fun key => ?_⟩, ?_, ?_, ?_, fun _ => hlife.writes⟩
    · by_contra hne
      have hlt := (hlife.moves key).created (hcl.gone key) hne
      exact absurd (hlife.closed hcl.retired key) (Nat.ne_of_gt hlt)
    · funext key g
      rw [hlife.era key g, if_neg]
      rintro ⟨rfl, hlt⟩
      exact absurd (hlife.closed hcl.retired key) (Nat.ne_of_gt hlt)
    · exact hlife.deltas.symm ▸ hkeep
    · exact hlife.attempts.symm ▸ fun a ha _ => ha
  · refine ⟨⟨hgate.retired.trans hcl.retired, fun key => ?_⟩, hgate.era, fun d hd => ?_,
      fun x hx hadm => ?_, fun hidle => ?_⟩
    · rw [(hgate.gated key).node]
      exact hcl.gone key
    · cases hgate.deltas d hd with
      | kept hmem => exact hkeep d hmem
      | admitted hout hok =>
        subst hout
        simp [(beginDeltaMutation_ok hok).1] at hacc
      | adopted hmem => exact ⟨_, hmem, rfl, rfl, id⟩
      | leased _ hok => simp [(acquireLifecycleMutationLease_ok hok).1] at hacc
      | released hmem => exact ⟨_, hmem, rfl, rfl, nofun⟩
    · refine (hgate.attempts x hx hadm).resolve_right ?_
      rintro ⟨y, hok⟩
      simp [(finishBeginSnapshot_ok hok).1] at hacc
    · refine hgate.writes.resolve_right ?_
      rintro ⟨d, hd, hw, -⟩
      simp [hidle d hd] at hw

/-! ## Every run -/

/-- The invariant: the gates are in order, or the backend has been closed. -/
structure Gated (s : System) : Prop where
  good : s.AllGood
  apart : s.Apart
  gates : (∀ key, s.GateAt key) ∨ s.Closed

theorem Gated.step {a : Action} (hs : s.Gated) (h : s.step a = some s') :
    s'.Gated := by
  have hgood := good_step hs.good h
  rcases hs.gates with hg | hcl
  · rcases eq_or_ne a .clear with rfl | hclear
    · obtain ⟨hret, -, -, rfl⟩ := step_clear h
      refine ⟨hgood, hs.apart, .inr ⟨hret, fun key => ?_⟩⟩
      rw [reporter_cleared]
    · have hg' := gateAt_step hs.good hg hclear h
      exact ⟨hgood, apart_of_gateAt hg', .inl hg'⟩
  · obtain ⟨hcl', hfades⟩ := hcl.step hs.good h
    exact ⟨hgood, hfades.apart hs.apart, .inr hcl'⟩

theorem reporter_start {b : EventReportBackend} (hb : b.reporters = ∅) (key : ReporterSnapshotKey) :
    (start b).reporter key = {} := by
  simp [reporter, start, EventReportBackend.reporter, hb]

theorem gateAt_start {b : EventReportBackend} (hb : b.reporters = ∅) (key : ReporterSnapshotKey) :
    (start b).GateAt key := by
  unfold GateAt
  rw [reporter_start hb key]
  constructor <;> simp [start, deltasOf, attemptsOf, committed, inFlight, active]

theorem gated_of_reach (h : eventReports.Reach anyAction s) : s.Gated := by
  refine h.inv (P := Gated) (fun s hs => ?_) (fun s a s' hs _ hstep => hs.step hstep)
  obtain ⟨b, hb, rfl⟩ := hs
  refine ⟨fun key => ?_, nofun, .inl fun key => gateAt_start hb key⟩
  rw [reporter_start hb key]
  exact Good.empty

/-- The delta was admitted in the present life of its reporter's node. -/
def ofPresentLife (s : System) (d : Delta) : Bool :=
  (s.reporter d.key).alive (s.era d.key) d.admittedAt

end System

open EventReport.System

/-- In every state of every run, for every reporter: no active delta is of a
generation that a snapshot is admitted for; the end of a delta that was
admitted in an earlier life of the node changes nothing; and the count is the
number of deltas of the present life that have begun and not ended. -/
theorem delta_gate_counts_life {s : System} (h : eventReports.Reach anyAction s)
    (key : ReporterSnapshotKey) : (∀ a ∈ s.attempts, a.key = key → a.admitted = true →
        ∀ d ∈ s.deltas, d.key = key → d.admittedAt ≠ a.generation) ∧
      (∀ d ∈ s.deltas, d.key = key → s.ofPresentLife d = false →
        (s.reporter key).endDeltaMutation d.version = s.reporter key) ∧
      (s.reporter key).active = s.deltas.countP fun d => d.key = key ∧
        s.ofPresentLife d = true := by
  have hs := gated_of_reach h
  refine ⟨fun a ha hakey hadm d hd hdkey heq => ?_, ?_⟩
  · exact hs.apart a ha hadm d hd (hdkey.trans hakey.symm) (heq ▸ rfl)
  have hcount : (s.deltas.countP fun d => d.key = key ∧ s.ofPresentLife d = true) =
      (s.deltasOf key).countP fun d => (s.reporter key).alive (s.era key) d.admittedAt := by
    rw [deltasOf, countP_filter]
    refine countP_congr fun d _ => ?_
    rcases eq_or_ne d.key key with rfl | hk
    · simp [ofPresentLife]
    · simp [hk]
  rw [hcount]
  rcases hs.gates with hg | hcl
  · refine ⟨fun d hd hdkey hpast => ?_, (hg key).count⟩
    subst hdkey
    have hmem : d ∈ s.deltasOf d.key := by simp [deltasOf, hd]
    rw [endDeltaMutation_eq ((hg d.key).delta_token d hmem).1, if_neg]
    rintro ⟨hc, -⟩
    exact absurd (((hg d.key).current d hmem).mpr hc) (by simpa [ofPresentLife] using hpast)
  · have hnone : (s.reporter key).snapshot = none := (hs.good key).snapshot (hcl.gone key)
    refine ⟨fun d _ _ _ => by simp [endDeltaMutation, hnone], ?_⟩
    simp [active, hnone, alive, hcl.gone key]

def tokenA : String := "0123456789abcdef0123456789abcdef"

def tokenB : String := "fedcba9876543210fedcba9876543210"

/-- A delta, then a REGISTER of its reporter: a new generation, in which no
delta has begun. It counts one, and the end of the old delta counts it down. -/
theorem delta_counted_across_register :
    ∃ s d, eventReports.Reach anyAction s ∧ d ∈ s.deltas ∧ d.key = host ∧
      d.admittedAt < (s.reporter host).currentGeneration ∧
      (s.deltas.countP fun d => d.key = host ∧ d.admittedAt = (s.reporter host).currentGeneration)
        = 0 ∧
      (s.reporter host).active = 1 ∧
      ((s.reporter host).endDeltaMutation d.version).active = 0 := by
  let actions : List Action := [.register host [] 100, .beginDelta host tokenA, .register host [] 200]
  obtain ⟨s, hrun, hs⟩ : ∃ s,
      eventReports.run (.start (openBackend .eventReportL2)) actions = some s ∧
      s.deltas = [{ key := host, version := tokenA, generation := 1, admittedAt := 1 }] ∧
      (s.reporter host).currentGeneration = 2 ∧ (s.reporter host).active = 1 ∧
      ((s.reporter host).endDeltaMutation tokenA).active = 0 :=
    ⟨_, rfl, rfl, rfl, rfl, rfl⟩
  obtain ⟨hdeltas, hgen, hactive, hend⟩ := hs
  refine ⟨s, _, reach_of_run ⟨_, rfl, rfl⟩ hrun, hdeltas ▸ mem_singleton_self _, rfl,
    ?_, ?_, hactive, hend⟩
  · rw [hgen]
    decide
  · rw [hgen, hdeltas]
    decide

/-- A snapshot is admitted after a HOST_DOWN, while a delta of the earlier
life has not ended. -/
theorem delta_gate_counts_life_run :
    ∃ s a d, eventReports.Reach anyAction s ∧ a ∈ s.attempts ∧ a.admitted = true ∧
      d ∈ s.deltas ∧ a.key = host ∧ d.key = host ∧ d.admittedAt ≠ a.generation ∧
      (s.reporter host).endDeltaMutation d.version = s.reporter host ∧
      (s.reporter host).active = s.deltas.countP fun d => d.key = host ∧
        s.ofPresentLife d = true := by
  let attempt : Attempt := { key := host, version := tokenB, generation := 2 }
  let delta : Delta := { key := host, version := tokenA, generation := 1, admittedAt := 1 }
  let actions : List Action := [.register host [] 100, .beginDelta host tokenA, .hostDown host,
    .register host [] 200, .beginSnapshot host 200 tokenB, .finishSnapshot attempt false]
  obtain ⟨s, hrun, hdeltas, hattempts, hpast⟩ : ∃ s,
      eventReports.run (.start (openBackend .eventReportL2)) actions = some s ∧
      s.deltas = [delta] ∧ s.attempts = [{ attempt with admitted := true }] ∧
      s.ofPresentLife delta = false :=
    ⟨_, rfl, rfl, rfl, rfl⟩
  have hreach := reach_of_run (m := eventReports) ⟨_, rfl, rfl⟩ hrun
  obtain ⟨hapart, hend, hcount⟩ := delta_gate_counts_life hreach host
  have ha : { attempt with admitted := true } ∈ s.attempts := hattempts ▸ mem_singleton_self _
  have hd : delta ∈ s.deltas := hdeltas ▸ mem_singleton_self _
  exact ⟨s, _, delta, hreach, ha, rfl, hd, rfl, rfl, hapart _ ha rfl rfl delta hd rfl,
    hend delta hd rfl hpast, hcount⟩

end TairKvCache.EventReport
