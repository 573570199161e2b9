import TairKvCache.EventReport.DeltaGate

/-!
# Cleanup is safe

A probe that answers "delete" speaks of the moment it is made; the metadata
is deleted later, under a cleanup lease. Two things make this safe.

*Nothing readable is probed away.* The probe and the query scan the same
URIs: if no URI carries the committed token and none is malformed, a strict
query finds nothing. A reporter without a node cannot be queried at all.

*Nothing becomes readable before the lease is released.* The lease is granted
only in the generation, with the committed token and in the snapshot attempt
of the probe, so the only token that can become committed is the one that was
in flight then (`Since`), and the probe has checked it too. While the lease
is held no lifecycle change, no new snapshot and no abort gets in.
-/

namespace TairKvCache.EventReport

open Lib Option Machine EventReportBackend

open Reporter SnapshotUri

/-! ## Probes and queries -/

def Unseen (uris : List String) (version : String) : Prop :=
  ∀ uri ∈ uris, inspectSnapshotUriForVisibility uri false ≠ some version

def WellFormed (uris : List String) : Prop :=
  ∀ uri ∈ uris, (inspectSnapshotUriForVisibility uri false).isSome = true

/-- The reporter is queried strictly, and neither its token nor the one that
may replace it is on the URIs. -/
structure Stale (uris : List String) (state : SnapshotVersionState) : Prop where
  wellFormed : WellFormed uris
  strict : state.strictQueryVisibility = true
  committed : state.committed ≠ ""
  unseen : Unseen uris state.committed
  inFlight : state.inFlight = "" ∨ Unseen uris state.inFlight

variable {location : CacheLocation} {b : EventReportBackend} {uris : List String} {nowMs : Int}
    {st : SnapshotVersionState} {probe : MaintenanceLocationProbe} (r : Reporter)

theorem not_readable_of_unseen {committed : String}
    (hwf : WellFormed (location.locationSpecs.map (·.uri)))
    (hun : Unseen (location.locationSpecs.map (·.uri)) committed) :
    isEventReportLocationReadable location true committed = false := by
  by_contra hread
  simp only [isEventReportLocationReadable, Bool.not_eq_false, Bool.and_eq_true, Bool.not_true,
    Bool.false_or, List.any_eq_true, List.mem_map] at hread
  obtain ⟨-, v, ⟨spec, hspec, rfl⟩, hv⟩ := hread
  have hmem : spec.uri ∈ location.locationSpecs.map (·.uri) := List.mem_map_of_mem hspec
  obtain ⟨version, hversion⟩ := isSome_iff_exists.mp (hwf spec.uri hmem)
  rw [inspect_prevalidated hversion] at hv
  simp only [ne_eq, Bool.and_eq_true, decide_eq_true_eq] at hv
  exact hun spec.uri hmem (hv.2 ▸ hversion)

/-- What makes a location unreadable for good. -/
def Dead (uris : List String) (r : Reporter) : Prop :=
  r.node = none ∨ ∃ state, r.snapshot = some state ∧ Stale uris state

theorem not_readable_of_dead {instanceId medium host : String}
    (hid : parseLocationId b.type location.id = some (medium, host))
    (hdead : Dead (location.locationSpecs.map (·.uri)) (b.reporter ⟨instanceId, host⟩)) :
    b.readable instanceId location = false := by
  simp only [readable, hid, getQueryVisibilityState]
  cases b.acceptingReports with
  | false => rfl
  | true =>
    cases hn : (b.reporter ⟨instanceId, host⟩).node with
    | none => rfl
    | some info =>
      cases hav : info.available with
      | false => simp [hav]
      | true =>
        rcases hdead with hnone | ⟨state, hs, hstale⟩
        · simp [hnone] at hn
        · have hno := not_readable_of_unseen hstale.wellFormed hstale.unseen
          simp [hav, hs, hstale.strict, hno]

theorem stale_of_probe {state : SnapshotVersionState} (hc : state.committed ≠ "")
    (hstrict : state.strictQueryVisibility = true) (hcur : containsCurrent state uris = false)
    (hmal : ∀ uri ∈ uris, inspectSnapshotUriForVisibility uri false ≠ none) : Stale uris state := by
  simp only [containsCurrent, List.any_eq_false] at hcur
  refine ⟨fun uri hmem => isSome_iff_ne_none.mpr (hmal uri hmem), hstrict, hc,
    fun uri hmem heq => ?_, ?_⟩
  · simpa [heq] using hcur uri hmem
  · by_cases hf : state.inFlight = ""
    · exact .inl hf
    · refine .inr fun uri hmem heq => ?_
      simpa [heq, hf] using hcur uri hmem

/-- What a probe that answers "delete" has seen, and what it notes in the
token. -/
theorem probe_delete (h : (b.probeLocation probe nowMs).decision = .deleteMetadata) :
    ∃ medium host, parseLocationId b.type probe.locationId = some (medium, host) ∧
      ∃ r token, r = b.reporter ⟨probe.instanceId, host⟩ ∧
        token = (b.probeLocation probe nowMs).token ∧
        token.reporterKey = ⟨probe.instanceId, host⟩ ∧
        (r.node = none ∧ token.reason ≠ .staleSnapshot ∨
          ∃ state, r.snapshot = some state ∧ Stale probe.storageUris state ∧
            token.reason = .staleSnapshot ∧ token.lifecycleGeneration = r.currentGeneration ∧
            token.committedVersion = state.committed ∧
            token.snapshotAttemptEpoch = state.attemptEpoch) := by
  generalize hres : b.probeLocation probe nowMs = res at h ⊢
  unfold probeLocation at hres
  split at hres
  · cases hres ▸ h
  split at hres
  · cases hres ▸ h
  cases hid : parseLocationId b.type probe.locationId with
  | none =>
    simp only [hid] at hres
    cases hres ▸ h
  | some id =>
    obtain ⟨medium, host⟩ := id
    simp only [hid] at hres
    refine ⟨medium, host, rfl, _, _, rfl, rfl, ?_⟩
    cases hn : (b.reporter ⟨probe.instanceId, host⟩).node with
    | none =>
      simp only [hn, probeAbsent] at hres
      split at hres
      · exact hres ▸ ⟨rfl, .inl ⟨rfl, by simp⟩⟩
      · split at hres
        · cases hres ▸ h
        · exact hres ▸ ⟨rfl, .inl ⟨rfl, by simp⟩⟩
    | some info =>
      simp only [hn, probeRegistered] at hres
      split at hres
      · cases hres ▸ h
      cases hs : (b.reporter ⟨probe.instanceId, host⟩).snapshot with
      | none =>
        simp only [hs] at hres
        cases hres ▸ h
      | some state =>
        simp only [hs] at hres
        split at hres
        · cases hres ▸ h
        rename_i hstate
        split at hres
        · cases hres ▸ h
        rename_i hcur
        split at hres
        · cases hres ▸ h
        rename_i hmal
        refine hres ▸ ⟨rfl, .inr ⟨state, rfl, ?_, rfl, rfl, rfl, rfl⟩⟩
        simp only [Bool.or_eq_true, decide_eq_true_eq, not_or, Bool.not_eq_true] at hstate
        exact stale_of_probe hstate.1 (by simpa using hstate.2) (by simpa using hcur)
          (by simpa using hmal)

/-! ## What can happen to a snapshot state -/

theorem Drifts.stale {st' : SnapshotVersionState} (h : Drifts st st') (hs : Stale uris st) :
    Stale uris st' := by
  refine ⟨hs.wellFormed, h.strict hs.strict, ?_, ?_, ?_⟩
  · rcases h.committed hs.committed with heq | ⟨heq, hne⟩
    · exact heq ▸ hs.committed
    · exact heq ▸ hne
  · rcases h.committed hs.committed with heq | ⟨heq, hne⟩
    · exact heq ▸ hs.unseen
    · exact heq ▸ hs.inFlight.resolve_left hne
  · rcases h.inFlight with heq | heq
    · exact heq ▸ hs.inFlight
    · exact .inl heq

/-- A snapshot attempt starts or is aborted. -/
def Action.turns : Action → Bool
  | .beginSnapshot .. | .abort .. => true
  | _ => false

/-! ## From the probe to the lease -/

/-- In the generation and the attempt of the probe, only the token that was
in flight then can be in flight. -/
def Since (g epoch : Nat) (flight : String) (r : Reporter) : Prop :=
  g < r.currentGeneration ∨ g = r.currentGeneration ∧
    (r.node = none ∨ ∃ st, r.snapshot = some st ∧
      (epoch < st.attemptEpoch ∨
        epoch = st.attemptEpoch ∧ (st.inFlight = flight ∨ st.inFlight = "")))

section Since

variable {g epoch : Nat} {flight : String} {r r' : Reporter}

theorem Since.moves (h : Since g epoch flight r) (hm : Moves r r') : Since g epoch flight r' := by
  rcases h with hlt | ⟨rfl, h⟩
  · exact .inl (hlt.trans_le hm.le)
  rcases Nat.lt_or_eq_of_le hm.le with hlt | heq
  · exact .inl hlt
  refine .inr ⟨heq, ?_⟩
  by_cases hn' : r'.node = none
  · exact .inl hn'
  rcases h with hn | ⟨st, hst, hrest⟩
  · exact absurd heq (Nat.ne_of_lt (hm.created hn hn'))
  · refine .inr ⟨st, ?_, hrest⟩
    rw [hm.snapshot, if_pos (isSome_iff_ne_none.mpr hn')]
    exact hst

/-- A new attempt, or the old one with its token or none. -/
def Turned (r r' : Reporter) : Prop :=
  ∀ st, r.snapshot = some st → ∃ st', r'.snapshot = some st' ∧
    (st.attemptEpoch < st'.attemptEpoch ∨ st'.attemptEpoch = st.attemptEpoch ∧
      (st'.inFlight = st.inFlight ∨ st'.inFlight = ""))

theorem turned_of_effect {a : Action} (he : GateEffect a.gateRel r r') : Turned r r' := by
  intro st hst
  rcases he.snapshot hst with heq | ⟨st', heq, hrel⟩
  · exact ⟨st, heq, .inr ⟨rfl, .inl rfl⟩⟩
  refine ⟨st', heq, ?_⟩
  unfold Action.gateRel at hrel
  split at hrel
  · rcases hrel with rfl | rfl
    · exact .inr ⟨rfl, .inl rfl⟩
    · exact .inl (Nat.lt_succ_self _)
  · obtain rfl := hrel
    exact .inr ⟨rfl, .inr rfl⟩
  · exact .inr ⟨hrel.epoch, hrel.inFlight⟩

theorem Since.gated (h : Since g epoch flight r) (hg : Gated r r') (hst : Turned r r') :
    Since g epoch flight r' := by
  rcases h with hlt | ⟨rfl, h⟩
  · exact .inl (hg.generation ▸ hlt)
  refine .inr ⟨hg.generation.symm, ?_⟩
  rcases h with hn | ⟨st, hs, hrest⟩
  · exact .inl (hg.node ▸ hn)
  obtain ⟨st', hs', hlt' | ⟨heq, hfl⟩⟩ := hst st hs
  · refine .inr ⟨st', hs', .inl ?_⟩
    rcases hrest with hlt | ⟨rfl, -⟩
    · exact hlt.trans hlt'
    · exact hlt'
  · refine .inr ⟨st', hs', ?_⟩
    rw [heq]
    refine hrest.imp id fun ⟨he, hf⟩ => ⟨he, ?_⟩
    rcases hfl with hfl | hfl
    · exact hfl ▸ hf
    · exact .inr hfl

end Since

namespace System

variable {s s' : System} {a : Action}

theorem since_step {key : ReporterSnapshotKey} {g epoch : Nat} {flight : String}
    (hgood : s.AllGood) (hc : a ≠ .clear) (h : s.step a = some s')
    (hs : Since g epoch flight (s.reporter key)) : Since g epoch flight (s'.reporter key) := by
  rcases step_kind hgood h with rfl | hlife | hgate
  · exact absurd rfl hc
  · exact hs.moves (hlife.moves key)
  · exact hs.gated (hgate.gated key) (turned_of_effect (hgate.effect key))

/-- A retired backend stays retired, and no step changes its type. -/
theorem backend_step (hgood : s.AllGood) (h : s.step a = some s') :
    (s.backend.retired = true → s'.backend.retired = true) ∧
      s'.backend.type = s.backend.type := by
  rcases step_kind hgood h with rfl | hlife | hgate
  · obtain ⟨-, -, -, rfl⟩ := step_clear h
    exact ⟨id, rfl⟩
  · exact ⟨hlife.retired, hlife.type⟩
  · exact ⟨hgate.retired.trans, hgate.type⟩

end System

/-! ## Under the lease -/

/-- The lease is not the one released. -/
def Keeps (lease : CleanupLease) (_ : System) (a : Action) : Prop := a ≠ .releaseCleanup lease

theorem Dead.pinned {r r' : Reporter} (h : Dead uris r) (hgood : r.Good) (hm : Moves r r')
    (hp : Pinned r r') : Dead uris r' := by
  rcases h with hn | ⟨st, hst, hstale⟩
  · exact .inl (by simpa [hn] using hp.node)
  · have hsome : r'.node.isSome = true := by
      rw [hp.node]
      exact isSome_iff_ne_none.mpr (hgood.node_ne_none hst)
    refine .inr ⟨st, ?_, hstale⟩
    rw [hm.snapshot, if_pos hsome]
    exact hst

namespace System

variable {s s' : System} {a : Action} {lease : CleanupLease}

theorem cleanup_kept (hgood : s.AllGood) (hl : lease ∈ s.cleanups)
    (hk : Keeps lease s a) (h : s.step a = some s') : lease ∈ s'.cleanups := by
  cases hlife : a.lifecycle with
  | false =>
    rcases eq_or_ne a .clear with rfl | hc
    · obtain ⟨-, -, hnil, -⟩ := step_clear h
      simp [hnil] at hl
    · rw [(gateStep_of_step hgood hlife hc h).cleanups]
      exact hl
  | true =>
    cases a with
    | register key mediums nowMs | heartbeatLocked key nowMs =>
      obtain ⟨-, rfl⟩ := of_guard h
      rwa [acknowledge_cleanups]
    | ensureKnown key mediums =>
      simp only [System.step, ite_none_left_eq_some, map_eq_some_iff] at h
      obtain ⟨-, r, -, rfl⟩ := h
      exact hl
    | ensureCreated key mediums nowMs | unregister key | hostDown key =>
      obtain ⟨-, rfl⟩ := of_guard h
      exact hl
    | heartbeatSteady key nowMs =>
      simp only [System.step, ite_none_left_eq_some, map_eq_some_iff] at h
      obtain ⟨-, r, -, rfl⟩ := h
      rwa [acknowledge_cleanups]
    | setNodeUnavailable key nowMs | livenessScan now fresh | retire =>
      obtain rfl := some.inj h
      exact hl
    | livenessUnregister e =>
      obtain ⟨-, -, out, -, rfl⟩ := step_livenessUnregister h
      exact hl
    | acquireCleanup id token nowMs =>
      obtain ⟨-, out, -, rfl⟩ := step_acquireCleanup h
      dsimp only
      split
      · exact List.mem_cons_of_mem _ hl
      · exact hl
    | releaseCleanup l =>
      obtain ⟨-, rfl⟩ := of_guard h
      refine (List.mem_erase_of_ne fun heq => hk ?_).mpr hl
      rw [heq]
    | beginDelta | endDelta | adopt | acquireWrite | write | releaseWrite | beginSnapshot
    | finishSnapshot | commit | commitIfGeneration | abort | clear => cases hlife

theorem leased_of_cleanup (hl : lease ∈ s.cleanups) : s.leased lease.key = true := by
  unfold leased
  rw [Bool.or_eq_true, List.any_eq_true, List.any_eq_true]
  exact .inr ⟨lease, hl, by simp⟩

theorem dead_step (hgood : s.AllGood) (hl : lease ∈ s.cleanups)
    (h : s.step a = some s') (hd : Dead uris (s.reporter lease.key)) :
    Dead uris (s'.reporter lease.key) := by
  have hleased := leased_of_cleanup hl
  rcases step_kind hgood h with rfl | hlife | hgate
  · obtain ⟨-, -, hnil, -⟩ := step_clear h
    simp [hnil] at hl
  · exact hd.pinned (hgood lease.key) (hlife.moves lease.key) (hlife.pinned lease.key hleased)
  · cases ht : a.turns with
    | false =>
      rcases hd with hn | ⟨st, hst, hstale⟩
      · exact .inl ((hgate.gated lease.key).node.trans hn)
      · rcases (hgate.effect lease.key).snapshot hst with heq | ⟨st', heq, hrel⟩
        · exact .inr ⟨st, heq, hstale⟩
        · refine .inr ⟨st', heq, ?_⟩
          unfold Action.gateRel at hrel
          split at hrel
          · cases ht
          · cases ht
          · exact hrel.stale hstale
    | true =>
      -- both need the fence exclusively, so they are about other reporters
      cases a with
      | beginSnapshot key nowMs token =>
        obtain ⟨-, hfree, out, -, rfl⟩ := step_beginSnapshot h
        have hne : lease.key ≠ key := fun heq => by simp [← heq, hleased] at hfree
        have hsame := reporter_put_ne s out.2.1 hne
        exact hsame ▸ hd
      | abort x =>
        obtain ⟨-, -, hfree, rfl⟩ := step_abort h
        have hne : lease.key ≠ x.key := fun heq => by simp [← heq, hleased] at hfree
        have hsame := reporter_put_ne s
          ((s.reporter x.key).abortSnapshotVersion (namedReporter x.key) x.version) hne
        exact hsame ▸ hd
      | _ => cases ht

end System

/-! ## The lease is granted -/

/-- A lease is granted on a reporter that is gone, or that is as the probe
has seen it. -/
theorem acquired_cases {token : MaintenanceCleanupToken}
    (hgood : (b.reporter token.reporterKey).Good)
    (h : (b.acquireMaintenanceCleanupLease token nowMs).1 = .acquired) : b.acceptingReports = true ∧
      (token.reason ≠ .staleSnapshot ∧ (b.reporter token.reporterKey).node = none ∨
        token.reason = .staleSnapshot ∧
          (b.reporter token.reporterKey).registeredAt token.lifecycleGeneration = true ∧
          ∃ st, (b.reporter token.reporterKey).snapshot = some st ∧
            st.strictQueryVisibility = true ∧ st.committed = token.committedVersion ∧
            st.attemptEpoch = token.snapshotAttemptEpoch) := by
  unfold acquireMaintenanceCleanupLease at h
  dsimp only at h
  split at h
  · cases h
  rename_i hacc
  refine ⟨by simpa using hacc, ?_⟩
  split at h
  · -- a stale snapshot
    rename_i hreason
    right
    unfold acquireStaleSnapshotLease at h
    dsimp only at h
    split at h
    · cases h
    rename_i hreg
    refine ⟨hreason, by simpa using hreg, ?_⟩
    split at h
    · cases h
    · rename_i st hst
      split at h
      · rename_i hcond
        simp only [Bool.and_eq_true, decide_eq_true_eq] at hcond
        exact ⟨st, hst, hcond.1.1, hcond.1.2, hcond.2⟩
      · cases h
  · -- a reporter that is down
    rename_i hreason
    refine .inl ⟨by simp [hreason], ?_⟩
    unfold acquireDownLifecycleCleanupLease at h
    dsimp only at h
    split at h
    · cases h
    · rename_i f hf
      split at h
      · cases h
      split at h
      · cases h
      · rename_i hreg
        have hnode := (hgood.fence f hf).2
        simpa [hreg] using hnode
  · -- a reporter that was never seen
    rename_i hreason
    refine .inl ⟨by simp [hreason], ?_⟩
    split at h
    · cases h
    unfold acquireAbsentReporterCleanupLease at h
    dsimp only at h
    cases hf : (b.reporter token.reporterKey).fence with
    | none => exact (hgood.unfenced hf).1
    | some f =>
      have hnode := (hgood.fence f hf).2
      cases hreg : f.registered with
      | false => simpa [hreg] using hnode
      | true => simp [hf, hreg] at h

open EventReport.System

/-- The probe's view still holds when the lease is granted. -/
theorem dead_of_acquired {s₀ s₁ : System} {instanceId host : String}
    {token : MaintenanceCleanupToken} (hgood₀ : s₀.AllGood)
    (hkey : token.reporterKey = ⟨instanceId, host⟩)
    (hseen : (s₀.reporter ⟨instanceId, host⟩).node = none ∧ token.reason ≠ .staleSnapshot ∨ ∃ state,
      (s₀.reporter ⟨instanceId, host⟩).snapshot = some state ∧
      Stale (location.locationSpecs.map (·.uri)) state ∧ token.reason = .staleSnapshot ∧
      token.lifecycleGeneration = (s₀.reporter ⟨instanceId, host⟩).currentGeneration ∧
      token.committedVersion = state.committed ∧ token.snapshotAttemptEpoch = state.attemptEpoch)
    (hsteps : eventReports.Steps anyAction s₀ s₁)
    (h : (s₁.backend.acquireMaintenanceCleanupLease token nowMs).1 = .acquired) :
    Dead (location.locationSpecs.map (·.uri)) (s₁.reporter ⟨instanceId, host⟩) := by
  have hgood₁ : s₁.AllGood :=
    hsteps.preserve (fun t a t' ht _ hstep => good_step ht hstep) hgood₀
  obtain ⟨hacc, hcases⟩ := acquired_cases (hgood₁ token.reporterKey) h
  rw [hkey] at hcases
  rcases hcases with ⟨-, hnone⟩ | ⟨hreason, hreg, st, hst, hstrict, hc, hepoch⟩
  · exact .inl hnone
  rcases hseen with ⟨-, hother⟩ | ⟨st₀, hst₀, hstale, -, hgen, hc₀, hepoch₀⟩
  · exact absurd hreason hother
  · have hsince : s₁.backend.retired = true ∨ Since (s₀.reporter ⟨instanceId, host⟩).currentGeneration
        st₀.attemptEpoch st₀.inFlight (s₁.reporter ⟨instanceId, host⟩) := by
      refine (hsteps.preserve
        (P := fun t => t.AllGood ∧ (t.backend.retired = true ∨
          Since (s₀.reporter ⟨instanceId, host⟩).currentGeneration st₀.attemptEpoch st₀.inFlight
            (t.reporter ⟨instanceId, host⟩))) (fun t a t' ht _ hstep => ?_) ⟨hgood₀, .inr ?_⟩).2
      · refine ⟨good_step ht.1 hstep, ?_⟩
        rcases eq_or_ne a .clear with rfl | hclear
        · exact .inl ((backend_step (a := .clear) ht.1 hstep).1 (step_clear hstep).1)
        · exact ht.2.imp (backend_step ht.1 hstep).1 (since_step ht.1 hclear hstep)
      · exact .inr ⟨rfl, .inr ⟨st₀, hst₀, .inr ⟨rfl, .inl rfl⟩⟩⟩
    have hlive : s₁.backend.retired = false := by
      simp only [acceptingReports, Bool.and_eq_true, Bool.not_eq_true'] at hacc
      exact hacc.1
    obtain ⟨hnode, hsame⟩ := ((hgood₁ _).registeredAt_iff _).mp hreg
    rcases hsince.resolve_left (by simp [hlive]) with hlt | ⟨-, hnone | ⟨st', hst', hrest⟩⟩
    · exact absurd (hsame.trans hgen) (Nat.ne_of_gt hlt)
    · simp [hnone] at hnode
    obtain rfl : st = st' := some.inj (hst.symm.trans hst')
    have hflight : st.inFlight = st₀.inFlight ∨ st.inFlight = "" := by
      rcases hrest with hlt | ⟨-, hf⟩
      · exact absurd (hepoch.trans hepoch₀) (Nat.ne_of_gt hlt)
      · exact hf
    have hcommitted : st.committed = st₀.committed := hc.trans hc₀
    refine .inr ⟨st, hst, hstale.wellFormed, hstrict, hcommitted ▸ hstale.committed,
      hcommitted ▸ hstale.unseen, ?_⟩
    rcases hflight with hf | hf
    · exact hf ▸ hstale.inFlight
    · exact .inl hf

/-- From the grant on, for as long as the lease is not released. -/
theorem dead_of_lease {s s' : System} {lease : CleanupLease} (hgood : s.AllGood)
    (hl : lease ∈ s.cleanups) (hd : Dead uris (s.reporter lease.key))
    (hsteps : eventReports.Steps (Keeps lease) s s') :
    Dead uris (s'.reporter lease.key) ∧ s'.backend.type = s.backend.type := by
  have hinv := hsteps.preserve
    (P := fun t => t.AllGood ∧ lease ∈ t.cleanups ∧
      Dead uris (t.reporter lease.key) ∧ t.backend.type = s.backend.type)
    (fun t a t' ⟨hgood, hl, hd, ht⟩ hok hstep => ⟨good_step hgood hstep,
      cleanup_kept hgood hl hok hstep, dead_step hgood hl hstep hd,
      (backend_step hgood hstep).2.trans ht⟩)
    ⟨hgood, hl, hd, rfl⟩
  exact hinv.2.2

theorem probe_of_batch {probes : List MaintenanceLocationProbe} {i : Nat}
    {result : MaintenanceLocationProbeResult} (hi : probes[i]? = some probe)
    (hr : (b.probeLocationsForMaintenance probes nowMs)[i]? = some result) :
    result = b.probeLocation probe nowMs := by
  simpa [probeLocationsForMaintenance, hi] using hr.symm

/-- A location that a batch of probes answers "delete" for is not readable
then; and from the moment a cleanup lease is granted for the answer, whatever
has happened since and whatever happens, it is not readable until that lease
is released. -/
theorem cleanup_spares_readable :
    (∀ (b : EventReportBackend) (probes : List MaintenanceLocationProbe) (nowMs : Int) (i : Nat)
        (instanceId : String) (location : CacheLocation) (result : MaintenanceLocationProbeResult),
      probes[i]? = some (probeOf instanceId location) →
      (b.probeLocationsForMaintenance probes nowMs)[i]? = some result →
      result.decision = .deleteMetadata → b.readable instanceId location = false) ∧
    ∀ (s₀ s₁ s₂ s : System) (probes : List MaintenanceLocationProbe) (nowMs nowMs' : Int)
        (i id : Nat) (instanceId : String) (location : CacheLocation)
        (result : MaintenanceLocationProbeResult),
      eventReports.Reach anyAction s₀ →
      probes[i]? = some (probeOf instanceId location) →
      (s₀.backend.probeLocationsForMaintenance probes nowMs)[i]? = some result →
      result.decision = .deleteMetadata →
      eventReports.Steps anyAction s₀ s₁ →
      (s₁.backend.acquireMaintenanceCleanupLease result.token nowMs').1 = .acquired →
      eventReports.step s₁ (.acquireCleanup id result.token nowMs') = some s₂ →
      eventReports.Steps (Keeps ⟨id, result.token.reporterKey⟩) s₂ s →
      s.backend.readable instanceId location = false := by
  refine ⟨fun b probes nowMs i instanceId location result hi hr hdel => ?_,
    fun s₀ s₁ s₂ s probes nowMs nowMs' i id instanceId location result h₀ hi hr hdel hsteps hacq
      hstep hheld => ?_⟩
  · rw [probe_of_batch hi hr] at hdel
    obtain ⟨medium, host, hid, r, token, rfl, -, -, hseen⟩ := probe_delete hdel
    refine not_readable_of_dead hid ?_
    rcases hseen with ⟨hnone, -⟩ | ⟨state, hst, hstale, -⟩
    · exact .inl hnone
    · exact .inr ⟨state, hst, hstale⟩
  · have hgood₀ := (gated_of_reach h₀).good
    have hres := probe_of_batch hi hr
    rw [hres] at hdel
    obtain ⟨medium, host, hid, r, token, rfl, htoken, hkey, hseen⟩ := probe_delete hdel
    rw [← hres] at htoken
    rw [← htoken] at hacq hstep hheld
    -- the type of the backend, and with it the reporter of the id, never changes
    obtain ⟨hgood₁, htype₁⟩ := hsteps.preserve
      (P := fun t => t.AllGood ∧ t.backend.type = s₀.backend.type)
      (fun t a t' ht _ hstep => ⟨good_step ht.1 hstep, (backend_step ht.1 hstep).2.trans ht.2⟩)
      ⟨hgood₀, rfl⟩
    have hdead₁ := dead_of_acquired hgood₀ hkey hseen hsteps hacq
    have hstep' : s₁.step (.acquireCleanup id token nowMs') = some s₂ := hstep
    have hgood₂ := good_step hgood₁ hstep'
    have htype₂ := (backend_step hgood₁ hstep').2
    obtain ⟨-, out, rfl, hs₂⟩ := step_acquireCleanup hstep'
    have hlease : (⟨id, token.reporterKey⟩ : CleanupLease) ∈ s₂.cleanups := by
      simp [hs₂, hacq]
    have hdead₂ : Dead (location.locationSpecs.map (·.uri)) (s₂.reporter token.reporterKey) := by
      obtain ⟨hm, hp⟩ := moves_acquireMaintenanceCleanupLease (hgood₁ token.reporterKey) nowMs'
      have hput : s₂.reporter token.reporterKey
          = (s₁.backend.acquireMaintenanceCleanupLease token nowMs').2 := by
        rw [hs₂]
        exact reporter_put_self s₁ _ _
      rw [hput]
      rw [← hkey] at hdead₁
      exact hdead₁.pinned (hgood₁ token.reporterKey) hm hp
    obtain ⟨hdead, htype⟩ := dead_of_lease hgood₂ hlease hdead₂ hheld
    have hid' : parseLocationId s.backend.type location.id = some (medium, host) := by
      rw [htype, htype₂, htype₁]
      exact hid
    exact not_readable_of_dead hid' (hkey ▸ hdead)

/-- A location of a reporter that has gone down, and the token of its probe. -/
def goneLocation : CacheLocation :=
  { id := "kvs#event_report_l2#mem#h:1", type := .eventReportL2, status := .serving
    locationSpecs := [{ name := "s", uri := "kvs://h:1/b" }] }

def goneToken : MaintenanceCleanupToken :=
  { reason := .downHost, reporterKey := host, lifecycleGeneration := 1 }

/-- A HOST_DOWN, the probe, the lease; then the reporter tries to go on. -/
theorem cleanup_spares_readable_run :
    ∃ s, eventReports.Reach anyAction s ∧ (⟨7, host⟩ : CleanupLease) ∈ s.cleanups ∧
      s.backend.readable "i" goneLocation = false := by
  obtain ⟨s₀, hrun, hprobe, s₂, hacq, hstep, hlast⟩ : ∃ s₀,
      eventReports.run (.start (openBackend .eventReportL2))
        [.register host [] 100, .hostDown host] = some s₀ ∧
      s₀.backend.probeLocationsForMaintenance [probeOf "i" goneLocation] 200 =
        [{ decision := .deleteMetadata, token := goneToken }] ∧
      ∃ s₂, (s₀.backend.acquireMaintenanceCleanupLease goneToken 300).1 = .acquired ∧
        eventReports.step s₀ (.acquireCleanup 7 goneToken 300) = some s₂ ∧
        s₂.cleanups = [⟨7, host⟩] :=
    ⟨_, rfl, rfl, _, rfl, rfl, rfl⟩
  have hreach := reach_of_run (m := eventReports) ⟨_, rfl, rfl⟩ hrun
  refine ⟨s₂, hreach.steps (Relation.ReflTransGen.single ⟨_, trivial, hstep⟩), by simp [hlast], ?_⟩
  exact cleanup_spares_readable.2 s₀ s₀ s₂ s₂ [probeOf "i" goneLocation] 200 300 0 7 "i" goneLocation
    { decision := .deleteMetadata, token := goneToken } hreach rfl (by simp [hprobe]) rfl
    Relation.ReflTransGen.refl hacq hstep Relation.ReflTransGen.refl

end TairKvCache.EventReport
