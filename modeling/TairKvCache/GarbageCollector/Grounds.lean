import TairKvCache.GarbageCollector.Candidates

/-!
# What the collector deletes

Every target of the two requests of a tick stands on the page the tick has
read, under its own id, with the value a conditional delete expects, and there
are grounds for it: a location in writing that outlived the grace period and
is no copy's target, a serving one with a URI that its storage does not have,
or one its event-report backend gives up. A storage is asked about many URIs
at once; `Scanned.Traced` follows each of them back to its location.
-/

namespace TairKvCache.GarbageCollector

open EventReport Lib List

/-- The page holds the location, read without error and under its own id. -/
def MaintenanceScanBatch.Holds (batch : MaintenanceScanBatch) (k : CandidateKey)
    (l : CacheLocation) : Prop :=
  ∃ m, (k.1, m, ErrorCode.ok) ∈ batch.keys.zip (batch.locations.zip batch.locationResults) ∧
    ⟨k.2, l⟩ ∈ m.entries ∧ l.id = k.2

def Orphan (cfg : Config) (env : BuildEnv) (k : CandidateKey) (l : CacheLocation) : Prop :=
  isOrphanWriting cfg k.2 l env.nowUs = true ∧ env.hasActiveCopyTarget k.1 k.2 = false

/-- A registered storage of the location's type has answered that it does not
have one of its URIs. -/
def Missing (env : BuildEnv) (l : CacheLocation) : Prop :=
  l.status = .serving ∧ isEventReportStorageType l.type = false ∧
    ∃ spec ∈ l.locationSpecs, ∃ uri, uri = StandardUri.parse spec.uri ∧
      env.storageType uri.hostname = some l.type ∧
      ∃ offset uris answers, env.mightExist uri.hostname l.type offset uris = some answers ∧
        (uri, false) ∈ uris.zip answers

def GivenUp (env : BuildEnv) (instanceId : String) (l : CacheLocation)
    (token : MaintenanceCleanupToken) : Prop :=
  l.status = .serving ∧ isEventReportStorageType l.type = true ∧
    ∃ offset probes results r, env.probe l.type offset probes = some results ∧
      (probeOf instanceId l, r) ∈ probes.zip results ∧
      r.decision = .deleteMetadata ∧ r.token = token

section

variable (cfg : Config) (env : BuildEnv) (batch : MaintenanceScanBatch) (instanceId : String)

def ExecutorTarget (k : CandidateKey) (value : CacheLocation.Json) : Prop :=
  ∃ l, batch.Holds k l ∧ value = l.toJsonString ∧ (Orphan cfg env k l ∨ Missing env l)

def EventReportTarget (k : CandidateKey) (value : CacheLocation.Json)
    (token : MaintenanceCleanupToken) : Prop :=
  ∃ l, batch.Holds k l ∧ value = l.toJsonString ∧ GivenUp env instanceId l token

def Justified (p : CandidateKey × DeleteCandidate) : Prop :=
  match p.2.eventReport with
  | none => ExecutorTarget cfg env batch p.1 p.2.expectedLocationValue
  | some r => isEventReportReason p.2.reason = true ∧
    EventReportTarget env batch instanceId p.1 p.2.expectedLocationValue r.2

/-! ## The scan -/

/-- What the scan loop has collected comes from the page. -/
structure Scanned.Traced (s : Scanned) : Prop where
  candidates : ∀ p ∈ s.candidates, Justified cfg env batch instanceId p
  serving : ∀ p ∈ s.servingProbes, batch.Holds p.key p.location ∧
    p.location.status = .serving ∧ isEventReportStorageType p.location.type = false
  uris : ∀ u ∈ s.uriProbes, ∃ p, s.servingProbes[u.servingProbeIndex]? = some p ∧
    u.storageType = p.location.type ∧ u.storageName = u.uri.hostname ∧
    ∃ spec ∈ p.location.locationSpecs, u.uri = StandardUri.parse spec.uri
  eventReport : ∀ e ∈ s.eventReportEntries, batch.Holds e.key e.location ∧
    e.location.status = .serving ∧ isEventReportStorageType e.location.type = true

variable {cfg env batch instanceId} {cs : Candidates} {s : Scanned}

theorem mem_emplace {key : CandidateKey} {c : DeleteCandidate} {p : CandidateKey × DeleteCandidate}
    (h : p ∈ cs.emplace key c) : p ∈ cs ∨ p = (key, c) := by
  unfold Candidates.emplace at h
  split_ifs at h
  · exact .inl h
  · exact (mem_append.mp h).imp_right mem_singleton.mp

theorem forall_foldl_emplace {P : CandidateKey × DeleteCandidate → Prop} {α : Type} {l : List α}
    {key : α → CandidateKey} {c : α → DeleteCandidate} (h : ∀ p ∈ cs, P p)
    (hl : ∀ a ∈ l, P (key a, c a)) :
    ∀ p ∈ l.foldl (fun cs a => cs.emplace (key a) (c a)) cs, P p := by
  refine foldlRecOn (motive := fun cs : Candidates => ∀ p ∈ cs, P p) l _ h fun cs hcs a ha p hp => ?_
  rcases mem_emplace hp with hp | rfl
  · exact hcs p hp
  · exact hl a ha

theorem Scanned.Traced.onLocation (h : s.Traced cfg env batch instanceId) {k : KeyType}
    {id : LocationId} {l : CacheLocation}
    (hl : ¬(id = "" || l.id = "" || id ≠ l.id) = true → batch.Holds (k, id) l) :
    (s.onLocation cfg env k id l).Traced cfg env batch instanceId := by
  unfold Scanned.onLocation
  split_ifs with hid horphan hcopy hstatus htype henabled
  · exact h
  · exact h
  · refine { h with candidates := fun p hp => ?_ }
    rcases mem_emplace hp with hp | rfl
    · exact h.candidates p hp
    · show ExecutorTarget cfg env batch _ _
      exact ⟨l, hl hid, rfl, .inl ⟨horphan, by simpa using hcopy⟩⟩
  · exact h
  · exact h
  · simp only [Bool.or_eq_true, decide_eq_true_eq, not_or, not_not] at hstatus
    split
    · refine { h with eventReport := fun e he => ?_ }
      rcases mem_append.mp he with he | he
      · exact h.eventReport e he
      · rw [mem_singleton.mp he]
        exact ⟨hl hid, hstatus.1, htype⟩
    all_goals exact h
  · simp only [Bool.or_eq_true, decide_eq_true_eq, not_or, not_not] at hstatus
    dsimp only
    split_ifs
    · exact h
    · refine { h with serving := fun p hp => ?_, uris := fun u hu => ?_ }
      · rcases mem_append.mp hp with hp | hp
        · exact h.serving p hp
        · rw [mem_singleton.mp hp]
          exact ⟨hl hid, hstatus.1, by simpa using htype⟩
      · rcases mem_append.mp hu with hu | hu
        · obtain ⟨p, hp, hrest⟩ := h.uris u hu
          have hlt := (List.getElem?_eq_some_iff.mp hp).1
          exact ⟨p, by rw [getElem?_append_left hlt, hp], hrest⟩
        · obtain ⟨uri, huri, rfl⟩ := mem_map.mp hu
          obtain ⟨spec, hspec, rfl⟩ := mem_map.mp (mem_of_mem_filter huri)
          exact ⟨_, getElem?_concat_length, rfl, rfl, spec, hspec, rfl⟩

theorem scanBatch_traced : (scanBatch cfg env batch).Traced cfg env batch instanceId := by
  refine foldlRecOn _ _ ⟨by simp, by simp, by simp, by simp⟩ fun s hs row hrow => ?_
  unfold Scanned.onKey
  split_ifs with hok
  · exact hs
  · rw [not_not] at hok
    refine foldlRecOn _ _ hs fun s hs e he => hs.onLocation fun hid => ⟨row.2.1, ?_, he, ?_⟩
    · rwa [← hok]
    · simp only [Bool.or_eq_true, decide_eq_true_eq, not_or, not_not] at hid
      exact hid.2.symm

/-! ## The candidates -/

theorem mem_probeChunks {α β γ : Type} {ask : Nat → List α → Option (List β)}
    {read : α → β → Option γ} {fuel offset : Nat} {items : List α} {x : γ}
    (h : x ∈ probeChunks ask read fuel offset items) : ∃ offset chunk answers a b,
      ask offset chunk = some answers ∧ (a, b) ∈ chunk.zip answers ∧ a ∈ items ∧
        read a b = some x := by
  induction fuel generalizing offset items with
  | zero => cases h
  | succ fuel ih =>
    rw [probeChunks] at h
    split_ifs at h
    · cases h
    · dsimp only at h
      split at h
      · cases h
      · rename_i answers hask
        rcases mem_append.mp h with h | h
        · split_ifs at h
          · cases h
          · obtain ⟨⟨a, b⟩, hab, hread⟩ := mem_filterMap.mp h
            exact ⟨_, _, answers, a, b, hask, hab, mem_of_mem_take (of_mem_zip hab).1, hread⟩
        · obtain ⟨o, chunk, as, a, b, hask', hab, ha, hread⟩ := ih h
          exact ⟨o, chunk, as, a, b, hask', hab, mem_of_mem_drop ha, hread⟩

theorem Scanned.Traced.missing (h : s.Traced cfg env batch instanceId) {i : Nat}
    (hi : i ∈ s.missing env) {p : ServingProbe} (hp : s.servingProbes[i]? = some p) :
    Missing env p.location := by
  obtain ⟨-, hserving, htype⟩ := h.serving p (mem_of_getElem? hp)
  obtain ⟨storage, -, hon⟩ := mem_flatMap.mp hi
  unfold Scanned.missingOn at hon
  split_ifs at hon with hstorage
  · cases hon
  · obtain ⟨offset, chunk, answers, u, exist, hask, hzip, hu, hread⟩ := mem_probeChunks hon
    obtain ⟨hmem, heq⟩ := mem_filter.mp hu
    obtain rfl := of_decide_eq_true heq
    cases exist with
    | true => cases hread
    | false =>
      obtain rfl := Option.some.inj hread
      obtain ⟨p', hp', htype', hname, spec, hspec, huri⟩ := h.uris u hmem
      obtain rfl := Option.some.inj (hp.symm.trans hp')
      rw [not_not] at hstorage
      dsimp only at hstorage hask
      rw [hname, htype'] at hstorage hask
      refine ⟨hserving, htype, spec, hspec, u.uri, huri, hstorage, offset, _, answers, hask, ?_⟩
      rw [zip_map_left]
      exact mem_map.mpr ⟨_, hzip, rfl⟩

theorem Scanned.Traced.stale (h : s.Traced cfg env batch instanceId)
    {p : EventReportProbeEntry × MaintenanceCleanupToken} (hp : p ∈ s.stale env instanceId) :
    batch.Holds p.1.key p.1.location ∧ GivenUp env instanceId p.1.location p.2 := by
  obtain ⟨type, -, hon⟩ := mem_flatMap.mp hp
  obtain ⟨offset, chunk, results, e, r, hask, hzip, he, hread⟩ := mem_probeChunks hon
  obtain ⟨hmem, heq⟩ := mem_filter.mp he
  obtain rfl := of_decide_eq_true heq
  obtain ⟨hholds, hserving, htype⟩ := h.eventReport e hmem
  split_ifs at hread with hdecision
  obtain rfl := Option.some.inj hread
  refine ⟨hholds, hserving, htype, offset, _, results, r, hask, ?_, hdecision, rfl⟩
  rw [zip_map_left]
  exact mem_map.mpr ⟨_, hzip, rfl⟩

theorem Scanned.Traced.allCandidates (h : s.Traced cfg env batch instanceId) :
    ∀ p ∈ s.allCandidates env instanceId, Justified cfg env batch instanceId p := by
  refine forall_foldl_emplace (forall_foldl_emplace h.candidates fun q hq => ?_) fun q hq => ?_
  · obtain ⟨hholds, hgiven⟩ := h.stale hq
    refine ⟨?_, q.1.location, hholds, rfl, hgiven⟩
    dsimp only
    cases q.2.reason <;> rfl
  · obtain ⟨hmem, hmissing⟩ := mem_filter.mp hq
    have hget := mem_zipIdx_iff_getElem?.mp hmem
    show ExecutorTarget cfg env batch _ _
    exact ⟨_, (h.serving _ (mem_of_getElem? hget)).1, rfl,
      .inr (h.missing (of_decide_eq_true hmissing) hget)⟩

/-! ## The requests -/

variable (cfg env batch instanceId)

structure Selection.Grounded (s : Selection) : Prop where
  executor : ∀ p ∈ s.executorTargets.pairs, ExecutorTarget cfg env batch (p.1, p.2.1) p.2.2
  eventReport : ∀ p ∈ s.eventReportTargets.pairs, EventReportTarget env batch instanceId
    (p.1, p.2.locationId) p.2.expectedLocationValue p.2.cleanupToken

theorem select_grounded (pending : Finset PendingLocationKey)
    (h : ∀ p ∈ cs, Justified cfg env batch instanceId p) :
    (select cfg pending instanceId cs).Grounded cfg env batch instanceId := by
  refine foldlRecOn _ _ ⟨by simp, by simp⟩ fun s hs c hc => ?_
  have hjust := h c ((mem_insertionSort _).mp hc)
  unfold Justified at hjust
  unfold Selection.onCandidate
  split_ifs with hpending hfull hreason hbudget
  · exact hs
  · exact hs
  · exact hs
  · split
    · exact hs
    · rename_i backend token hreport
      rw [hreport] at hjust
      refine ⟨hs.executor, fun p hp => ?_⟩
      rcases mem_cons.mp ((OrdMap.push_perm _ _ _).mem_iff.mp hp) with rfl | hp
      · exact hjust.2
      · exact hs.eventReport p hp
  · refine ⟨fun p hp => ?_, hs.eventReport⟩
    rcases mem_cons.mp ((OrdMap.push_perm _ _ _).mem_iff.mp hp) with rfl | hp
    · split at hjust
      · exact hjust
      · exact absurd hjust.1 hreason
    · exact hs.executor p hp

/-- There are grounds for every target of a tick's two requests. -/
theorem buildDeleteActions_grounded (pending : Finset PendingLocationKey) :
    ∃ actions, actions = buildDeleteActions cfg env pending instanceId batch ∧
      (∀ row ∈ actions.executorRequest.blockKeys.zip (actions.executorRequest.locationIds.zip
        actions.executorRequest.expectedLocationValues), ∀ t ∈ row.2.1.zip row.2.2,
          ExecutorTarget cfg env batch (row.1, t.1) t.2) ∧
      ∀ row ∈ actions.eventReportRequest.blockKeys.zip actions.eventReportRequest.targets,
        ∀ t ∈ row.2, EventReportTarget env batch instanceId (row.1, t.locationId)
          t.expectedLocationValue t.cleanupToken := by
  refine ⟨_, rfl, ?_⟩
  unfold buildDeleteActions
  split_ifs
  · exact ⟨by simp [Selection.actions], by simp [Selection.actions]⟩
  · have htraced : (scanBatch cfg env batch).Traced cfg env batch instanceId := scanBatch_traced
    have hselected := select_grounded cfg env batch instanceId pending htraced.allCandidates
    simp only [Selection.actions, zip_map']
    refine ⟨fun row hrow t ht => ?_, fun row hrow t ht => ?_⟩
    · obtain ⟨e, he, rfl⟩ := mem_map.mp hrow
      have ht' : t ∈ e.2 := by simpa [zip_map'] using ht
      exact hselected.executor (e.1, t) (mem_flatMap.mpr ⟨e, he, mem_map.mpr ⟨t, ht', rfl⟩⟩)
    · obtain ⟨e, he, rfl⟩ := mem_map.mp hrow
      exact hselected.eventReport (e.1, t) (mem_flatMap.mpr ⟨e, he, mem_map.mpr ⟨t, ht, rfl⟩⟩)

end

end TairKvCache.GarbageCollector
