import TairKvCache.Lib.Machine
import TairKvCache.Lib.Owned
import TairKvCache.GarbageCollector.Collector

/-!
# Pending locations are the targets in flight

The collector keeps two views of its outstanding work: the list of actions in
flight, each with its targets, and the set of pending locations that keeps a
location from being chosen again. Over every sequence of ticks the set is the
disjoint union of the lists, no target of an accepted action is dropped from
its list, and the number of actions stays within the configured limit.

The argument has two halves. The candidates of a tick have distinct keys
(`allCandidates_distinct`), the selection turns each into at most one target
and skips pending ones (`select_spec`), so the two requests of a tick never
name a pending location or the same location twice. And tracking fresh
targets adds exactly them to both views (`submitAndTrack_tracked`), while a
poll takes an action and its targets out of both (`poll_spec`).
-/

namespace TairKvCache.GarbageCollector

open List Collector

open EventReport Lib

/-! ## Candidates have distinct keys -/

def Candidates.Distinct (cs : Candidates) : Prop := (cs.map Prod.fst).Nodup

variable {cs : Candidates} {cfg : Config} {env : TickEnv} {s : Collector}
    {pending : Finset PendingLocationKey} {targets : List PendingLocationKey}

theorem Candidates.Distinct.emplace (h : cs.Distinct) (key : CandidateKey) (c : DeleteCandidate) :
    (cs.emplace key c).Distinct := by
  unfold Candidates.emplace
  split_ifs with hmem
  · exact h
  · unfold Candidates.Distinct
    rw [map_append, map_singleton]
    refine nodup_append.mpr ⟨h, nodup_singleton _, fun a ha b hb hab => hmem ?_⟩
    obtain rfl : b = key := mem_singleton.mp hb
    exact hab ▸ ha

theorem Candidates.Distinct.foldl_emplace {α : Type} (h : cs.Distinct) (key : α → CandidateKey)
    (c : α → DeleteCandidate) (l : List α) :
    (l.foldl (fun cs a => cs.emplace (key a) (c a)) cs).Distinct := by
  induction l generalizing cs with
  | nil => exact h
  | cons a l ih => exact ih (h.emplace (key a) (c a))

theorem onLocation_distinct {env : BuildEnv} {s : Scanned} (h : s.candidates.Distinct)
    (blockKey : KeyType) (id : LocationId) (l : CacheLocation) :
    (s.onLocation cfg env blockKey id l).candidates.Distinct := by
  unfold Scanned.onLocation
  split_ifs
  · exact h
  · exact h
  · exact h.emplace _ _
  · exact h
  · exact h
  · split <;> exact h
  · dsimp only
    split_ifs <;> exact h

theorem onKey_distinct {env : BuildEnv} {s : Scanned} (h : s.candidates.Distinct)
    (blockKey : KeyType) (m : CacheLocationMap) (ec : ErrorCode) :
    (s.onKey cfg env blockKey m ec).candidates.Distinct := by
  unfold Scanned.onKey
  split_ifs
  · exact h
  · induction m.entries generalizing s with
    | nil => exact h
    | cons e l ih => exact ih (onLocation_distinct h blockKey e.1 e.2)

theorem scanBatch_distinct (cfg : Config) (env : BuildEnv) (batch : MaintenanceScanBatch) :
    (scanBatch cfg env batch).candidates.Distinct := by
  unfold scanBatch
  have hstart : ({} : Scanned).candidates.Distinct := nodup_nil
  generalize ({} : Scanned) = s at hstart ⊢
  induction batch.keys.zip (batch.locations.zip batch.locationResults) generalizing s with
  | nil => exact hstart
  | cons row rows ih => exact ih _ (onKey_distinct hstart row.1 row.2.1 row.2.2)

theorem allCandidates_distinct {s : Scanned} (h : s.candidates.Distinct) (env : BuildEnv)
    (instanceId : String) : (s.allCandidates env instanceId).Distinct :=
  (h.foldl_emplace _ _ _).foldl_emplace _ _ _

/-! ## The selection -/

def Selection.keys (s : Selection) : List CandidateKey :=
  s.executorTargets.pairs.map (fun p => (p.1, p.2.1)) ++
    s.eventReportTargets.pairs.map fun p => (p.1, p.2.locationId)

/-- A candidate is passed over, or it was not pending and is selected. -/
theorem onCandidate_cases (cfg : Config) (pending : Finset PendingLocationKey)
    (instanceId : String) (s : Selection) (c : CandidateKey × DeleteCandidate) :
    s.onCandidate cfg pending instanceId c = s ∨
      (⟨instanceId, c.1.1, c.1.2⟩ ∉ pending ∧
        (s.onCandidate cfg pending instanceId c).keys.Perm (c.1 :: s.keys)) := by
  unfold Selection.onCandidate
  split_ifs with hpending hfull hreason hbudget
  · exact .inl rfl
  · exact .inl rfl
  · exact .inl rfl
  · split
    · exact .inl rfl
    · refine .inr ⟨hpending, ?_⟩
      exact (((OrdMap.push_perm _ _ _).map _).append_left _).trans perm_middle
  · refine .inr ⟨hpending, ?_⟩
    exact ((OrdMap.push_perm _ _ _).map _).append_right _

/-- What is selected: no key twice, only candidates, none of them pending. -/
structure Chosen (pending : Finset PendingLocationKey) (instanceId : String)
    (cs : Candidates) (s : Selection) : Prop where
  nodup : s.keys.Nodup
  among : ∀ k ∈ s.keys, k ∈ cs.map Prod.fst
  fresh : ∀ k ∈ s.keys, ⟨instanceId, k.1, k.2⟩ ∉ pending

theorem select_loop (cfg : Config) {instanceId : String} {before after : Candidates}
    (hd : Candidates.Distinct (before ++ after)) {s : Selection}
    (h : Chosen pending instanceId before s) : Chosen pending instanceId (before ++ after)
      (after.foldl (Selection.onCandidate cfg pending instanceId) s) := by
  induction after generalizing before s with
  | nil => simpa using h
  | cons c after ih =>
    have hassoc : before ++ c :: after = (before ++ [c]) ++ after := by simp
    rw [hassoc] at hd ⊢
    refine ih hd ?_
    have hnew : c.1 ∉ before.map Prod.fst := by
      intro hmem
      have hd' : ((before ++ [c]).map Prod.fst).Nodup := by
        rw [Candidates.Distinct, map_append] at hd
        exact hd.of_append_left
      rw [map_append] at hd'
      exact (nodup_append.mp hd').2.2 _ hmem c.1 (by simp) rfl
    rcases onCandidate_cases cfg pending instanceId s c with heq | ⟨hpending, hperm⟩
    · rw [heq]
      exact ⟨h.nodup, fun k hk => by simp [h.among k hk], h.fresh⟩
    · refine ⟨hperm.nodup_iff.mpr (nodup_cons.mpr ⟨fun hk => hnew (h.among _ hk), h.nodup⟩),
        fun k hk => ?_, fun k hk => ?_⟩
      · rcases mem_cons.mp (hperm.mem_iff.mp hk) with rfl | hk
        · simp
        · simp [h.among k hk]
      · rcases mem_cons.mp (hperm.mem_iff.mp hk) with rfl | hk
        · exact hpending
        · exact h.fresh k hk

theorem select_spec (cfg : Config) (pending : Finset PendingLocationKey) (instanceId : String)
    (hd : cs.Distinct) : (select cfg pending instanceId cs).keys.Nodup ∧
      ∀ k ∈ (select cfg pending instanceId cs).keys, ⟨instanceId, k.1, k.2⟩ ∉ pending := by
  have hsorted : Candidates.Distinct
      ([] ++ cs.insertionSort fun a b => candidateBefore a b = true) :=
    ((perm_insertionSort _ cs).map _).nodup_iff.mpr hd
  have hnone : ∀ k, k ∉ ({} : Selection).keys := nofun
  have hstart : Chosen pending instanceId [] {} :=
    ⟨nodup_nil, fun k hk => absurd hk (hnone k), fun k hk => absurd hk (hnone k)⟩
  have h := select_loop cfg hsorted hstart
  exact ⟨h.nodup, h.fresh⟩

/-! ## The two requests of a tick -/

theorem physicalTargets_actions (s : Selection) (instanceId : String) :
    physicalTargets instanceId (s.actions instanceId).executorRequest
      = (s.executorTargets.pairs.map fun p => (p.1, p.2.1)).map
          fun k => ⟨instanceId, k.1, k.2⟩ := by
  simp only [physicalTargets, Selection.actions, zip_map', OrdMap.pairs, flatMap_map,
    map_flatMap, map_map]
  rfl

theorem eventReportTargets_actions (s : Selection) (instanceId : String) :
    eventReportTargets instanceId (s.actions instanceId).eventReportRequest
      = (s.eventReportTargets.pairs.map fun p => (p.1, p.2.locationId)).map
          fun k => ⟨instanceId, k.1, k.2⟩ := by
  simp only [eventReportTargets, Selection.actions, zip_map', OrdMap.pairs,
    flatMap_map, map_flatMap, map_map]
  rfl

/-- The targets of both requests are distinct and none is pending. -/
theorem buildDeleteActions_fresh (cfg : Config) (env : BuildEnv)
    (pending : Finset PendingLocationKey) (instanceId : String) (batch : MaintenanceScanBatch) :
    ∃ actions, actions = buildDeleteActions cfg env pending instanceId batch ∧
      (physicalTargets instanceId actions.executorRequest ++
        eventReportTargets instanceId actions.eventReportRequest).Nodup ∧
      ∀ t ∈ physicalTargets instanceId actions.executorRequest ++
        eventReportTargets instanceId actions.eventReportRequest, t ∉ pending := by
  refine ⟨_, rfl, ?_⟩
  unfold buildDeleteActions
  split_ifs
  · simp [physicalTargets_actions, eventReportTargets_actions]
  · obtain ⟨hnd, hfresh⟩ := select_spec cfg pending instanceId
      (allCandidates_distinct (scanBatch_distinct cfg env batch) env instanceId)
    rw [physicalTargets_actions, eventReportTargets_actions, ← map_append]
    refine ⟨hnd.map fun k k' hk => ?_, fun t ht => ?_⟩
    · rw [PendingLocationKey.mk.injEq] at hk
      exact Prod.ext hk.2.1 hk.2.2
    · obtain ⟨k, hk, rfl⟩ := mem_map.mp ht
      exact hfresh k hk

/-! ## The two views -/

def inflightTargets (ds : List InflightDelete) : List PendingLocationKey :=
  ds.flatMap (·.pendingLocations)

/-- The pending set is the disjoint union of the targets in flight, every
action tracks all of its targets, and there are at most `limit` actions. -/
structure Tracked (limit : Nat) (ds : List InflightDelete)
    (pending : Finset PendingLocationKey) : Prop where
  nodup : (inflightTargets ds).Nodup
  pending_eq : pending = (inflightTargets ds).toFinset
  counted : ∀ d ∈ ds, d.targetCount = d.pendingLocations.length
  bounded : ds.length ≤ limit

/-- A poll keeps some of the actions and exactly their targets; `other` are
the targets of the actions already passed. -/
theorem pollInflightDeletes_spec (env : TickEnv) (other : List PendingLocationKey)
    (ds : List InflightDelete) (hnd : (other ++ inflightTargets ds).Nodup) :
    ∃ out, out = pollInflightDeletes env ds (other ++ inflightTargets ds).toFinset ∧
      out.1.Sublist ds ∧ out.2 = (other ++ inflightTargets out.1).toFinset := by
  induction ds generalizing other with
  | nil => exact ⟨_, rfl, List.Sublist.refl _, rfl⟩
  | cons d ds ih =>
    have hcons : inflightTargets (d :: ds) = d.pendingLocations ++ inflightTargets ds := rfl
    rw [hcons] at hnd ⊢
    have hkeep : ∃ out, out = pollInflightDeletes env ds
          (other ++ (d.pendingLocations ++ inflightTargets ds)).toFinset ∧
        out.1.Sublist ds ∧
        out.2 = (other ++ (d.pendingLocations ++ inflightTargets out.1)).toFinset := by
      simpa only [append_assoc] using
        ih (other ++ d.pendingLocations) (by rwa [append_assoc])
    have hdrop : releasePendingLocations
          (other ++ (d.pendingLocations ++ inflightTargets ds)).toFinset d
        = (other ++ inflightTargets ds).toFinset := release_owned_middle hnd
    have hrest : (other ++ inflightTargets ds).Nodup :=
      hnd.sublist ((sublist_append_right _ _).append_left _)
    rw [pollInflightDeletes]
    split
    · obtain ⟨out, hout, hsub, heq⟩ := hkeep
      exact ⟨_, rfl, by rw [← hout]; exact hsub.cons_cons d, by rw [← hout]; exact heq⟩
    all_goals
      rw [hdrop]
      obtain ⟨out, hout, hsub, heq⟩ := ih other hrest
      exact ⟨out, hout, hsub.cons d, heq⟩

theorem Tracked.sublist {limit : Nat} {ds ds' : List InflightDelete} (h : Tracked limit ds pending)
    (hsub : ds'.Sublist ds) : Tracked limit ds' (inflightTargets ds').toFinset :=
  ⟨h.nodup.sublist (List.Sublist.flatMap hsub _), rfl, fun d hd => h.counted d (hsub.subset hd),
    hsub.length_le.trans h.bounded⟩

theorem poll_tracked {limit : Nat} (h : Tracked limit s.inflightDeletes s.pendingLocations)
    (env : TickEnv) : Tracked limit (s.poll env).inflightDeletes (s.poll env).pendingLocations := by
  obtain ⟨out, hout, hsub, heq⟩ := pollInflightDeletes_spec env [] s.inflightDeletes h.nodup
  rw [nil_append, ← h.pending_eq] at hout
  rw [nil_append] at heq
  have hpoll : Tracked limit out.1 out.2 := by
    rw [heq]
    exact h.sublist hsub
  rw [hout] at hpoll
  exact hpoll

/-- Fresh targets are inserted one by one, up to the one that throws. -/
theorem trackTargets_fresh (failsAt : Option Nat) (hnd : targets.Nodup)
    (hfresh : ∀ t ∈ targets, t ∉ pending) (tracked : List PendingLocationKey) :
    ∃ n thrown, trackTargets failsAt targets pending tracked
        = (pending ∪ (targets.take n).toFinset, tracked ++ targets.take n, thrown) ∧
      (thrown = false → targets.take n = targets) := by
  induction targets generalizing failsAt pending tracked with
  | nil =>
    refine ⟨0, false, ?_, fun _ => rfl⟩
    simp [trackTargets]
  | cons t ts ih =>
    obtain ⟨ht, hnd'⟩ := nodup_cons.mp hnd
    have htp : t ∉ pending := hfresh t mem_cons_self
    have hstep : ∃ n thrown, trackTargets (failsAt.map (· - 1)) ts (insert t pending)
          (tracked ++ [t])
        = (pending ∪ ((t :: ts).take n).toFinset, tracked ++ (t :: ts).take n, thrown) ∧
        (thrown = false → (t :: ts).take n = t :: ts) := by
      have hfresh' : ∀ a ∈ ts, a ∉ insert t pending := by
        intro a ha hmem
        rcases Finset.mem_insert.mp hmem with rfl | hmem
        · exact ht ha
        · exact hfresh a (mem_cons_of_mem _ ha) hmem
      obtain ⟨n, thrown, heq, hall⟩ := ih (failsAt.map (· - 1)) hnd' hfresh' (tracked ++ [t])
      refine ⟨n + 1, thrown, ?_, fun hf => by rw [take_succ_cons, hall hf]⟩
      rw [heq, take_succ_cons, toFinset_cons, append_assoc]
      simp [Finset.insert_union, Finset.union_insert]
    cases failsAt with
    | none =>
      rw [trackTargets, if_neg htp]
      · exact hstep
      · intro h
        cases h
    | some k =>
      cases k with
      | zero => exact ⟨0, true, by simp [trackTargets], nofun⟩
      | succ k =>
        rw [trackTargets, if_neg htp]
        · exact hstep
        · intro h
          cases h

/-- Submitting an action with fresh targets keeps the two views together, and
what becomes pending are at most its targets. -/
theorem submitAndTrack_tracked (env : TickEnv) (instanceId : String) (action : ActionName)
    (h : Tracked cfg.maxInflightDeleteRequests s.inflightDeletes s.pendingLocations)
    (hnd : targets.Nodup) (hfresh : ∀ t ∈ targets, t ∉ s.pendingLocations) :
    ∃ s', s' = s.submitAndTrack cfg env instanceId action targets ∧
      Tracked cfg.maxInflightDeleteRequests s'.inflightDeletes s'.pendingLocations ∧
      ∀ t ∈ s'.pendingLocations, t ∈ s.pendingLocations ∨ t ∈ targets := by
  refine ⟨_, rfl, ?_⟩
  unfold submitAndTrack
  split_ifs with hskip
  · exact ⟨h, fun t ht => .inl ht⟩
  · simp only [Bool.or_eq_true, decide_eq_true_eq, not_or, not_le] at hskip
    split
    case h_5 =>
      rename_i future failsAt _
      obtain ⟨n, thrown, heq, hall⟩ := trackTargets_fresh failsAt hnd hfresh []
      have hdisj : (s.pendingLocations ∪ (targets.take n).toFinset) \ (targets.take n).toFinset
          = s.pendingLocations := by
        ext k
        have : k ∈ targets.take n → k ∉ s.pendingLocations :=
          fun hk => hfresh k (mem_of_mem_take hk)
        simp only [Finset.mem_sdiff, Finset.mem_union, mem_toFinset]
        tauto
      dsimp only
      rw [heq]
      dsimp only
      split_ifs with hthrown
      · rw [nil_append, foldl_erase, hdisj]
        exact ⟨h, fun t ht => .inl ht⟩
      · rw [nil_append, hall (by simpa using hthrown)]
        refine ⟨⟨?_, ?_, ?_, ?_⟩, fun t ht => by simpa using ht⟩
        · rw [inflightTargets, flatMap_append]
          refine nodup_append.mpr ⟨h.nodup, by simpa using hnd, fun a ha b hb hab => ?_⟩
          have hb' : b ∈ targets := by simpa using hb
          refine hfresh b hb' ?_
          rw [h.pending_eq, mem_toFinset]
          exact hab ▸ ha
        · rw [inflightTargets, flatMap_append, toFinset_append, h.pending_eq]
          simp [inflightTargets]
        · intro d hd
          rcases mem_append.mp hd with hd | hd
          · exact h.counted d hd
          · rw [mem_singleton.mp hd]
        · simpa using hskip.2
    all_goals exact ⟨h, fun t ht => .inl ht⟩

/-! ## The tick -/

theorem advanceInstance_frame (cfg : Config) (env : TickEnv) (done : Bool) (s : Collector) :
    (s.advanceInstance cfg env done).inflightDeletes = s.inflightDeletes ∧
      (s.advanceInstance cfg env done).pendingLocations = s.pendingLocations := by
  unfold advanceInstance
  split_ifs
  · exact ⟨rfl, rfl⟩
  · dsimp only
    split_ifs <;> exact ⟨rfl, rfl⟩

theorem enterRound_frame {s' : Collector} (h : s.enterRound env = some s') :
    s'.inflightDeletes = s.inflightDeletes ∧ s'.pendingLocations = s.pendingLocations := by
  unfold enterRound at h
  split_ifs at h
  · cases h
    exact ⟨rfl, rfl⟩
  · obtain ⟨entries, -, rfl⟩ := Option.map_eq_some_iff.mp h
    exact ⟨rfl, rfl⟩

theorem onScanned_tracked
    (h : Tracked cfg.maxInflightDeleteRequests s.inflightDeletes s.pendingLocations)
    (entry : InstanceScanEntry) (batch : MaintenanceScanBatch) :
    Tracked cfg.maxInflightDeleteRequests (s.onScanned cfg env entry batch).inflightDeletes
      (s.onScanned cfg env entry batch).pendingLocations := by
  unfold onScanned
  dsimp only
  generalize { entry with scanFailureCount := 0, cursor := batch.nextCursor } = entry'
  generalize decide (batch.nextCursor = 0) = done
  split_ifs with hscanned hsubmit
  · exact h
  · obtain ⟨hd, hp⟩ := advanceInstance_frame cfg env done (s.setEntry entry')
    rw [hd, hp]
    exact h
  · obtain ⟨hd, hp⟩ := advanceInstance_frame cfg env done (s.setEntry entry')
    obtain ⟨actions, hactions, hnd, hfresh⟩ :=
      buildDeleteActions_fresh cfg env.build s.pendingLocations entry.instanceId batch
    have hsame : (s.setEntry entry').pendingLocations = s.pendingLocations := rfl
    rw [hsame] at hp ⊢
    rw [← hactions]
    generalize (s.setEntry entry').advanceInstance cfg env done = t at hd hp ⊢
    have ht : Tracked cfg.maxInflightDeleteRequests t.inflightDeletes t.pendingLocations := by
      rw [hd, hp]
      exact h
    obtain ⟨hnd₁, hnd₂, hdisj⟩ := nodup_append.mp hnd
    -- the physical action first; its targets are not among those of the second
    obtain ⟨t', ht', htracked, hnew⟩ := submitAndTrack_tracked env entry.instanceId
      .physicalDelete ht hnd₁
      (fun k hk => by rw [hp]; exact hfresh k (mem_append_left _ hk))
    rw [submitActions, ← ht']
    obtain ⟨t'', rfl, htracked', -⟩ := submitAndTrack_tracked env entry.instanceId
      .eventReportMetadata htracked hnd₂
      (fun k hk hmem => by
        rcases hnew k hmem with hpend | hphys
        · rw [hp] at hpend
          exact hfresh k (mem_append_right _ hk) hpend
        · exact hdisj k hphys k hk rfl)
    exact htracked'

theorem scanCurrent_tracked
    (h : Tracked cfg.maxInflightDeleteRequests s.inflightDeletes s.pendingLocations) :
    Tracked cfg.maxInflightDeleteRequests (s.scanCurrent cfg env).1.inflightDeletes
      (s.scanCurrent cfg env).1.pendingLocations := by
  unfold scanCurrent
  split
  · exact h
  · rename_i entry _
    split_ifs
    · exact h
    · split
      · obtain ⟨hd, hp⟩ := advanceInstance_frame cfg env true s
        dsimp only
        rw [hd, hp]
        exact h
      · obtain ⟨hd, hp⟩ := advanceInstance_frame cfg env
          (decide (maxScanFailuresPerInstancePerRound ≤ entry.scanFailureCount + 1))
          (s.setEntry { entry with scanFailureCount := entry.scanFailureCount + 1 })
        dsimp only [onScanFailed]
        rw [hd, hp]
        exact h
      · exact onScanned_tracked h entry _

theorem runOneTick_tracked
    (h : Tracked cfg.maxInflightDeleteRequests s.inflightDeletes s.pendingLocations) :
    Tracked cfg.maxInflightDeleteRequests (s.runOneTick cfg env).1.inflightDeletes
      (s.runOneTick cfg env).1.pendingLocations := by
  have hpoll := poll_tracked h env
  unfold runOneTick
  dsimp only
  split_ifs
  · exact h
  · exact hpoll
  · split
    · exact hpoll
    · rename_i s' henter
      obtain ⟨hd, hp⟩ := enterRound_frame henter
      refine scanCurrent_tracked ?_
      rw [hd, hp]
      exact hpoll

/-! ## Runs -/

/-- A started worker: `ResetWorkerState` keeps only the round number. -/
def Started (s : Collector) : Prop := ∃ roundId, s = { roundId }

def machine (cfg : Config) : Machine Collector TickEnv where
  init := Started
  step s env := some (s.runOneTick cfg env).1

theorem reach_tracked (h : (machine cfg).Reach Machine.anyAction s) :
    Tracked cfg.maxInflightDeleteRequests s.inflightDeletes s.pendingLocations := by
  refine h.inv (P := fun s =>
    Tracked cfg.maxInflightDeleteRequests s.inflightDeletes s.pendingLocations) ?_ ?_
  · rintro s ⟨roundId, rfl⟩
    exact ⟨nodup_nil, rfl, fun d hd => absurd hd not_mem_nil, Nat.zero_le _⟩
  · intro s env s' hs _ hstep
    cases hstep
    exact runOneTick_tracked hs

/-- After any ticks, the pending locations are the targets of the actions in
flight; no two actions share a target and none names one twice, no target of
an accepted action is missing from it, and the actions are within the limit. -/
theorem pending_union_inflight (cfg : Config) {s : Collector}
    (h : (machine cfg).Reach Machine.anyAction s) :
    (∀ k, k ∈ s.pendingLocations ↔ ∃ d ∈ s.inflightDeletes, k ∈ d.pendingLocations) ∧
      s.inflightDeletes.Pairwise (fun d d' => d.pendingLocations.Disjoint d'.pendingLocations) ∧
      (∀ d ∈ s.inflightDeletes,
        d.pendingLocations.Nodup ∧ d.pendingLocations.length = d.targetCount) ∧
      s.inflightDeletes.length ≤ cfg.maxInflightDeleteRequests := by
  have ht := reach_tracked h
  obtain ⟨hnodup, hdisj⟩ := nodup_flatMap.mp ht.nodup
  refine ⟨fun k => ?_, hdisj, fun d hd => ⟨hnodup d hd, (ht.counted d hd).symm⟩, ht.bounded⟩
  rw [ht.pending_eq, mem_toFinset, inflightTargets, mem_flatMap]

/-- A tick of a fresh worker that finds one location left in WRITING for
longer than the grace period. -/
def orphanTick : TickEnv where
  now := 0
  stopped _ := false
  future _ := .notReady
  listInstanceGroup := .ok [some "g"]
  listInstanceInfo _ := .ok [some "i"]
  scan _ _ := some (.ok
    { nextCursor := 0, keys := [7], locationResults := [.ok]
      locations := [AList.insert "l" { id := "l", status := .writing, createTime := 1 } ∅] })
  build :=
    { nowUs := 25 * 60 * 60 * 1000 * 1000, stopSeen := false
      hasActiveCopyTarget := fun _ _ => false, storageType := fun _ => none
      mightExist := fun _ _ _ _ => none, eventReportStorageCandidates := none
      eventReportBackend := fun _ => none, probe := fun _ _ _ => none }
  submit _ := .accepted 0 none

theorem pending_union_inflight_orphan :
    ∃ s, (machine Config.default).Reach Machine.anyAction s ∧ s.inflightDeletes.length = 1 ∧
      ∀ k, k ∈ s.pendingLocations ↔ ∃ d ∈ s.inflightDeletes, k ∈ d.pendingLocations := by
  have hrun : (machine Config.default).run {} [orphanTick]
      = some (({} : Collector).runOneTick Config.default orphanTick).1 := rfl
  have hinit : (machine Config.default).init {} := ⟨0, rfl⟩
  have hreach := Machine.reach_of_run hinit hrun
  exact ⟨_, hreach, by decide +kernel, (pending_union_inflight _ hreach).1⟩

end TairKvCache.GarbageCollector
