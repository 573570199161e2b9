import TairKvCache.PyConnector.Settlement

/-!
# A finished request is retired

In a run whose sessions all settle, each session is counted once
(`sessions_settle`), and a finished request is retired by the first step after
its last session has ended: once a step has been built after the finish, no
further session is scheduled for the request (`Quiet`), and a step that finds
none of its sessions on the executor counts all that are left. A request is
never dropped without a `FinishRequest` (`announced_step`).
-/

namespace TairKvCache.PyConnector

open Function List Lib.Machine

open ConnectorScheduler

namespace SchedSystem

variable {cfg : SchedulerConfig} {s s' : SchedSystem} {a : SchedAction} {o : SchedOutput}

/-! ## Finished requests -/

variable {sched : ConnectorScheduler} {id reqId : String} {out : SchedulerOutput}
    {ok : SchedSystem → SchedAction → Prop} {k : Nat}

theorem tracked_foldl {α : Type} {f : ConnectorScheduler → α → ConnectorScheduler} {as : List α}
    (hf : ∀ sched, ∀ x ∈ as, (f sched x).tracked id = sched.tracked id) (sched : ConnectorScheduler)
      :
    (as.foldl f sched).tracked id = sched.tracked id := by
  induction as generalizing sched with
  | nil => rfl
  | cons x xs ih =>
    rw [foldl_cons, ih fun sched y hy => hf sched y (mem_cons_of_mem _ hy)]
    exact hf sched x mem_cons_self

/-- A scheduling output does not name finished requests. -/
theorem tracked_ingest_finished (hout : s.outputOk out = true) (hfin : s.finished id = true) :
    (s.sched.ingestScheduledReqs out).tracked id = s.sched.tracked id := by
  simp only [outputOk, Bool.and_eq_true, all_eq_true, Bool.not_eq_true'] at hout
  obtain ⟨⟨hnew, hcached⟩, -⟩ := hout
  rw [ingestScheduledReqs, tracked_foldl, tracked_foldl]
  · intro sched p hp
    refine (writes_ingestNew p).other _ ?_
    rintro rfl
    rw [hnew p hp] at hfin
    cases hfin
  · intro sched c hc
    refine (writes_ingestCached c).other _ ?_
    rintro rfl
    rw [hcached c hc] at hfin
    cases hfin

/-- A tracked request has finished exactly when its ledger says so. -/
def Marked (s : SchedSystem) : Prop :=
  ∀ reqId l, s.sched.tracked reqId = some l →
    l.needReportAfterSavingFinished = s.finished reqId

theorem Marked.frame (hm : Marked s) (hf : Frame s s') : Marked s' := by
  intro reqId l hl
  rw [hf.finished]
  cases hfin : s.finished reqId with
  | true =>
    rw [← hfin]
    exact hm reqId l ((hf.other reqId hfin).symm.trans hl)
  | false =>
    rcases hf.kept.ledgers reqId with heq | ⟨l', hl', hsame⟩
    · rw [← hfin]
      exact hm reqId l (heq.symm.trans hl)
    · obtain rfl := Option.some.inj (hl'.symm.trans hl)
      rw [hsame.needReport]
      cases hs : s.sched.tracked reqId with
      | none => rfl
      | some l₀ => rw [← hfin]; exact hm reqId l₀ hs

theorem marked_build (hm : Marked s) (hout : s.outputOk out = true) :
    Marked (s.buildStep cfg out) := by
  have hingest : Marked (s.withSched (s.sched.ingestScheduledReqs out)) :=
    hm.frame ⟨kept_ingestScheduledReqs out, rfl, rfl, fun _ => tracked_ingest_finished hout⟩
  intro reqId l hl
  obtain ⟨l', hl', -, -, -, hneed⟩ :=
    (collect_spec ((s.sched.ingestScheduledReqs out).dispatchIncrementalSaves cfg)).ledgers
      reqId l hl
  obtain ⟨l₀, hl₀, rfl⟩ := Option.map_eq_some_iff.mp hl'
  rw [hneed]
  exact hingest reqId l₀ hl₀

/-- Finishing a request touches no other request's ledger. -/
theorem tracked_finishRequest (hid : id ≠ reqId) :
    (sched.finishRequest reqId).1.tracked id = sched.tracked id := by
  rcases finishRequest_cases sched reqId with ⟨-, hr⟩ | ⟨l, -, ⟨-, hr⟩ | ⟨-, hr⟩⟩
  · rw [hr]
    rfl
  · rw [hr]
    exact update_of_ne hid _ _
  · rw [hr]
    exact update_of_ne hid _ _

theorem marked_finish (hm : Marked s) : Marked (s.finishReq reqId) := by
  intro id l hl
  change l.needReportAfterSavingFinished = update s.finished reqId true id
  change (s.sched.finishRequest reqId).1.tracked id = some l at hl
  rcases eq_or_ne id reqId with rfl | hid
  · rw [update_self]
    rcases finishRequest_cases s.sched id with ⟨hnone, hr⟩ | ⟨l₀, -, ⟨-, hr⟩ | ⟨-, hr⟩⟩
    · rw [hr] at hl
      cases hnone.symm.trans hl
    · rw [hr, tracked_retireRequest, update_self] at hl
      cases hl
    · rw [hr, tracked_setLedger, update_self] at hl
      obtain rfl := Option.some.inj hl
      rfl
  · rw [update_of_ne hid]
    exact hm id l ((tracked_finishRequest hid).symm.trans hl)

theorem marked_step (hm : Marked s) (h : StepOf cfg s a s' o) : Marked s' := by
  have hframe := h.frame
  cases h with
  | build out hout => exact marked_build hm hout
  | sessionLost reqId task outcome err hmem hraise => exact hm
  | sessionSettles reqId task outcome settled hmem hok => cases settled <;> exact hm
  | finish reqId hfin => exact marked_finish hm
  | _ => exact hm.frame (hframe rfl)

theorem marked_reach (h : (machine cfg).Reach ok s) : Marked s := by
  refine h.inv (P := Marked) ?_ ?_
  · rintro s rfl reqId l hl
    cases hl
  · intro s a s' hm _ hstep
    obtain ⟨o, hstep⟩ := machine_step hstep
    exact marked_step hm (stepOf hstep)

/-! ## No further session -/

/-- Outside the building of a step, nothing happens to the ledger of a
finished request. -/
theorem tracked_of_finished (h : StepOf cfg s a s' o) (hfin : s.finished reqId = true)
    (hbuild : ∀ out, a ≠ .build out) : s'.sched.tracked reqId = s.sched.tracked reqId := by
  have hframe := h.frame
  cases h with
  | build out hout => exact absurd rfl (hbuild out)
  | sessionLost id task outcome err hmem hraise => rfl
  | sessionSettles id task outcome settled hmem hok => cases settled <;> rfl
  | finish id hid => exact tracked_finishRequest (ne_of_finished hid hfin)
  | _ => exact (hframe rfl).other reqId hfin

theorem finished_step (h : StepOf cfg s a s' o) (hfin : s.finished reqId = true) :
    s'.finished reqId = true := by
  cases h with
  | finish id hid => exact (update_of_ne (ne_of_finished hid hfin) _ _).trans hfin
  | _ => exact hfin

theorem executor_endTask_self (sched : ConnectorScheduler) (reqId : String) (task : SaveTask) :
    (sched.endTask reqId task).httpExecutor reqId = (sched.httpExecutor reqId).erase task :=
  update_self _ _ _

theorem executor_endTask_ne {task : SaveTask} (hid : id ≠ reqId) :
    (sched.endTask reqId task).httpExecutor id = sched.httpExecutor id :=
  update_of_ne hid _ _

theorem executor_finishRequest (sched : ConnectorScheduler) (reqId : String) :
    (sched.finishRequest reqId).1.httpExecutor = sched.httpExecutor := by
  rcases finishRequest_cases sched reqId with ⟨-, hr⟩ | ⟨l, -, ⟨-, hr⟩ | ⟨-, hr⟩⟩ <;> rw [hr] <;> rfl

/-- A step would schedule no session for the request. -/
def Quiet (cfg : SchedulerConfig) (reqId : String) (s : SchedSystem) : Prop :=
  ∀ l, s.sched.tracked reqId = some l → newTask cfg l = []

theorem newTask_eq_nil {l l' : RequestLedger} (hreq : l'.vllmRequest = l.vllmRequest)
    (htable : l'.blockIdsPerGroup = l.blockIdsPerGroup)
    (hsaved : l'.hasSavedBlockNum = targetSaveNum cfg l) : newTask cfg l' = [] := by
  have htarget : targetSaveNum cfg l' = targetSaveNum cfg l := by
    simp only [targetSaveNum, numAllocatedBlocks, hreq, htable]
  rw [newTask, if_neg]
  omega

theorem quiet_build (s : SchedSystem) (out : SchedulerOutput) (reqId : String) :
    Quiet cfg reqId (s.buildStep cfg out) := by
  intro l hl
  obtain ⟨l', hl', hreq, htable, hsaved, -⟩ :=
    (collect_spec ((s.sched.ingestScheduledReqs out).dispatchIncrementalSaves cfg)).ledgers
      reqId l hl
  obtain ⟨l₀, hl₀, rfl⟩ := Option.map_eq_some_iff.mp hl'
  exact newTask_eq_nil hreq htable hsaved

/-- The executor after a step was built: the new session of the request, if
there is one, has been added. -/
theorem executor_build (s : SchedSystem) (out : SchedulerOutput) (reqId : String) :
    (s.buildStep cfg out).sched.httpExecutor reqId = s.sched.httpExecutor reqId ++
      (((s.sched.ingestScheduledReqs out).tracked reqId).map (newTask cfg)).getD [] := by
  have hcollect := (collect_spec
    ((s.sched.ingestScheduledReqs out).dispatchIncrementalSaves cfg)).executor
  have hingest : (s.sched.ingestScheduledReqs out).httpExecutor = s.sched.httpExecutor :=
    (kept_ingestScheduledReqs out).executor
  calc (s.buildStep cfg out).sched.httpExecutor reqId
      = ((s.sched.ingestScheduledReqs out).dispatchIncrementalSaves cfg).httpExecutor reqId :=
        congrFun hcollect reqId
    _ = _ := by rw [dispatchIncrementalSaves, hingest]

theorem executor_build_quiet (hout : s.outputOk out = true) (hfin : s.finished reqId = true)
    (hq : Quiet cfg reqId s) :
    (s.buildStep cfg out).sched.httpExecutor reqId = s.sched.httpExecutor reqId := by
  rw [executor_build, tracked_ingest_finished hout hfin]
  cases hl : s.sched.tracked reqId with
  | none => exact append_nil _
  | some l =>
    rw [Option.map_some, hq l hl]
    exact append_nil _

/-- From the first step built after its finish on, a request gains no
session. -/
theorem quiet_step (hfin : s.finished reqId = true) (hq : Quiet cfg reqId s)
    (h : StepOf cfg s a s' o) : Quiet cfg reqId s' ∧
      (s'.sched.httpExecutor reqId).Sublist (s.sched.httpExecutor reqId) := by
  have hkeep : (∀ out, a ≠ .build out) → Quiet cfg reqId s' := fun hnb l hl =>
    hq l ((tracked_of_finished h hfin hnb).symm.trans hl)
  have hend : ∀ id task, ((s.sched.endTask id task).httpExecutor reqId).Sublist
      (s.sched.httpExecutor reqId) := by
    intro id task
    rcases eq_or_ne reqId id with rfl | hid
    · rw [executor_endTask_self]
      exact erase_sublist
    · rw [executor_endTask_ne hid]
  have hframe := h.frame
  cases h with
  | build out hout => exact ⟨quiet_build s out reqId, by rw [executor_build_quiet hout hfin hq]⟩
  | sessionLost id task outcome err hmem hraise => exact ⟨hkeep fun out => by simp, hend id task⟩
  | sessionSettles id task outcome settled hmem hok =>
    refine ⟨hkeep fun out => by simp, ?_⟩
    cases settled <;> exact hend id task
  | finish id hid =>
    refine ⟨hkeep fun out => by simp, ?_⟩
    rw [finishReq, executor_finishRequest]
  | _ =>
    refine ⟨hkeep fun out => by simp, ?_⟩
    rw [(hframe rfl).kept.executor]

theorem quiet_steps (hfin : s.finished reqId = true) (hq : Quiet cfg reqId s)
    (h : (machine cfg).Steps ok s s') : s'.finished reqId = true ∧ Quiet cfg reqId s' ∧
      (s'.sched.httpExecutor reqId).Sublist (s.sched.httpExecutor reqId) := by
  refine h.preserve (P := fun t => t.finished reqId = true ∧ Quiet cfg reqId t ∧
    (t.sched.httpExecutor reqId).Sublist (s.sched.httpExecutor reqId)) ?_ ⟨hfin, hq, .refl _⟩
  rintro t a t' ⟨htfin, htq, hsub⟩ _ hstep
  obtain ⟨o, hstep⟩ := machine_step hstep
  have hof := stepOf hstep
  obtain ⟨hq', hsub'⟩ := quiet_step htfin htq hof
  exact ⟨finished_step hof htfin, hq', hsub'.trans hsub⟩

/-! ## Runs in which every session settles -/

/-- The sessions that end, end with an outcome that settles. -/
def SessionsSettle (_ : SchedSystem) : SchedAction → Prop
  | .sessionEnds _ _ outcome => outcome.Settles
  | _ => True

theorem lost_nil (h : (machine cfg).Reach SessionsSettle s) (reqId : String) :
    s.lost reqId = [] := by
  refine h.inv (P := fun s => s.lost reqId = []) ?_ ?_
  · rintro s rfl
    rfl
  · intro s a s' hs hok hstep
    obtain ⟨o, hstep⟩ := machine_step hstep
    cases stepOf hstep with
    | sessionLost id task outcome err hmem hraise =>
      obtain ⟨settled, hsettled⟩ := (settles_iff id task outcome).mpr hok
      rw [hraise] at hsettled
      cases hsettled
    | _ => exact hs

theorem lost_step (h : StepOf cfg s a s' o) (hk : k ∈ s.lost reqId) : k ∈ s'.lost reqId := by
  cases h with
  | sessionLost id task outcome err hmem hraise =>
    change k ∈ update s.lost id (s.lost id ++ [task.session]) reqId
    rcases eq_or_ne reqId id with rfl | hid
    · rw [update_self]
      exact mem_append_left _ hk
    · rwa [update_of_ne hid]
  | _ => exact hk

/-- A request of which a session was lost stays tracked for ever. -/
theorem tracked_of_lost {ok' : SchedSystem → SchedAction → Prop} (hreach : (machine cfg).Reach ok s)
    (hk : k ∈ s.lost reqId) (h : (machine cfg).Steps ok' s s') : s'.sched.tracked reqId ≠ none := by
  obtain ⟨hb, hk'⟩ := h.preserve (P := fun t => Balanced [] t.lost t.sched ∧ k ∈ t.lost reqId)
    (fun t a t' hP _ hstep => by
      obtain ⟨o, hstep⟩ := machine_step hstep
      exact ⟨balanced_step hP.1 (stepOf hstep), lost_step (stepOf hstep) hP.2⟩)
    ⟨balanced_reach hreach, hk⟩
  intro hnone
  have hacc := hb reqId
  rw [hnone] at hacc
  have hzero := hacc k
  rw [elsewhere] at hzero
  have := count_pos_iff.mpr hk'
  omega

/-- The executor drops the exception of a session, and with it the session. -/
theorem lost_of_raise {task : SaveTask} {outcome : SessionOutcome}
    (h : StepOf cfg s (.sessionEnds reqId task outcome) s' o) (hraise : ¬ outcome.Settles) :
    task.session ∈ s'.lost reqId := by
  cases h with
  | sessionLost _ _ _ err hmem _ =>
    change task.session ∈ update s.lost reqId (s.lost reqId ++ [task.session]) reqId
    rw [update_self]
    exact mem_append_right _ (mem_singleton_self _)
  | sessionSettles _ _ _ settled hmem hok =>
    exact absurd ((settles_iff reqId task outcome).mp ⟨settled, hok⟩) hraise

theorem elsewhere_build (s : SchedSystem) (out : SchedulerOutput) (reqId : String) (k : Nat) :
    elsewhere [] s.lost (s.buildStep cfg out).sched reqId k =
      (((s.buildStep cfg out).sched.httpExecutor reqId).map (·.session)).count k +
        (s.lost reqId).count k := by
  have hspec := collect_spec ((s.sched.ingestScheduledReqs out).dispatchIncrementalSaves cfg)
  have hwaiting : (s.buildStep cfg out).sched.waitingToSaveRequests = [] := hspec.waiting
  have hcanceled : (s.buildStep cfg out).sched.canceledSaveRequestIds = [] := hspec.canceled
  rw [elsewhere, hwaiting, hcanceled]
  simp only [map_nil, count_nil, Nat.zero_add]

/-- A built step leaves uncounted only the sessions that are still running. -/
theorem counted_build {l : RequestLedger} (hb : Balanced [] s.lost s.sched)
    (hlost : s.lost reqId = []) (hl : (s.buildStep cfg out).sched.tracked reqId = some l)
    (hk : k < l.scheduledSavingCount) :
    k ∈ l.settled ∨ k ∈ ((s.buildStep cfg out).sched.httpExecutor reqId).map (·.session) := by
  have hacc := hb.build cfg out reqId
  rw [show (s.sched.buildConnectorMeta cfg out).1.tracked reqId = some l from hl] at hacc
  have hone := hacc.2.1 k
  rw [if_pos hk, show elsewhere [] s.lost (s.sched.buildConnectorMeta cfg out).1 reqId k = _ from
    elsewhere_build s out reqId k, hlost, count_nil, Nat.add_zero] at hone
  by_cases hmem : k ∈ l.settled
  · exact .inl hmem
  · rw [count_eq_zero_of_not_mem hmem, Nat.zero_add] at hone
    exact .inr (count_pos_iff.mp (by omega))

/-- A step built when none of the sessions of a finished request is running
retires it. -/
theorem retired_build (hb : Balanced [] s.lost s.sched) (hm : Marked s) (hlost : s.lost reqId = [])
    (hout : s.outputOk out = true) (hfin : s.finished reqId = true) (hq : Quiet cfg reqId s)
    (hidle : s.sched.httpExecutor reqId = []) :
    (s.buildStep cfg out).sched.tracked reqId = none := by
  cases hl : (s.buildStep cfg out).sched.tracked reqId with
  | none => rfl
  | some l =>
    have hacc := hb.build cfg out reqId
    rw [show (s.sched.buildConnectorMeta cfg out).1.tracked reqId = some l from hl] at hacc
    obtain ⟨hsent, htickets, hopen⟩ := hacc
    have hzero : ∀ k, elsewhere [] s.lost (s.buildStep cfg out).sched reqId k = 0 := by
      intro k
      rw [elsewhere_build, executor_build_quiet hout hfin hq, hidle, hlost]
      rfl
    have hneed : l.needReportAfterSavingFinished = true :=
      (marked_build hm hout reqId l hl).trans hfin
    exact absurd ((htickets.length_of_eq_zero hzero).symm.trans hsent) (hopen hneed)

/-! ## Announcing -/

/-- The request is tracked, or its `FinishRequest` waits for the next step. -/
def Pending (s : SchedSystem) (reqId : String) : Prop :=
  s.sched.tracked reqId ≠ none ∨ reqId ∈ s.sched.waitingToFinishRequests

theorem Pending.kept (hp : s.Pending reqId) (hk : Kept s.sched s'.sched) : s'.Pending reqId := by
  rcases hp with htracked | hwait
  · refine .inl ?_
    rcases hk.ledgers reqId with heq | ⟨l', hl', -⟩
    · exact fun h => htracked (heq.symm.trans h)
    · exact fun h => by cases hl'.symm.trans h
  · exact .inr (hk.finishes.symm ▸ hwait)

theorem Pending.finishReq (hp : s.Pending reqId) : (s.finishReq id).Pending reqId := by
  change (s.sched.finishRequest id).1.tracked reqId ≠ none ∨
    reqId ∈ (s.sched.finishRequest id).1.waitingToFinishRequests
  rcases finishRequest_cases s.sched id with ⟨-, hr⟩ | ⟨l, -, ⟨-, hr⟩ | ⟨-, hr⟩⟩
  · rw [hr]
    exact hp
  · rw [hr, tracked_retireRequest]
    change _ ∨ reqId ∈ s.sched.waitingToFinishRequests ++ [id]
    by_cases hid : reqId = id
    · exact .inr (by simp [hid])
    · rw [update_of_ne hid]
      exact hp.imp_right fun hwait => mem_append_left _ hwait
  · rw [hr, tracked_setLedger]
    refine hp.imp_left fun htracked => ?_
    rcases eq_or_ne reqId id with rfl | hid
    · simp
    · rwa [update_of_ne hid]

/-- The metadata of a step names the requests that were waiting to be
announced and those that the step retires. -/
theorem announced_build (s : SchedSystem) (out : SchedulerOutput) (hp : s.Pending reqId) :
    (s.buildStep cfg out).sched.tracked reqId ≠ none ∨
      reqId ∈ (s.sched.buildConnectorMeta cfg out).2.toFinishRequests := by
  have hkept : (s.withSched (s.sched.ingestScheduledReqs out)).Pending reqId :=
    hp.kept (kept_ingestScheduledReqs out)
  obtain ⟨retired, hretired, -, hmem⟩ := (collect_spec
    ((s.sched.ingestScheduledReqs out).dispatchIncrementalSaves cfg)).finishes
  change _ ∨ reqId ∈ ((s.sched.ingestScheduledReqs out).dispatchIncrementalSaves
    cfg).collectSaveInstructions.1.waitingToFinishRequests
  rw [hretired]
  by_cases hnone : (s.buildStep cfg out).sched.tracked reqId = none
  · refine .inr (mem_append.mpr ?_)
    rcases hkept with htracked | hwait
    · refine .inr ((hmem reqId).mpr ⟨?_, hnone⟩)
      exact fun h => htracked (Option.map_eq_none_iff.mp h)
    · exact .inl hwait
  · exact .inl hnone

theorem announced_step (h : StepOf cfg s a s' o) (hp : s.Pending reqId) :
    s'.Pending reqId ∨ ∃ m ∈ o.metas, reqId ∈ m.toFinishRequests := by
  have hframe := h.frame
  cases h with
  | build out hout =>
    rcases announced_build s out hp with htracked | hmem
    · exact .inl (.inl htracked)
    · exact .inr ⟨_, mem_singleton_self _, hmem⟩
  | sessionLost id task outcome err hmem hraise => exact .inl hp
  | sessionSettles id task outcome settled hmem hok => cases settled <;> exact .inl hp
  | finish id hid => exact .inl hp.finishReq
  | _ => exact .inl (hp.kept (hframe rfl).kept)

/-! ## Every session is counted and every finished request retired -/

/-- Each session of a tracked request has been counted once, or is found once
in the queues and on the executor. -/
def CountedOnce (s : SchedSystem) : Prop :=
  ∀ reqId l, s.sched.tracked reqId = some l →
    l.settled.length = l.sentSavingCount ∧ ∀ k < l.scheduledSavingCount,
      l.settled.count k + (s.sched.waitingToSaveRequests.map SaveRequest.pair).count (reqId, k) +
        s.sched.canceledSaveRequestIds.count (reqId, k) +
        ((s.sched.httpExecutor reqId).map (·.session)).count k = 1

/-- Only sessions that are still running have not been counted. -/
def RunningUncounted (s : SchedSystem) : Prop :=
  ∀ reqId l, s.sched.tracked reqId = some l → ∀ k < l.scheduledSavingCount,
    k ∈ l.settled ∨ k ∈ (s.sched.httpExecutor reqId).map (·.session)

/-- Once its sessions have ended, a step retires the request and announces
it. -/
def RetiredWhenIdle (cfg : SchedulerConfig) (s : SchedSystem) (reqId : String) : Prop :=
  s.sched.httpExecutor reqId = [] → ∀ out s' o, s.step cfg (.build out) = some (s', o) →
    s'.sched.tracked reqId = none ∧
      (s.Pending reqId → ∃ m ∈ o.metas, reqId ∈ m.toFinishRequests)

theorem countedOnce_of_balanced (hb : Balanced [] s.lost s.sched)
    (hlost : ∀ reqId, s.lost reqId = []) : CountedOnce s := by
  intro reqId l hl
  have hacc := hb reqId
  rw [hl] at hacc
  refine ⟨hacc.1, fun k hk => ?_⟩
  have hone := hacc.2.1 k
  rw [if_pos hk, elsewhere, hlost, count_nil, count_nil] at hone
  omega

/-- The request of a session whose outcome does not settle is never retired,
in whatever run. In every run in which the outcomes settle, each session is
counted once, a step leaves uncounted only the sessions still running, a
request that has finished gains no session after the next step, is retired by
the first step after its last session ended, and no request is dropped
unannounced. -/
theorem sessions_settle (cfg : SchedulerConfig) :
    (∀ s, (machine cfg).Reach anyAction s → ∀ reqId task outcome s' o,
        s.step cfg (.sessionEnds reqId task outcome) = some (s', o) → ¬ outcome.Settles →
        ∀ s'', (machine cfg).Steps anyAction s' s'' → s''.sched.tracked reqId ≠ none) ∧
      ∀ s, (machine cfg).Reach SessionsSettle s →
        CountedOnce s ∧
        (∀ out s' o, s.step cfg (.build out) = some (s', o) → RunningUncounted s') ∧
        (∀ reqId, s.finished reqId = true → ∀ out s₁ o, s.step cfg (.build out) = some (s₁, o) →
          ∀ s₂, (machine cfg).Steps SessionsSettle s₁ s₂ →
            (s₂.sched.httpExecutor reqId).Sublist (s₁.sched.httpExecutor reqId) ∧
              RetiredWhenIdle cfg s₂ reqId) ∧
        (∀ reqId a s' o, s.step cfg a = some (s', o) → s.Pending reqId →
          s'.Pending reqId ∨ ∃ m ∈ o.metas, reqId ∈ m.toFinishRequests) := by
  refine ⟨fun s hreach reqId task outcome s' o hstep hraise s'' hsteps => ?_,
    fun s hreach => ⟨?_, ?_, ?_, ?_⟩⟩
  · exact tracked_of_lost (hreach.steps (.single ⟨_, trivial, step_machine hstep⟩))
      (lost_of_raise (stepOf hstep) hraise) hsteps
  · exact countedOnce_of_balanced (balanced_reach hreach) (lost_nil hreach)
  · intro out s' o hstep reqId l hl k hk
    cases stepOf hstep with
    | build _ hout => exact counted_build (balanced_reach hreach) (lost_nil hreach reqId) hl hk
  · intro reqId hfin out s₁ o hstep s₂ hsteps
    have hreach₂ : (machine cfg).Reach SessionsSettle s₂ :=
      hreach.steps (.head ⟨.build out, trivial, step_machine hstep⟩ hsteps)
    have hof := stepOf hstep
    obtain ⟨hfin₂, hquiet, hsub⟩ := quiet_steps (finished_step hof hfin)
      (by cases hof with | build _ hout => exact quiet_build s out reqId) hsteps
    refine ⟨hsub, fun hidle out' s₃ o₃ hstep₃ => ?_⟩
    cases stepOf hstep₃ with
    | build _ hout =>
      have hnone := retired_build (balanced_reach hreach₂) (marked_reach hreach₂)
        (lost_nil hreach₂ reqId) hout hfin₂ hquiet hidle
      refine ⟨hnone, fun hp => ⟨_, mem_singleton_self _, ?_⟩⟩
      exact (announced_build s₂ out' hp).resolve_left fun h => h hnone
  · intro reqId a s' o hstep hp
    exact announced_step (stepOf hstep) hp

def smallConfig : SchedulerConfig := ⟨[⟨0, 2, false⟩], 2, 2, 1, false, 1000⟩

def smallRequest : Request := ⟨"r", [1, 2], [1, 2]⟩

def smallTask : SaveTask := ⟨[1, 2], 1, [true], 0⟩

/-- A request with one block is allocated and saved; the session ends with
`outcome`, the request finishes and a step is built. -/
def savingRun (outcome : SessionOutcome) : Option SchedSystem :=
  (machine smallConfig).run {}
    [.alloc smallRequest [[7]] 0, .build ⟨[], []⟩, .sessionEnds "r" smallTask outcome,
      .finish "r", .build ⟨[], []⟩]

/-- One location for one block. -/
def savedOutcome : SessionOutcome :=
  ⟨some ⟨.value [⟨[("tp0_g0", "uri")]⟩], .value "w", .value ⟨.value 0, .absent⟩⟩, false⟩

/-- The same answer, with `"block_mask": null`. -/
def nullMaskOutcome : SessionOutcome :=
  ⟨some ⟨.value [⟨[("tp0_g0", "uri")]⟩], .value "w", .null⟩, false⟩

theorem savingRun_saved : (savingRun savedOutcome).isSome = true := by decide +kernel

theorem savingRun_nullMask : (savingRun nullMaskOutcome).isSome = true := by decide +kernel

theorem sessions_settle_saved : CountedOnce ((savingRun savedOutcome).get savingRun_saved) ∧
      ((savingRun savedOutcome).get savingRun_saved).sched.tracked "r" = none := by
  refine ⟨((sessions_settle smallConfig).2 _ ⟨{}, rfl, steps_of_run
    (Option.some_get savingRun_saved).symm (allOk_of_forall ?_ _)⟩).1, by decide +kernel⟩
  intro a ha s
  simp only [mem_cons, not_mem_nil, or_false] at ha
  obtain rfl | rfl | rfl | rfl | rfl := ha
  · trivial
  · trivial
  · rintro response ⟨⟩
    exact ⟨_, _, rfl, rfl, rfl, .inr ⟨rfl, rfl⟩⟩
  · trivial
  · trivial

/-- The null mask raises on the executor: the request has finished, its one
session was never counted and is nowhere to be found, and no run retires the
request any more. -/
theorem nullMask_session_lost :
    ∃ s l, (machine smallConfig).Reach anyAction s ∧ s.finished "r" = true ∧
      s.sched.tracked "r" = some l ∧ l.scheduledSavingCount = 1 ∧ l.sentSavingCount = 0 ∧
      s.sched.httpExecutor "r" = [] ∧ s.sched.waitingToSaveRequests = [] ∧
      s.sched.canceledSaveRequestIds = [] ∧
      ∀ s', (machine smallConfig).Steps anyAction s s' →
        s'.sched.tracked "r" ≠ none := by
  have hreach : (machine smallConfig).Reach anyAction
      ((savingRun nullMaskOutcome).get savingRun_nullMask) :=
    reach_of_run rfl (Option.some_get savingRun_nullMask).symm
  refine ⟨_, _, hreach, rfl, rfl, ?_, ?_, ?_, ?_, ?_, fun s' hsteps =>
    tracked_of_lost hreach (k := 0) (by decide +kernel) hsteps⟩
  all_goals decide +kernel

end SchedSystem

end TairKvCache.PyConnector
