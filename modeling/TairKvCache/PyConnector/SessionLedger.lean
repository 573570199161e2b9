import TairKvCache.Lib.Tickets
import TairKvCache.PyConnector.SchedulerSystem

/-!
# Where the save sessions are

The sessions of a tracked request are numbered by `scheduled_saving_count`.
`Balanced` says that each of them is in exactly one place: counted by
`sent_saving_count`, waiting as a `SaveRequest`, waiting as a cancellation, on
the executor, or lost to an exception; that a request which is not tracked has
none; and that a finished request is tracked only while a session is
uncounted. It holds in every reachable state. While `_collect_save_instructions`
runs, the entries it has taken but not yet handled count as in hand.
-/

namespace TairKvCache.PyConnector

open Function List

open ConnectorScheduler

def SaveRequest.pair (r : SaveRequest) : String × Nat := (r.reqId, r.session)

/-- How often session `k` of the request is found outside the counter. -/
def elsewhere (inHand : List (String × Nat)) (lost : String → List Nat)
    (s : ConnectorScheduler) (reqId : String) (k : Nat) : Nat :=
  inHand.count (reqId, k) + (s.waitingToSaveRequests.map SaveRequest.pair).count (reqId, k) +
    s.canceledSaveRequestIds.count (reqId, k) +
    ((s.httpExecutor reqId).map (·.session)).count k + (lost reqId).count k

/-- The ledger accounts for sessions that are found elsewhere as `f` says. -/
def Accounts (f : Nat → Nat) : Option RequestLedger → Prop
  | none => ∀ k, f k = 0
  | some l =>
    l.settled.length = l.sentSavingCount ∧ Lib.Tickets l.settled f l.scheduledSavingCount ∧
      (l.needReportAfterSavingFinished = true → l.scheduledSavingCount ≠ l.sentSavingCount)

def Balanced (inHand : List (String × Nat)) (lost : String → List Nat)
    (s : ConnectorScheduler) : Prop :=
  ∀ reqId, Accounts (elsewhere inHand lost s reqId) (s.tracked reqId)

variable {f : Nat → Nat} {l l' : RequestLedger} {reqId : String}

theorem Accounts.congr {g : Nat → Nat} {o : Option RequestLedger} (h : Accounts f o)
    (hfg : ∀ k, g k = f k) : Accounts g o := by
  obtain rfl : g = f := funext hfg
  exact h

variable {inHand : List (String × Nat)} {lost : String → List Nat} {s s' : ConnectorScheduler}
  {cfg : SchedulerConfig}

/-! ## Steps that leave the sessions alone -/

structure SameCounters (l l' : RequestLedger) : Prop where
  settled : l'.settled = l.settled
  scheduled : l'.scheduledSavingCount = l.scheduledSavingCount
  sent : l'.sentSavingCount = l.sentSavingCount
  needReport : l'.needReportAfterSavingFinished = l.needReportAfterSavingFinished

def blankLedger : RequestLedger := { vllmRequest := ⟨"", [], []⟩ }

/-- The queues are as before; so are the sessions of every ledger, and a new
ledger has none. -/
structure Kept (s s' : ConnectorScheduler) : Prop where
  waiting : s'.waitingToSaveRequests = s.waitingToSaveRequests
  canceled : s'.canceledSaveRequestIds = s.canceledSaveRequestIds
  executor : s'.httpExecutor = s.httpExecutor
  finishes : s'.waitingToFinishRequests = s.waitingToFinishRequests
  ledgers : ∀ reqId, s'.tracked reqId = s.tracked reqId ∨
    ∃ l', s'.tracked reqId = some l' ∧
      SameCounters ((s.tracked reqId).getD blankLedger) l'

theorem SameCounters.refl (l : RequestLedger) : SameCounters l l := ⟨rfl, rfl, rfl, rfl⟩

theorem SameCounters.trans {l'' : RequestLedger} (h : SameCounters l l') (h' : SameCounters l' l'') :
    SameCounters l l'' :=
  ⟨h'.settled.trans h.settled, h'.scheduled.trans h.scheduled, h'.sent.trans h.sent,
    h'.needReport.trans h.needReport⟩

theorem Kept.refl (s : ConnectorScheduler) : Kept s s := ⟨rfl, rfl, rfl, rfl, fun _ => .inl rfl⟩

theorem Kept.trans {s'' : ConnectorScheduler} (h : Kept s s') (h' : Kept s' s'') : Kept s s'' := by
  refine ⟨h'.waiting.trans h.waiting, h'.canceled.trans h.canceled, h'.executor.trans h.executor,
    h'.finishes.trans h.finishes, fun reqId => ?_⟩
  rcases h.ledgers reqId with heq | ⟨l, hl, hsame⟩
  · rw [← heq]
    exact h'.ledgers reqId
  · refine .inr ?_
    rcases h'.ledgers reqId with heq' | ⟨l', hl', hsame'⟩
    · exact ⟨l, heq'.trans hl, hsame⟩
    · rw [hl] at hsame'
      exact ⟨l', hl', hsame.trans hsame'⟩

/-- Of all ledgers only the one of `reqId` is written. -/
structure Writes (reqId : String) (s s' : ConnectorScheduler) : Prop where
  kept : Kept s s'
  other : ∀ id, id ≠ reqId → s'.tracked id = s.tracked id

theorem Writes.refl (reqId : String) (s : ConnectorScheduler) : Writes reqId s s :=
  ⟨.refl s, fun _ _ => rfl⟩

/-- A ledger is written back with its sessions unchanged, or created. -/
theorem writes_update (hw : s'.waitingToSaveRequests = s.waitingToSaveRequests)
    (hc : s'.canceledSaveRequestIds = s.canceledSaveRequestIds)
    (he : s'.httpExecutor = s.httpExecutor)
    (hf : s'.waitingToFinishRequests = s.waitingToFinishRequests)
    (ht : s'.tracked = update s.tracked reqId (some l))
    (h : SameCounters ((s.tracked reqId).getD blankLedger) l) : Writes reqId s s' := by
  have hother : ∀ id, id ≠ reqId → s'.tracked id = s.tracked id := fun id hid => by
    rw [ht, update_of_ne hid]
  refine ⟨⟨hw, hc, he, hf, fun id => ?_⟩, hother⟩
  rcases eq_or_ne id reqId with rfl | hid
  · exact .inr ⟨l, by rw [ht, update_self], h⟩
  · exact .inl (hother id hid)

theorem writes_of_tracked (hl : s.tracked reqId = some l) (h : SameCounters l l') :
    Writes reqId s (s.setLedger reqId l') :=
  writes_update rfl rfl rfl rfl rfl (by rwa [hl])

theorem elsewhere_kept (h : Kept s s') (reqId : String) (k : Nat) :
    elsewhere inHand lost s' reqId k = elsewhere inHand lost s reqId k := by
  rw [elsewhere, elsewhere, h.waiting, h.canceled, h.executor]

theorem SameCounters.accounts (h : SameCounters l l') (hl : Accounts f (some l)) :
    Accounts f (some l') := by
  obtain ⟨hlen, ht, hneed⟩ := hl
  exact ⟨by rw [h.settled, h.sent, hlen], by rw [h.settled, h.scheduled]; exact ht,
    by rw [h.needReport, h.scheduled, h.sent]; exact hneed⟩

theorem accounts_blank (h : ∀ k, f k = 0) : Accounts f (some blankLedger) :=
  ⟨rfl, Lib.Tickets.nil.congr h, by simp [blankLedger]⟩

theorem Balanced.kept (hb : Balanced inHand lost s) (h : Kept s s') : Balanced inHand lost s' := by
  intro reqId
  refine Accounts.congr ?_ (elsewhere_kept h reqId)
  rcases h.ledgers reqId with heq | ⟨l', hl', hsame⟩
  · rw [heq]
    exact hb reqId
  · rw [hl']
    have hacc := hb reqId
    cases hs : s.tracked reqId with
    | none => rw [hs] at hsame hacc; exact hsame.accounts (accounts_blank hacc)
    | some l => rw [hs] at hsame hacc; exact hsame.accounts hacc

theorem kept_setQueryManager (m : LocationQueryManager) : Kept s (s.setQueryManager m) :=
  ⟨rfl, rfl, rfl, rfl, fun _ => .inl rfl⟩

theorem sameCounters_ledgerOf (s : ConnectorScheduler) (request : Request) :
    SameCounters ((s.tracked request.requestId).getD blankLedger) (s.ledgerOf request) := by
  rw [ledgerOf]
  cases s.tracked request.requestId with
  | none => exact ⟨rfl, rfl, rfl, rfl⟩
  | some l => exact .refl l

theorem writes_getNumNewMatchedTokens (request : Request) (nc : Nat) (env : AskEnv) :
    Writes request.requestId s (s.getNumNewMatchedTokens cfg request nc env).1 := by
  rw [getNumNewMatchedTokens]
  split_ifs with hburned
  · cases htracked : s.tracked request.requestId with
    | none => exact .refl _ s
    | some l => exact writes_of_tracked htracked ⟨rfl, rfl, rfl, rfl⟩
  · generalize s.locationQueryManager.getLocationsForQuery cfg.asyncGetCacheLocation
      cfg.locationQueryMaxAge request (nc / cfg.managerBlockSize) env = r
    obtain ⟨m, answer⟩ := r
    cases answer with
    | none => exact ⟨kept_setQueryManager m, fun _ _ => rfl⟩
    | some locations =>
      exact writes_update rfl rfl rfl rfl rfl
        ((sameCounters_ledgerOf s request).trans ⟨rfl, rfl, rfl, rfl⟩)

/-- The hook gives the request a ledger with the new table. -/
theorem updateStateAfterAlloc_spec {request : Request} {blocks : List (List Nat)} {n : Nat}
    (h : s.updateStateAfterAlloc request blocks n = .ok s') :
    Writes request.requestId s s'
      ∧ ∃ l, s'.tracked request.requestId = some l ∧ l.blockIdsPerGroup = blocks := by
  have hsame : SameCounters ((s.tracked request.requestId).getD blankLedger)
      (setTable (s.ledgerOf request) blocks) :=
    (sameCounters_ledgerOf s request).trans ⟨rfl, rfl, rfl, rfl⟩
  rw [updateStateAfterAlloc] at h
  dsimp only at h
  split_ifs at h
  · obtain rfl := Except.ok.inj h
    exact ⟨writes_update rfl rfl rfl rfl rfl hsame, _, update_self _ _ _, rfl⟩
  · generalize s.locationQueryManager.consumeLocations request.requestId = r at h
    obtain ⟨m, consumed⟩ := r
    cases consumed with
    | none => cases h
    | some p =>
      obtain ⟨locations, computedBlocks⟩ := p
      dsimp only at h
      split_ifs at h
      · obtain rfl := Except.ok.inj h
        exact ⟨writes_update rfl rfl rfl rfl rfl hsame, _, update_self _ _ _, rfl⟩
      · obtain rfl := Except.ok.inj h
        exact ⟨writes_update rfl rfl rfl rfl (update_idem _ _ _)
          (hsame.trans ⟨rfl, rfl, rfl, rfl⟩), _, update_self _ _ _, rfl⟩

theorem writes_appendTokens (reqId : String) (tokens : List Nat) :
    Writes reqId s (SchedSystem.appendTokens s reqId tokens) := by
  rw [SchedSystem.appendTokens]
  cases htracked : s.tracked reqId with
  | none => exact .refl _ s
  | some l => exact writes_of_tracked htracked ⟨rfl, rfl, rfl, rfl⟩

theorem writes_ingestNew (p : String × List (List Nat)) : Writes p.1 s (s.ingestNew p) := by
  rw [ingestNew]
  cases htracked : s.tracked p.1 with
  | none => exact .refl _ s
  | some l => exact writes_of_tracked htracked ⟨rfl, rfl, rfl, rfl⟩

theorem writes_ingestCached (c : CachedReq) : Writes c.reqId s (s.ingestCached c) := by
  rw [ingestCached]
  cases htracked : s.tracked c.reqId with
  | none => exact .refl _ s
  | some l =>
    cases hnew : c.newBlockIds with
    | none => exact .refl _ s
    | some new =>
      dsimp only
      split_ifs
      · exact writes_of_tracked htracked ⟨rfl, rfl, rfl, rfl⟩
      · exact writes_of_tracked htracked ⟨rfl, rfl, rfl, rfl⟩

theorem kept_foldl {α : Type} {f : ConnectorScheduler → α → ConnectorScheduler}
    (hf : ∀ s a, Kept s (f s a)) (as : List α) (s : ConnectorScheduler) :
    Kept s (as.foldl f s) := by
  induction as generalizing s with
  | nil => exact .refl s
  | cons a as ih => exact (hf s a).trans (ih (f s a))

theorem kept_ingestScheduledReqs (out : SchedulerOutput) : Kept s (s.ingestScheduledReqs out) :=
  (kept_foldl (fun _ p => (writes_ingestNew p).kept) _ s).trans
    (kept_foldl (fun _ c => (writes_ingestCached c).kept) _ _)

/-! ## Starting sessions -/

theorem length_newTask_le (cfg : SchedulerConfig) (l : RequestLedger) : (newTask cfg l).length ≤ 1 := by
  rw [newTask]
  split_ifs <;> simp

theorem count_newTask (l : RequestLedger) (k : Nat) : ((newTask cfg l).map (·.session)).count k =
      if k = l.scheduledSavingCount then (newTask cfg l).length else 0 := by
  rw [newTask]
  split_ifs with hlt hk <;> simp_all [eq_comm]

theorem Balanced.dispatch (hb : Balanced inHand lost s) :
    Balanced inHand lost (s.dispatchIncrementalSaves cfg) := by
  intro reqId
  have helse : ∀ k, elsewhere inHand lost (s.dispatchIncrementalSaves cfg) reqId k =
      elsewhere inHand lost s reqId k +
        ((((s.tracked reqId).map (newTask cfg)).getD []).map (·.session)).count k := by
    intro k
    simp only [elsewhere, dispatchIncrementalSaves, map_append, count_append]
    omega
  have hacc := hb reqId
  have htr : (s.dispatchIncrementalSaves cfg).tracked reqId =
      (s.tracked reqId).map (dispatched cfg) := rfl
  rw [htr]
  cases hs : s.tracked reqId with
  | none =>
    rw [hs] at hacc helse
    exact fun k => (helse k).trans (hacc k)
  | some l =>
    rw [hs] at hacc helse
    obtain ⟨hlen, ht, hneed⟩ := hacc
    have hcount : ∀ k, elsewhere inHand lost (s.dispatchIncrementalSaves cfg) reqId k =
        elsewhere inHand lost s reqId k +
          if k = l.scheduledSavingCount then (newTask cfg l).length else 0 := by
      intro k
      rw [helse, ← count_newTask]
      rfl
    refine ⟨hlen, ?_, fun h => ?_⟩
    · rcases Nat.le_one_iff_eq_zero_or_eq_one.mp (length_newTask_le cfg l) with h0 | h1
      · rw [dispatched, h0]
        exact ht.congr fun k => by rw [hcount, h0]; simp
      · rw [dispatched, h1]
        exact ht.issue fun k => by rw [hcount, h1]
    · -- a new session is one more to count
      have hle := ht.length_le
      have hne := hneed h
      simp only [dispatched]
      omega

/-! ## Counting sessions -/

/-- What is found elsewhere when the first entry in hand is put aside. -/
theorem elsewhere_cons (c : String × Nat) (reqId : String) (k : Nat) :
    elsewhere (c :: inHand) lost s reqId k =
      elsewhere inHand lost s reqId k + if (reqId, k) = c then 1 else 0 := by
  simp only [elsewhere, count_cons]
  rcases eq_or_ne (reqId, k) c with rfl | h
  · simp
    omega
  · simp [h, Ne.symm h]

theorem Balanced.tracked_of_inHand {c : String × Nat} (hb : Balanced (c :: inHand) lost s) :
    ∃ l, s.tracked c.1 = some l := by
  have hacc := hb c.1
  cases hs : s.tracked c.1 with
  | some l => exact ⟨l, rfl⟩
  | none =>
    rw [hs] at hacc
    have := hacc c.2
    rw [elsewhere_cons, if_pos rfl] at this
    omega

theorem settle_cases (reqId : String) (l : RequestLedger) (k : Nat) :
    (l.needReportAfterSavingFinished = true ∧ l.scheduledSavingCount = l.sentSavingCount + 1 ∧
        s.settle reqId l k = s.retireRequest reqId) ∨
      ((l.needReportAfterSavingFinished = true →
          l.scheduledSavingCount ≠ l.sentSavingCount + 1) ∧
        s.settle reqId l k = s.setLedger reqId (ConnectorScheduler.counted l k)) := by
  rw [settle]
  split_ifs with h
  · exact .inl ⟨h.1, h.2, rfl⟩
  · exact .inr ⟨fun hneed heq => h ⟨hneed, heq⟩, rfl⟩

theorem Balanced.settle {c : String × Nat} (hb : Balanced (c :: inHand) lost s)
    (hl : s.tracked c.1 = some l) : Balanced inHand lost (s.settle c.1 l c.2) := by
  obtain ⟨reqId, k⟩ := c
  dsimp only at hl ⊢
  have hacc := hb reqId
  rw [hl] at hacc
  obtain ⟨hlen, ht, -⟩ := hacc
  -- the session moves from the hand to the counter
  have ht' : Lib.Tickets (l.settled ++ [k]) (elsewhere inHand lost s reqId)
      l.scheduledSavingCount := by
    refine ht.settle fun j => ?_
    rw [elsewhere_cons]
    simp
  have hlen' : (l.settled ++ [k]).length = l.sentSavingCount + 1 := by
    rw [length_append, hlen]
    rfl
  have hother : ∀ id, id ≠ reqId → Accounts (elsewhere inHand lost s id) (s.tracked id) := by
    intro id hid
    refine (hb id).congr fun j => ?_
    rw [elsewhere_cons, if_neg fun h => hid (congrArg Prod.fst h)]
    rfl
  rcases settle_cases (s := s) reqId l k with ⟨-, hsched, heq⟩ | ⟨hneed, heq⟩
  · -- the last session of a finished request
    rw [heq]
    exact (forall_update_iff _ fun id => Accounts (elsewhere inHand lost s id)).mpr
      ⟨ht'.eq_zero_of_length (hlen'.trans hsched.symm), hother⟩
  · rw [heq]
    exact (forall_update_iff _ fun id => Accounts (elsewhere inHand lost s id)).mpr
      ⟨⟨hlen', ht', hneed⟩, hother⟩

theorem Balanced.foldl_settleCanceled {cs : List (String × Nat)} (hb : Balanced cs lost s) :
    Balanced [] lost (cs.foldl settleCanceled s) := by
  induction cs generalizing s with
  | nil => exact hb
  | cons c cs ih =>
    obtain ⟨l, hl⟩ := hb.tracked_of_inHand
    rw [foldl_cons, settleCanceled, hl]
    exact ih (hb.settle hl)

theorem Balanced.foldl_handOver {rs : List SaveRequest} {acc : List SaveRequest}
    (hb : Balanced (rs.map SaveRequest.pair) lost s) :
    Balanced [] lost (rs.foldl handOver (s, acc)).1 := by
  induction rs generalizing s acc with
  | nil => exact hb
  | cons r rs ih =>
    obtain ⟨l, hl⟩ := hb.tracked_of_inHand
    have hl' : s.tracked r.reqId = some l := hl
    rw [foldl_cons, handOver, hl']
    exact ih (hb.settle hl)

theorem Balanced.takeSaves (hb : Balanced [] lost s) :
    Balanced (s.waitingToSaveRequests.map SaveRequest.pair) lost s.takeSaves :=
  fun reqId => (hb reqId).congr fun k => by simp [elsewhere, ConnectorScheduler.takeSaves]

theorem Balanced.takeCanceled (hb : Balanced [] lost s) :
    Balanced s.canceledSaveRequestIds lost s.takeCanceled := by
  refine fun reqId => (hb reqId).congr fun k => ?_
  simp only [elsewhere, ConnectorScheduler.takeCanceled, count_nil]
  omega

theorem Balanced.collect (hb : Balanced [] lost s) : Balanced [] lost s.collectSaveInstructions.1 :=
  hb.takeSaves.foldl_handOver.takeCanceled.foldl_settleCanceled

theorem Balanced.flush (hb : Balanced [] lost s) : Balanced [] lost s.flush := hb

theorem Balanced.build (hb : Balanced [] lost s) (cfg : SchedulerConfig) (out : SchedulerOutput) :
    Balanced [] lost (s.buildConnectorMeta cfg out).1 :=
  (hb.kept (kept_ingestScheduledReqs out)).dispatch.collect.flush

/-! ## Ending a session, finishing a request -/

theorem count_erase_task {tasks : List SaveTask} {task : SaveTask} (hmem : task ∈ tasks) (k : Nat) :
    (tasks.map (·.session)).count k =
      ((tasks.erase task).map (·.session)).count k + if k = task.session then 1 else 0 := by
  have hperm := (perm_cons_erase hmem).map (·.session)
  rw [hperm.count_eq, map_cons, count_cons]
  congr 1
  by_cases hk : k = task.session <;> simp [hk, Ne.symm]

theorem Balanced.moved {lost' : String → List Nat} {task : SaveTask} (hb : Balanced [] lost s)
    (hmem : task ∈ s.httpExecutor reqId) (htracked : s'.tracked = s.tracked)
    (helse : ∀ id k, elsewhere [] lost' s' id k
      = elsewhere [] lost (s.endTask reqId task) id k + if id = reqId ∧
      k = task.session then 1 else 0) :
    Balanced [] lost' s' := by
  intro id
  rw [htracked]
  refine (hb id).congr fun k => ?_
  rw [helse]
  rcases eq_or_ne id reqId with rfl | hid
  · have hcount := count_erase_task hmem k
    simp only [elsewhere, endTask, update_self, true_and]
    omega
  · rw [if_neg fun h => hid h.1]
    simp only [elsewhere, endTask, update_of_ne hid]
    omega

theorem finishRequest_cases (s : ConnectorScheduler) (reqId : String) :
    (s.tracked reqId = none ∧ s.finishRequest reqId =
        (s.setQueryManager (s.locationQueryManager.invalidate reqId), false)) ∨
      ∃ l, s.tracked reqId = some l ∧
        ((l.scheduledSavingCount = l.sentSavingCount ∧
            s.finishRequest reqId = (s.retireRequest reqId, true)) ∨
          (l.scheduledSavingCount ≠ l.sentSavingCount ∧ s.finishRequest reqId =
            (s.setLedger reqId { l with needReportAfterSavingFinished := true }, true))) := by
  rw [ConnectorScheduler.finishRequest]
  cases hs : s.tracked reqId with
  | none => exact .inl ⟨rfl, rfl⟩
  | some l =>
    refine .inr ⟨l, rfl, ?_⟩
    dsimp only
    split_ifs with heq
    · exact .inl ⟨heq, rfl⟩
    · exact .inr ⟨heq, rfl⟩

theorem Balanced.finishRequest (hb : Balanced [] lost s) (reqId : String) :
    Balanced [] lost (s.finishRequest reqId).1 := by
  have hacc := hb reqId
  rcases finishRequest_cases s reqId with ⟨-, hr⟩ | ⟨l, hl, hr⟩
  · rw [hr]
    exact hb
  · rw [hl] at hacc
    obtain ⟨hlen, ht, -⟩ := hacc
    rcases hr with ⟨heq, hr⟩ | ⟨hne, hr⟩
    · rw [hr]
      exact (forall_update_iff _ fun id => Accounts (elsewhere [] lost s id)).mpr
        ⟨ht.eq_zero_of_length (hlen.trans heq.symm), fun id _ => hb id⟩
    · rw [hr]
      exact (forall_update_iff _ fun id => Accounts (elsewhere [] lost s id)).mpr
        ⟨⟨hlen, ht, fun _ => hne⟩, fun id _ => hb id⟩

/-! ## What settling leaves alone -/

/-- From `s` to `s'` sessions were counted and finished requests retired,
nothing else. -/
structure Settled (s s' : ConnectorScheduler) : Prop where
  waiting : s'.waitingToSaveRequests = s.waitingToSaveRequests
  canceled : s'.canceledSaveRequestIds = s.canceledSaveRequestIds
  executor : s'.httpExecutor = s.httpExecutor
  loads : s'.waitingToLoadRequests = s.waitingToLoadRequests
  finishes : ∃ retired, s'.waitingToFinishRequests = s.waitingToFinishRequests ++ retired ∧
    retired.Nodup ∧
    ∀ reqId, reqId ∈ retired ↔ s.tracked reqId ≠ none ∧ s'.tracked reqId = none
  ledgers : ∀ reqId l', s'.tracked reqId = some l' → ∃ l, s.tracked reqId = some l ∧
    l'.vllmRequest = l.vllmRequest ∧ l'.blockIdsPerGroup = l.blockIdsPerGroup ∧
    l'.hasSavedBlockNum = l.hasSavedBlockNum ∧
    l'.needReportAfterSavingFinished = l.needReportAfterSavingFinished

theorem Settled.refl (s : ConnectorScheduler) : Settled s s := by
  refine ⟨rfl, rfl, rfl, rfl, ⟨[], by simp, nodup_nil, fun reqId => ?_⟩,
    fun _ l hl => ⟨l, hl, rfl, rfl, rfl, rfl⟩⟩
  simp only [not_mem_nil, false_iff]
  exact fun h => h.1 h.2

theorem Settled.untracked (h : Settled s s') (hs : s.tracked reqId = none) :
    s'.tracked reqId = none := by
  cases hs' : s'.tracked reqId with
  | none => rfl
  | some l' =>
    obtain ⟨l, hl, -⟩ := h.ledgers reqId l' hs'
    rw [hs] at hl
    cases hl

theorem Settled.trans {s'' : ConnectorScheduler} (h : Settled s s') (h' : Settled s' s'') :
    Settled s s'' := by
  obtain ⟨r, hr, hnd, hmem⟩ := h.finishes
  obtain ⟨r', hr', hnd', hmem'⟩ := h'.finishes
  refine ⟨h'.waiting.trans h.waiting, h'.canceled.trans h.canceled, h'.executor.trans h.executor,
    h'.loads.trans h.loads, ⟨r ++ r', by rw [hr', hr, append_assoc], ?_, fun reqId => ?_⟩,
    fun reqId l'' hl'' => ?_⟩
  · refine nodup_append.mpr ⟨hnd, hnd', fun a ha b hb hab => ?_⟩
    subst hab
    exact ((hmem' a).mp hb).1 ((hmem a).mp ha).2
  · rw [mem_append, hmem, hmem']
    constructor
    · rintro (⟨h1, h2⟩ | ⟨h1, h2⟩)
      · exact ⟨h1, h'.untracked h2⟩
      · exact ⟨fun hs => h1 (h.untracked hs), h2⟩
    · rintro ⟨h1, h2⟩
      by_cases hs' : s'.tracked reqId = none
      · exact .inl ⟨h1, hs'⟩
      · exact .inr ⟨hs', h2⟩
  · obtain ⟨l', hl', h1, h2, h3, h4⟩ := h'.ledgers reqId l'' hl''
    obtain ⟨l, hl, g1, g2, g3, g4⟩ := h.ledgers reqId l' hl'
    exact ⟨l, hl, h1.trans g1, h2.trans g2, h3.trans g3, h4.trans g4⟩

theorem settled_settle (hl : s.tracked reqId = some l) (k : Nat) :
    Settled s (s.settle reqId l k) := by
  rcases settle_cases (s := s) reqId l k with ⟨-, -, heq⟩ | ⟨-, heq⟩
  · rw [heq]
    refine ⟨rfl, rfl, rfl, rfl, ⟨[reqId], rfl, nodup_singleton _, fun id => ?_⟩,
      fun id l' hl' => ?_⟩
    · rw [tracked_retireRequest]
      rcases eq_or_ne id reqId with rfl | hid
      · simp [hl]
      · simp [hid]
    · rw [tracked_retireRequest] at hl'
      rcases eq_or_ne id reqId with rfl | hid
      · rw [update_self] at hl'
        cases hl'
      · rw [update_of_ne hid] at hl'
        exact ⟨l', hl', rfl, rfl, rfl, rfl⟩
  · rw [heq]
    refine ⟨rfl, rfl, rfl, rfl, ⟨[], by simp [setLedger], nodup_nil, fun id => ?_⟩,
      fun id l' hl' => ?_⟩
    · rw [tracked_setLedger]
      rcases eq_or_ne id reqId with rfl | hid
      · simp
      · simp [hid]
    · rw [tracked_setLedger] at hl'
      rcases eq_or_ne id reqId with rfl | hid
      · rw [update_self] at hl'
        obtain rfl := Option.some.inj hl'
        exact ⟨l, hl, rfl, rfl, rfl, rfl⟩
      · rw [update_of_ne hid] at hl'
        exact ⟨l', hl', rfl, rfl, rfl, rfl⟩

theorem settled_settleCanceled (c : String × Nat) : Settled s (s.settleCanceled c) := by
  rw [settleCanceled]
  cases hl : s.tracked c.1 with
  | none => exact .refl s
  | some l => exact settled_settle hl c.2

theorem settled_handOver (acc : List SaveRequest) (r : SaveRequest) :
    Settled s (handOver (s, acc) r).1 := by
  rw [handOver]
  cases hl : s.tracked r.reqId with
  | none => exact .refl s
  | some l => exact settled_settle hl r.session

theorem settled_foldl_settleCanceled (cs : List (String × Nat)) (s : ConnectorScheduler) :
    Settled s (cs.foldl settleCanceled s) := by
  induction cs generalizing s with
  | nil => exact .refl s
  | cons c cs ih => exact (settled_settleCanceled c).trans (ih _)

theorem settled_foldl_handOver (rs acc : List SaveRequest) (s : ConnectorScheduler) :
    Settled s (rs.foldl handOver (s, acc)).1 := by
  induction rs generalizing s acc with
  | nil => exact .refl s
  | cons r rs ih => exact (settled_handOver acc r).trans (ih _ _)

/-- Both queues have been emptied; the rest is settling. -/
theorem collect_spec (s : ConnectorScheduler) :
    Settled { s with waitingToSaveRequests := [], canceledSaveRequestIds := [] }
      s.collectSaveInstructions.1 := by
  have hsaves := settled_foldl_handOver s.waitingToSaveRequests [] s.takeSaves
  -- taking the cancellations commutes with settling the saves
  have htake : Settled { s with waitingToSaveRequests := [], canceledSaveRequestIds := [] }
      (s.waitingToSaveRequests.foldl handOver (s.takeSaves, [])).1.takeCanceled :=
    ⟨hsaves.waiting, rfl, hsaves.executor, hsaves.loads, hsaves.finishes, hsaves.ledgers⟩
  exact htake.trans (settled_foldl_settleCanceled _ _)

end TairKvCache.PyConnector
