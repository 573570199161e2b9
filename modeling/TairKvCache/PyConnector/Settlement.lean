import TairKvCache.PyConnector.SessionLedger

/-!
# Every save session is settled

A session on the executor settles unless it raises. `settles_iff` says from
what the manager and the coordinator answer when that is: the answer must
carry locations and a session id, and where there is something to save its
mask must not be null and the send must not raise. `balanced_reach` is the
session accounting along whole runs.
-/

namespace TairKvCache.PyConnector

open ConnectorScheduler List

/-! ## When a session raises -/

/-- The mask the log line can summarise. -/
def maskLogs : Field BlockMask → Bool
  | .value mask =>
    match mask.boolMasks with
    | .absent => true
    | .null => false
    | .value masks => masks.values ≠ .null
  | _ => true

/-- The mask that can be turned into indices once it has been logged. -/
def maskParses : Field BlockMask → Bool
  | .absent => true
  | .null => false
  | .value mask => mask.offset ≠ .null

def SessionOutcome.Settles (outcome : SessionOutcome) : Prop :=
  ∀ response, outcome.answer = some response → ∃ locs w,
    response.locations = .value locs ∧ response.writeSessionId = .value w ∧
      maskLogs response.blockMask = true ∧
      (locs = [] ∨ maskParses response.blockMask = true ∧ outcome.sendRaises = false)

theorem logBlockMask_ok_iff (blockMask : Field BlockMask) :
    logBlockMask blockMask = .ok () ↔ maskLogs blockMask = true := by
  cases blockMask with
  | absent | null => exact ⟨fun _ => rfl, fun _ => rfl⟩
  | value mask =>
    obtain ⟨offset, boolMasks⟩ := mask
    cases boolMasks with
    | absent => exact ⟨fun _ => rfl, fun _ => rfl⟩
    | null => simp [logBlockMask, maskLogs]
    | value masks =>
      obtain ⟨values⟩ := masks
      cases values <;> simp [logBlockMask, maskLogs]

theorem parse_ok_iff {blockMask : Field BlockMask} (hlog : maskLogs blockMask = true) (n : Nat) :
    (∃ idxs, parseBlockMaskToSaveIndices blockMask n = .ok idxs) ↔ maskParses blockMask = true := by
  cases blockMask with
  | absent => exact ⟨fun _ => rfl, fun _ => ⟨_, rfl⟩⟩
  | null => simp [parseBlockMaskToSaveIndices, maskParses]
  | value mask =>
    obtain ⟨offset, boolMasks⟩ := mask
    cases offset with
    | value offset => exact ⟨fun _ => rfl, fun _ => ⟨_, rfl⟩⟩
    | null => simp [parseBlockMaskToSaveIndices, maskParses]
    | absent =>
      refine ⟨fun _ => rfl, fun _ => ?_⟩
      cases boolMasks with
      | absent => exact ⟨_, rfl⟩
      | null => cases hlog
      | value masks =>
        obtain ⟨values⟩ := masks
        cases values with
        | absent => exact ⟨_, rfl⟩
        | null => cases hlog
        | value values => exact ⟨_, rfl⟩

/-- A session of which the answer carries locations and a session id. -/
theorem startSave_answered (reqId : String) (task : SaveTask) (locs : List LocationDict)
    (w : String) (blockMask : Field BlockMask) (sendRaises : Bool) :
    startSaveKvcacheAsync reqId task ⟨some ⟨.value locs, .value w, blockMask⟩, sendRaises⟩ =
      (logBlockMask blockMask).bind fun _ =>
        if locs = [] then .ok .canceled
        else (parseBlockMaskToSaveIndices blockMask task.targetSaveNum).bind fun idxs =>
          if sendRaises then .error .runtimeError
          else .ok (.toSave ⟨reqId, w, locs⟩ ⟨reqId, locs, idxs, w, [], task.session⟩) :=
  rfl

variable {reqId : String} {task : SaveTask} {outcome : SessionOutcome}

/-- A session that does not raise was answered with locations and a session
id, or not at all. -/
theorem answered_of_ok {settled : Settlement}
    (h : startSaveKvcacheAsync reqId task outcome = .ok settled) :
    (outcome.answer = none ∧ settled = .canceled) ∨ ∃ locs w blockMask,
      outcome = ⟨some ⟨.value locs, .value w, blockMask⟩, outcome.sendRaises⟩ := by
  obtain ⟨answer, sendRaises⟩ := outcome
  cases answer with
  | none => exact .inl ⟨rfl, (Except.ok.inj h).symm⟩
  | some response =>
    obtain ⟨locations, writeSessionId, blockMask⟩ := response
    refine .inr ?_
    have hlog : ∀ {x : Except PyError Unit}, x.bind (fun _ => .error PyError.typeError) ≠
        .ok settled := by
      intro x
      cases x <;> simp [Except.bind]
    cases locations with
    | absent => cases h
    | null =>
      cases writeSessionId with
      | absent => cases h
      | null | value w => exact absurd h hlog
    | value locs =>
      cases writeSessionId with
      | absent => cases h
      | null => exact absurd h hlog
      | value w => exact ⟨locs, w, blockMask, rfl⟩

theorem settles_iff (reqId : String) (task : SaveTask) (outcome : SessionOutcome) :
    (∃ settled, startSaveKvcacheAsync reqId task outcome = .ok settled) ↔ outcome.Settles := by
  constructor
  · rintro ⟨settled, hok⟩ response hresponse
    rcases answered_of_ok hok with ⟨hnone, -⟩ | ⟨locs, w, blockMask, houtcome⟩
    · rw [hnone] at hresponse; cases hresponse
    · generalize outcome.sendRaises = sendRaises at houtcome
      subst houtcome
      obtain rfl := Option.some.inj hresponse
      rw [startSave_answered] at hok
      refine ⟨locs, w, rfl, rfl, ?_⟩
      cases hlog : logBlockMask blockMask with
      | error err => rw [hlog] at hok; cases hok
      | ok u =>
        have hlogs := (logBlockMask_ok_iff blockMask).mp hlog
        refine ⟨hlogs, or_iff_not_imp_left.mpr fun hne => ?_⟩
        rw [hlog] at hok
        dsimp only [Except.bind] at hok
        rw [if_neg hne] at hok
        cases hparse : parseBlockMaskToSaveIndices blockMask task.targetSaveNum with
        | error err => rw [hparse] at hok; cases hok
        | ok idxs =>
          refine ⟨(parse_ok_iff hlogs _).mp ⟨idxs, hparse⟩, ?_⟩
          rw [hparse] at hok
          cases sendRaises with
          | true => cases hok
          | false => rfl
  · intro hsettles
    obtain ⟨answer, sendRaises⟩ := outcome
    cases answer with
    | none => exact ⟨_, rfl⟩
    | some response =>
      obtain ⟨locs, w, hlocs, hw, hlogs, hrest⟩ := hsettles response rfl
      obtain ⟨locations, writeSessionId, blockMask⟩ := response
      dsimp only at hlocs hw hlogs hrest
      subst hlocs hw
      rw [startSave_answered, (logBlockMask_ok_iff blockMask).mpr hlogs]
      dsimp only [Except.bind]
      rcases hrest with rfl | ⟨hparses, rfl⟩
      · exact ⟨_, rfl⟩
      · obtain ⟨idxs, hparse⟩ := (parse_ok_iff hlogs task.targetSaveNum).mpr hparses
        rw [hparse]
        by_cases hnil : locs = []
        · exact ⟨_, by rw [if_pos hnil]⟩
        · exact ⟨_, by rw [if_neg hnil]; rfl⟩

theorem toSave_spec {start : SendBlockStartEvent} {request : SaveRequest}
    (h : startSaveKvcacheAsync reqId task outcome = .ok (.toSave start request)) :
    start = ⟨reqId, request.writeSessionId, request.targetLocations⟩ ∧
      request.pair = (reqId, task.session) ∧ request.targetLocations ≠ [] := by
  rcases answered_of_ok h with ⟨-, hc⟩ | ⟨locs, w, blockMask, houtcome⟩
  · cases hc
  · rw [houtcome, startSave_answered] at h
    cases hlog : logBlockMask blockMask with
    | error err => rw [hlog] at h; cases h
    | ok u =>
      rw [hlog] at h
      dsimp only [Except.bind] at h
      by_cases hne : locs = []
      · rw [if_pos hne] at h
        cases h
      · rw [if_neg hne] at h
        cases hparse : parseBlockMaskToSaveIndices blockMask task.targetSaveNum with
        | error err => rw [hparse] at h; cases h
        | ok idxs =>
          rw [hparse] at h
          dsimp only at h
          split_ifs at h
          cases h
          exact ⟨rfl, rfl, hne⟩

namespace SchedSystem

variable {cfg : SchedulerConfig} {s s' : SchedSystem} {a : SchedAction} {o : SchedOutput}

/-! ## The sessions in every reachable state -/

theorem balanced_lose (hb : Balanced [] s.lost s.sched) (hmem : task ∈ s.sched.httpExecutor reqId) :
    Balanced [] ((s.withSched (s.sched.endTask reqId task)).lose reqId task.session).lost
      (s.sched.endTask reqId task) := by
  refine hb.moved hmem rfl fun id k => ?_
  simp only [elsewhere, lose, withSched]
  by_cases hid : id = reqId
  · subst hid
    simp only [Function.update_self, count_append, count_singleton, true_and]
    simp only [beq_iff_eq, eq_comm (a := task.session)]
    omega
  · simp only [Function.update_of_ne hid, hid, false_and, if_false, Nat.add_zero]

theorem balanced_settlement {settled : Settlement} {lost : String → List Nat}
    {sched : ConnectorScheduler} (hb : Balanced [] lost sched)
    (hmem : task ∈ sched.httpExecutor reqId)
    (hok : startSaveKvcacheAsync reqId task outcome = .ok settled) :
    Balanced [] lost ((sched.endTask reqId task).settlement reqId task.session settled) := by
  have hpair : ∀ id k, ([(reqId, task.session)] : List (String × Nat)).count (id, k) =
      if id = reqId ∧ k = task.session then 1 else 0 := by
    intro id k
    rw [count_singleton]
    simp only [beq_iff_eq, Prod.mk.injEq, eq_comm (a := reqId), eq_comm (a := task.session)]
  cases settled with
  | canceled =>
    refine hb.moved hmem rfl fun id k => ?_
    rw [← hpair]
    simp only [elsewhere, settlement, count_append]
    omega
  | toSave start request =>
    refine hb.moved hmem rfl fun id k => ?_
    rw [← hpair, ← (toSave_spec hok).2.1]
    simp only [elsewhere, settlement, map_append, count_append, map_singleton]
    omega

/-! ## Minor steps -/

theorem ne_of_finished {id : String} (h : s.finished reqId = false) (h' : s.finished id = true) :
    id ≠ reqId := by
  rintro rfl
  rw [h] at h'
  cases h'

/-- The calls that write at most the ledger of one request that has not
finished. -/
def minor : SchedAction → Bool
  | .build _ | .sessionEnds _ _ _ | .finish _ => false
  | _ => true

structure Frame (s s' : SchedSystem) : Prop where
  kept : Kept s.sched s'.sched
  finished : s'.finished = s.finished
  lost : s'.lost = s.lost
  other : ∀ id, s.finished id = true → s'.sched.tracked id = s.sched.tracked id

theorem Frame.of_writes (hfin : s.finished reqId = false) (hw : Writes reqId s.sched s'.sched)
    (hf : s'.finished = s.finished) (hl : s'.lost = s.lost) : Frame s s' :=
  ⟨hw.kept, hf, hl, fun id hid => hw.other id (ne_of_finished hfin hid)⟩

theorem StepOf.frame (h : StepOf cfg s a s' o) (ha : minor a = true) : Frame s s' := by
  cases h with
  | matchHook request nc env hfin hnone =>
    exact .of_writes hfin (writes_getNumNewMatchedTokens request nc env) rfl rfl
  | alloc request blocks n sched hfin hok =>
    exact .of_writes hfin (updateStateAfterAlloc_spec hok).1 rfl rfl
  | appendTokens reqId tokens hfin =>
    exact .of_writes hfin (writes_appendTokens reqId tokens) rfl rfl
  | build | sessionLost | sessionSettles | finish => cases ha
  | _ => exact ⟨⟨rfl, rfl, rfl, rfl, fun _ => .inl rfl⟩, rfl, rfl, fun _ _ => rfl⟩

theorem balanced_step (hb : Balanced [] s.lost s.sched) (h : StepOf cfg s a s' o) :
    Balanced [] s'.lost s'.sched := by
  have hframe := h.frame
  cases h with
  | build out hout => exact hb.build cfg out
  | sessionLost reqId task outcome err hmem hraise => exact balanced_lose hb hmem
  | sessionSettles reqId task outcome settled hmem hok => exact balanced_settlement hb hmem hok
  | finish reqId hfin => exact hb.finishRequest reqId
  | _ => exact hb.kept (hframe rfl).kept

theorem balanced_reach {ok : SchedSystem → SchedAction → Prop} (h : (machine cfg).Reach ok s) :
    Balanced [] s.lost s.sched := by
  refine h.inv (P := fun s => Balanced [] s.lost s.sched) ?_ ?_
  · rintro s rfl reqId k
    rfl
  · intro s a s' hb _ hstep
    obtain ⟨o, hstep⟩ := machine_step hstep
    exact balanced_step hb (stepOf hstep)

end SchedSystem

end TairKvCache.PyConnector
