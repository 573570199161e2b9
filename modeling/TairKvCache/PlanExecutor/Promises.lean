import TairKvCache.PlanExecutor.Tokens

/-!
# Every accepted promise is completed once

The invariant `Inv` is kept by every step: each promise is in one place, no
task is both started and cancelled, the migration slots are those of the
workers, and once the executor is stopped no queue holds a task.

A promise can still end without a value: `DoCopyTask` is the one task body
without a handler around it, so an exception of the storage's `Copy` destroys
the promise of the task. `copyReturns` is the guard that excludes this, and
under it `promises_completed_once` holds in every state of every run.
-/

namespace TairKvCache.PlanExecutor

open Lib List Executor Worker
open Option (some.inj isSome_some some_get)

/-! ## The invariant -/

structure Inv (cfg : Config) (s : Executor) : Prop where
  tokens : s.tokens = Multiset.range s.nextPromise
  sequences : s.sequences ≤ Multiset.range s.sequenceCounter
  slots : s.runningMigrationTasks = (s.workers.map slot).sum
  budget : s.runningMigrationTasks ≤ cfg.migrationBudget
  threads : s.workers.length = cfg.threads
  stopped : s.stop = true → ∀ c, s.taskQueues c = []
  live : s.stop = false → s.cancelTasks = [] ∧ s.stopReturned = false ∧ exited ∉ s.workers
  returned : s.stopReturned = true → s.cancelTasks = [] ∧ ∀ w ∈ s.workers, w = .exited

variable {cfg : Config} {s s' : Executor}

open Executor

theorem Inv.init (cfg : Config) : Inv cfg (init cfg) where
  tokens := by
    simp [Executor.tokens, heldTokens, settledTokens, queuedSum, taskClasses,
      Executor.init, workerTokens, promises]
  sequences := by
    simp [Executor.sequences, queuedSum, taskClasses, Executor.init]
  slots := by simp [Executor.init, slot]
  budget := Nat.zero_le _
  threads := length_replicate
  stopped := fun _ _ => rfl
  live := fun _ => ⟨rfl, rfl, fun h => by cases eq_of_mem_replicate h⟩
  returned := nofun

/-! ## Submissions -/

variable {c : ScheduleTaskClass} {t : ScheduledTask} {m : Moment} {task : Task} {delay : Int}
    {i : Nat} {o : Outcome} {now : Int} {a : Action}

/-- A task enters a queue; what it carries are the promises made for it. -/
theorem Inv.enqueue {n : PromiseId} (hi : Inv cfg s) (hstop : s.stop = false)
    (hseq : t.sequenceId = s.sequenceCounter)
    (hn : Multiset.range n = (t.task.promises : Multiset PromiseId) + Multiset.range s.nextPromise)
      :
    Inv cfg { s with
      sequenceCounter := s.sequenceCounter + 1
      taskQueues := Function.update s.taskQueues c
        (List.orderedInsert ScheduledTask.le t (s.taskQueues c))
      nextPromise := n } := by
  refine ⟨?_, ?_, hi.slots, hi.budget, hi.threads, ?_, hi.live, hi.returned⟩
  · rw [hn, ← hi.tokens]
    simp only [Executor.tokens, heldTokens, settledTokens]
    rw [queuedSum_submit taskTokens, taskTokens]
    abel
  · have h := hi.sequences
    simp only [Executor.sequences] at h ⊢
    rw [queuedSum_submit taskSequence, taskSequence, hseq, Multiset.range_succ,
      ← Multiset.singleton_add, add_assoc, add_assoc, ← add_assoc (queuedSum taskSequence s.taskQueues)]
    exact add_le_add_right h _
  · intro hs
    rw [hstop] at hs
    cases hs

theorem Inv.submitPlain (hi : Inv cfg s) (ht : task.promises = []) :
    Inv cfg ((s.submitRaw m task delay c).getD s) := by
  cases h : s.submitRaw m task delay c with
  | none => exact hi
  | some s' =>
    obtain ⟨hstop, t, rfl, hseq, rfl⟩ := submitRaw_some h
    exact hi.enqueue hstop hseq (by rw [ht, Multiset.coe_nil, zero_add])

theorem Inv.submitWithPromise {task : PromiseId → Task} (hi : Inv cfg s)
    (ht : ∀ p, (task p).promises = [p]) : Inv cfg (s.submitWithPromise m task c) := by
  unfold Executor.submitWithPromise
  split
  next => exact hi
  next s' h =>
    obtain ⟨hstop, t, htask, hseq, rfl⟩ := submitRaw_some h
    refine hi.enqueue hstop hseq ?_
    rw [htask, ht, Multiset.coe_singleton, Multiset.range_succ, Multiset.singleton_add]

theorem Inv.call (hi : Inv cfg s) (f : SyncCall) :
    Inv cfg { s with callers := f.frame :: s.callers } := by
  refine ⟨?_, hi.sequences, hi.slots, hi.budget, hi.threads, hi.stopped, hi.live, hi.returned⟩
  have hf : frameTokens f.frame = 0 := by cases f <;> rfl
  have h := hi.tokens
  simp only [Executor.tokens, heldTokens, settledTokens] at h ⊢
  rw [map_cons, sum_cons, hf, zero_add]
  exact h

/-! ## Moments of frames -/

theorem tokens_workers (s : Executor) :
    s.tokens = queuedSum taskTokens s.taskQueues + s.settledTokens +
      (s.workers.map workerTokens).sum
      + ((s.callers.map frameTokens).sum + (s.cancelTasks.map taskTokens).sum) := by
  simp only [tokens, heldTokens]
  abel

/-- A frame had its moment, and the worker or caller it belongs to goes on
with what is left of it. -/
theorem Inv.moment {f : Frame} {next : Option Frame} (hi : Inv cfg s) (ha : Advanced s f s' next)
    (ws : List Worker) (fs : List Frame)
    (htokens : frameTokens f + ((ws.map workerTokens).sum + (fs.map frameTokens).sum)
      = (next.toList.map frameTokens).sum
        + ((s.workers.map workerTokens).sum + (s.callers.map frameTokens).sum))
    (hslots : (ws.map slot).sum = (s.workers.map slot).sum) (hlen : ws.length = s.workers.length)
    (hlive : exited ∉ s.workers → exited ∉ ws)
    (hall : (∀ w ∈ s.workers, w = .exited) → ∀ w ∈ ws, w = .exited) :
    Inv cfg { s' with workers := ws, callers := fs } := by
  refine ⟨?_, ha.sequences_le hi.sequences, ?_, ?_, hlen.trans hi.threads, ?_, ?_, ?_⟩
  · have hold := hi.tokens
    rw [tokens_workers, add_assoc, ← add_assoc (s.workers.map workerTokens).sum, ← add_assoc] at hold
    rw [tokens_workers, add_assoc, ← add_assoc (ws.map workerTokens).sum, ← add_assoc]
    simp only [ha.cancelTasks]
    exact exchange_balance htokens (by rw [← add_assoc, ← add_assoc]; exact ha.tokens) hold
  · simp only [ha.running, hslots]
    exact hi.slots
  · simp only [ha.running]
    exact hi.budget
  · intro hs c
    have hs : s.stop = true := ha.stop ▸ hs
    simp only [ha.queues hs]
    exact hi.stopped hs c
  · intro hs
    simp only [ha.cancelTasks, ha.stopReturned]
    exact (hi.live (ha.stop ▸ hs)).imp_right (.imp_right hlive)
  · intro hs
    simp only [ha.cancelTasks]
    exact (hi.returned (ha.stopReturned ▸ hs)).imp_right hall

theorem Inv.advanceCaller (hi : Inv cfg s) (h : s.advanceCaller i m o = some s') : Inv cfg s' := by
  unfold Executor.advanceCaller at h
  split at h
  next f hf =>
    obtain rfl := some.inj h
    have ha := advance_spec s m o f
    generalize s.advance m o f = r at ha
    rw [ha.callers]
    have hmoment := hi.moment ha s.workers (r.2.toList ++ s.callers.eraseIdx i) (by
      rw [map_append, sum_append, ← sum_map_eraseIdx frameTokens hf]
      abel) rfl rfl id id
    rwa [← ha.workers] at hmoment
  next => cases h

theorem not_exited_set {ws : List Worker} {w : Worker} (h : exited ∉ ws) (hw : w ≠ .exited) :
    exited ∉ ws.set i w := fun hm =>
  (mem_or_eq_of_mem_set hm).elim h fun he => hw he.symm

theorem Inv.advanceWorker (hi : Inv cfg s) (h : s.advanceWorker i m o = some s') : Inv cfg s' := by
  unfold Executor.advanceWorker at h
  split at h
  next c f hf =>
    obtain rfl := some.inj h
    have ha := advance_spec s m o f
    generalize s.advance m o f = r at ha
    generalize hw : (r.2.elim (.leaving c) (.running c) : Worker) = w
    have hwtokens : workerTokens w = (r.2.toList.map frameTokens).sum := by
      rw [← hw]
      cases r.2 <;> simp [workerTokens, frameTokens, promises]
    have hwslot : w.slot = (running c f).slot := by
      rw [← hw]
      cases r.2 <;> rfl
    have hwexit : w ≠ .exited := by
      rw [← hw]
      cases r.2 <;> simp
    have htokens := sum_map_set workerTokens w hf
    have hsum := sum_map_set slot w hf
    rw [ha.workers]
    have hmoment := hi.moment ha (s.workers.set i w) s.callers (by
      rw [← hwtokens, ← add_assoc, ← add_assoc]
      exact congrArg (· + _) htokens) (by omega) length_set (not_exited_set · hwexit) fun hall => by
        cases hall _ (mem_of_getElem? hf)
    rwa [← ha.callers] at hmoment
  next => cases h

/-! ## Workers -/

theorem pickFrom_some {cs : List ScheduleTaskClass} (h : s.pickFrom cfg now cs = some (c, t)) :
    (∃ l, s.taskQueues c = t :: l) ∧
      (isMigrationTaskClass c = true → s.runningMigrationTasks < cfg.migrationBudget) := by
  induction cs with
  | nil => cases h
  | cons c' cs ih =>
    rw [pickFrom] at h
    split at h
    next => exact ih h
    next t' l hq =>
      split_ifs at h with hbudget htime
      · exact ih h
      · exact ih h
      · obtain ⟨rfl, rfl⟩ := Prod.mk.inj (some.inj h)
        refine ⟨⟨l, hq⟩, fun hm => ?_⟩
        simp only [hm, Bool.true_and, decide_eq_true_eq, not_le] at hbudget
        exact hbudget

theorem Inv.start {l : List ScheduledTask} (hi : Inv cfg s) (hw : s.workers[i]? = some .idle)
    (hstop : s.stop = false) (hq : s.taskQueues c = t :: l)
    (hb : isMigrationTaskClass c = true → s.runningMigrationTasks < cfg.migrationBudget) :
    Inv cfg (s.start i c t) := by
  have hset := sum_map_set workerTokens (.running c t.task.frame) hw
  have hframe : workerTokens (.running c t.task.frame) = taskTokens t := by
    rw [taskTokens, workerTokens, promises]
    cases t.task <;> rfl
  have hslot := sum_map_set slot (.running c t.task.frame) hw
  simp only [slot] at hslot
  have hslots := hi.slots
  refine ⟨?_, ?_, ?_, ?_, ?_, ?_, ?_, ?_⟩
  · have htokens := hi.tokens
    rw [tokens_workers, queuedSum_take taskTokens hq] at htokens
    rw [hframe, show workerTokens .idle = 0 from rfl, zero_add] at hset
    rw [tokens_workers]
    simp only [Executor.start, settledTokens] at htokens hset ⊢
    rw [hset, ← htokens]
    abel
  · have h := hi.sequences
    rw [Executor.sequences, queuedSum_take taskSequence hq, taskSequence] at h
    refine le_of_eq_of_le ?_ h
    simp only [Executor.sequences, Executor.start, ← Multiset.coe_add, Multiset.coe_singleton]
    abel
  · simp only [Executor.start]
    omega
  · have hbudget := hi.budget
    simp only [Executor.start, slotOf]
    split
    next hm => exact hb hm
    next => exact hbudget
  · simp only [Executor.start, length_set]
    exact hi.threads
  · intro hs
    rw [show (s.start i c t).stop = s.stop from rfl, hstop] at hs
    cases hs
  · intro _
    obtain ⟨hcancel, hret, hexit⟩ := hi.live hstop
    exact ⟨hcancel, hret, not_exited_set hexit (by simp)⟩
  · intro hs
    rw [show (s.start i c t).stopReturned = s.stopReturned from rfl, (hi.live hstop).2.1] at hs
    cases hs

theorem tokens_set {w w' : Worker} {n : Nat} (hw : s.workers[i]? = some w) (h : workerTokens w = 0)
    (h' : workerTokens w' = 0) :
    ({ s with workers := s.workers.set i w', runningMigrationTasks := n } : Executor).tokens
      = s.tokens := by
  have hset := sum_map_set workerTokens w' hw
  rw [h, h', zero_add, zero_add] at hset
  rw [tokens_workers, tokens_workers]
  exact congrArg (fun x => queuedSum taskTokens s.taskQueues + s.settledTokens + x
    + ((s.callers.map frameTokens).sum + (s.cancelTasks.map taskTokens).sum)) hset

theorem Inv.select (hi : Inv cfg s) (h : s.select cfg i now = some s') : Inv cfg s' := by
  unfold Executor.select at h
  split at h
  next hw =>
    split_ifs at h with hstop
    · obtain rfl := some.inj h
      have hslot := sum_map_set slot .exited hw
      simp only [slot] at hslot
      have hslots := hi.slots
      refine ⟨?_, hi.sequences, ?_, hi.budget, ?_, hi.stopped, ?_, ?_⟩
      · rw [tokens_set hw rfl rfl]
        exact hi.tokens
      · dsimp only
        omega
      · simp only [length_set]
        exact hi.threads
      · intro hs
        rw [show s.stop = false from hs] at hstop
        cases hstop
      · intro hret
        cases (hi.returned hret).2 _ (mem_of_getElem? hw)
    · split at h
      next => cases h
      next c t hpick =>
        obtain rfl := some.inj h
        obtain ⟨⟨l, hq⟩, hb⟩ := pickFrom_some hpick
        exact hi.start hw (Bool.eq_false_iff.mpr hstop) hq hb
  next => cases h

theorem Inv.leave (hi : Inv cfg s) (h : s.leave i = some s') : Inv cfg s' := by
  unfold Executor.leave at h
  split at h
  next c hw =>
    obtain rfl := some.inj h
    have hslot := sum_map_set slot .idle hw
    simp only [slot] at hslot
    have hslots := hi.slots
    have hbudget := hi.budget
    refine ⟨?_, hi.sequences, ?_, ?_, ?_, hi.stopped, ?_, ?_⟩
    · rw [tokens_set hw rfl rfl]
      exact hi.tokens
    · dsimp only
      omega
    · dsimp only
      omega
    · simp only [length_set]
      exact hi.threads
    · intro hs
      obtain ⟨hcancel, hret, hexit⟩ := hi.live hs
      exact ⟨hcancel, hret, not_exited_set hexit (by simp)⟩
    · intro hret
      cases (hi.returned hret).2 _ (mem_of_getElem? hw)
  next => cases h

/-! ## Stop -/

theorem taskTokens_of_no_cancel (h : t.task.hasCancel = false) : taskTokens t = 0 := by
  obtain ⟨task, _, _⟩ := t
  cases task <;> first | rfl | cases h

theorem sum_filter_cancel (l : List ScheduledTask) :
    ((l.filter (·.task.hasCancel)).map taskTokens).sum = (l.map taskTokens).sum := by
  induction l with
  | nil => rfl
  | cons t l ih =>
    cases hc : t.task.hasCancel with
    | true => simp [hc, ih]
    | false => simp [hc, ih, taskTokens_of_no_cancel hc]

theorem sum_sequence_filter_le (l : List ScheduledTask) :
    ((l.filter (·.task.hasCancel)).map taskSequence).sum ≤ (l.map taskSequence).sum := by
  induction l with
  | nil => exact le_rfl
  | cons t l ih =>
    cases hc : t.task.hasCancel with
    | true => simpa [hc] using ih
    | false =>
      simp only [hc, filter_cons, Bool.false_eq_true, if_false, map_cons, sum_cons]
      exact ih.trans (Multiset.le_add_left _ _)

theorem Inv.beginStop (hi : Inv cfg s) (h : s.beginStop = some s') : Inv cfg s' := by
  unfold Executor.beginStop at h
  split_ifs at h with hstop
  obtain rfl := some.inj h
  obtain ⟨hcancel, hret, -⟩ := hi.live (Bool.eq_false_iff.mpr hstop)
  refine ⟨?_, ?_, hi.slots, hi.budget, hi.threads, fun _ _ => rfl,
    (nofun), ?_⟩
  · have htokens := hi.tokens
    simp only [Executor.tokens, heldTokens, settledTokens, hcancel] at htokens ⊢
    rw [sum_filter_cancel, ← htokens]
    simp only [queuedSum, queued, taskClasses, flatMap_cons, flatMap_nil, nil_append,
      map_nil, sum_nil]
    abel
  · have hseq := hi.sequences
    simp only [Executor.sequences, hcancel] at hseq ⊢
    refine le_trans ?_ hseq
    have hle := sum_sequence_filter_le s.queued
    rw [queuedSum_empty, zero_add, queuedSum, map_nil, sum_nil, add_zero]
    exact add_le_add_left hle _
  · intro hr
    rw [show s.stopReturned = true from hr] at hret
    cases hret

theorem Inv.cancelNext (hi : Inv cfg s) (h : s.cancelNext = some s') : Inv cfg s' := by
  unfold Executor.cancelNext at h
  split at h
  next => cases h
  next t ts hts =>
    obtain rfl := some.inj h
    refine ⟨?_, ?_, hi.slots, hi.budget, hi.threads, hi.stopped, ?_, ?_⟩
    · have htokens := hi.tokens
      simp only [Executor.tokens, heldTokens, settledTokens, hts, map_cons, sum_cons]
        at htokens ⊢
      have hfst : t.task.promises.map (Prod.fst ∘ fun p => (p, ErrorCode.error))
          = t.task.promises := map_id' _
      rw [← htokens, map_append, map_map, hfst, ← Multiset.coe_add, taskTokens]
      simp only [queuedSum]
      abel
    · refine le_of_eq_of_le ?_ hi.sequences
      simp only [Executor.sequences, hts, map_cons, sum_cons, ← Multiset.coe_add,
        Multiset.coe_singleton, queuedSum]
      rw [taskSequence]
      abel
    · intro hs
      rw [(hi.live hs).1] at hts
      cases hts
    · intro hr
      rw [(hi.returned hr).1] at hts
      cases hts

theorem Inv.join (hi : Inv cfg s) (h : s.join = some s') : Inv cfg s' := by
  unfold Executor.join at h
  split_ifs at h with hready
  obtain rfl := some.inj h
  simp only [Bool.and_eq_true, List.isEmpty_iff, all_eq_true, decide_eq_true_eq] at hready
  refine ⟨hi.tokens, hi.sequences, hi.slots, hi.budget, hi.threads, hi.stopped, ?_, ?_⟩
  · intro hs
    rw [show s.stop = false from hs] at hready
    cases hready.1.1.1
  · exact fun _ => ⟨hready.1.2, hready.2⟩

theorem Inv.step (hi : Inv cfg s) (h : step cfg s a = some s') : Inv cfg s' := by
  cases a with
  | submitTask m c delay cancellable | submitNonBlockingMeta m delay c
  | submitNonBlockingLocation m delay c =>
    obtain rfl := some.inj h
    exact hi.submitPlain rfl
  | submitAsync m delay | submitAsyncEventReport m =>
    obtain rfl := some.inj h
    exact hi.submitWithPromise fun _ => rfl
  | call f =>
    obtain rfl := some.inj h
    exact hi.call f
  | advanceCaller i m o => exact hi.advanceCaller h
  | select i now => exact hi.select h
  | advanceWorker i m o => exact hi.advanceWorker h
  | leave i => exact hi.leave h
  | stop => exact hi.beginStop h
  | cancelNext => exact hi.cancelNext h
  | join => exact hi.join h

/-! ## Copies that return -/

/-- The frame a step runs, with what it is answered. -/
def ranFrame (s : Executor) : Action → Option (Frame × Outcome)
  | .advanceCaller i _ o => s.callers[i]?.map fun f => (f, o)
  | .advanceWorker i _ o =>
    match s.workers[i]? with
    | some (.running _ f) => some (f, o)
    | _ => none
  | _ => none

/-- The storage's `Copy` does not throw in this step. -/
def copyReturns (s : Executor) (a : Action) : Prop :=
  ∀ p req, ranFrame s a ≠ some (.copy p req, .throws)

theorem submitRaw_broken (h : s.submitRaw m task delay c = some s') : s'.broken = s.broken := by
  obtain ⟨-, t, -, -, rfl⟩ := submitRaw_some h
  rfl

theorem submitOrComplete_broken {p : PromiseId} :
    (s.submitOrComplete m task delay c p).broken = s.broken := by
  unfold submitOrComplete
  cases h : s.submitRaw m task delay c with
  | none => rfl
  | some s' => exact submitRaw_broken h

theorem doCopyTask_isSome (req : CopyRequest) (h : o ≠ .throws) :
    (doCopyTask req o).isSome = true := by
  unfold doCopyTask
  cases o with
  | throws => exact absurd rfl h
  | returns ec | needsPhysicalDelete | copied results =>
    dsimp only [Outcome.copyResults]; split_ifs <;> rfl

theorem advance_broken {f : Frame} (h : ∀ p req, (f, o) ≠ (.copy p req, .throws)) :
    (s.advance m o f).1.broken = s.broken := by
  cases f with
  | submitMetaDelete delay c | submitCopy req delay => simp only [advance]; split <;> rfl
  | metaDelete p delay c | admission p delay c =>
    cases o <;> first | rfl | exact submitOrComplete_broken
  | copySubmit p req delay => exact submitOrComplete_broken
  | copy p req =>
    have ho : o ≠ .throws := by
      rintro rfl
      exact h p req rfl
    obtain ⟨ec, hec⟩ := Option.isSome_iff_exists.mp (doCopyTask_isSome req ho)
    simp only [advance, hec]
    rfl
  | _ => rfl

theorem step_broken (hok : copyReturns s a) (h : step cfg s a = some s') :
    s'.broken = s.broken := by
  have hplain : ∀ m task delay c, ((s.submitRaw m task delay c).getD s).broken = s.broken := by
    intro m task delay c
    cases hr : s.submitRaw m task delay c with
    | none => rfl
    | some s' => exact submitRaw_broken hr
  have hpromise : ∀ m task c, (s.submitWithPromise m task c).broken = s.broken := by
    intro m task c
    unfold submitWithPromise
    split
    next => rfl
    next s' hr =>
      have hbroken := submitRaw_broken hr
      exact hbroken
  cases a with
  | submitTask m c delay cancellable | submitNonBlockingMeta m delay c
  | submitNonBlockingLocation m delay c => exact some.inj h ▸ hplain _ _ _ _
  | submitAsync m delay | submitAsyncEventReport m => exact some.inj h ▸ hpromise _ _ _
  | call f =>
    obtain rfl := some.inj h
    rfl
  | advanceCaller i m o =>
    simp only [step, advanceCaller] at h
    split at h
    next f hf =>
      obtain rfl := some.inj h
      refine advance_broken fun p req he => hok p req ?_
      rw [ranFrame, hf, Option.map_some, he]
    next => cases h
  | advanceWorker i m o =>
    simp only [step, advanceWorker] at h
    split at h
    next c f hf =>
      obtain rfl := some.inj h
      refine advance_broken fun p req he => hok p req ?_
      simp only [ranFrame, hf, he]
    next => cases h
  | select i now | leave i | stop | cancelNext | join =>
    -- no frame moves, so every way through leaves the promises as they are
    simp only [step, select, leave, beginStop, cancelNext,
      join] at h
    repeat' split at h
    all_goals
      first
      | obtain rfl := some.inj h
        rfl
      | cases h

theorem reach_inv (h : (machine cfg).Reach copyReturns s) : Inv cfg s ∧ s.broken = [] := by
  refine h.inv (P := fun s => Inv cfg s ∧ s.broken = []) ?_ ?_
  · rintro s rfl
    exact ⟨Inv.init cfg, rfl⟩
  · rintro s a s' ⟨hi, hb⟩ hok hstep
    exact ⟨hi.step hstep, (step_broken hok hstep).trans hb⟩

/-! ## The executor comes to rest -/

structure Quiet (s : Executor) : Prop where
  queues : ∀ c, s.taskQueues c = []
  workers : ∀ w ∈ s.workers, w = .idle ∨ w = .exited
  callers : s.callers = []
  cancelTasks : s.cancelTasks = []

def isInternal : Action → Bool
  | .advanceCaller _ _ _ | .select _ _ | .advanceWorker _ _ _ | .leave _ | .cancelNext | .join =>
    true
  | _ => false

theorem advanceWorker_work (h : s.advanceWorker i m o = some s') : s'.work < s.work := by
  unfold advanceWorker at h
  split at h
  next c f hf =>
    obtain rfl := some.inj h
    have ha := advance_spec s m o f
    generalize s.advance m o f = r at ha
    generalize hw : (r.2.elim (.leaving c) (.running c) : Worker) = w
    have hweight : w.weight = 2 + (r.2.toList.map Frame.weight).sum := by
      rw [← hw]
      cases r.2 <;> simp [weight]
    have hset := sum_map_set weight w hf
    have hlt := ha.weight
    simp only [work, ha.workers, ha.callers, ha.cancelTasks, ha.stopReturned]
    rw [hweight, weight] at hset
    omega
  next => cases h

theorem advanceCaller_work (h : s.advanceCaller i m o = some s') : s'.work < s.work := by
  unfold advanceCaller at h
  split at h
  next f hf =>
    obtain rfl := some.inj h
    have ha := advance_spec s m o f
    generalize s.advance m o f = r at ha
    have herase := sum_map_eraseIdx Frame.weight hf
    have hlt := ha.weight
    simp only [work, ha.workers, ha.callers, ha.cancelTasks, ha.stopReturned, map_append,
      sum_append]
    omega
  next => cases h

theorem select_work (h : s.select cfg i now = some s') : s'.work < s.work := by
  unfold select at h
  split at h
  next hw =>
    split_ifs at h with hstop
    · obtain rfl := some.inj h
      have hset := sum_map_set weight .exited hw
      simp only [weight] at hset
      simp only [work]
      omega
    · split at h
      next => cases h
      next c t hpick =>
        obtain rfl := some.inj h
        obtain ⟨⟨l, hq⟩, -⟩ := pickFrom_some hpick
        have htake := queuedSum_take (fun t => t.task.weight) hq
        have hset := sum_map_set weight (.running c t.task.frame) hw
        simp only [weight] at hset
        simp only [work, start, htake]
        rw [Task.weight]
        omega
  next => cases h

theorem leave_work (h : s.leave i = some s') : s'.work < s.work := by
  unfold leave at h
  split at h
  next c hw =>
    obtain rfl := some.inj h
    have hset := sum_map_set weight .idle hw
    simp only [weight] at hset
    simp only [work]
    omega
  next => cases h

/-- Without new requests only finitely many steps follow. -/
theorem internal_work (ha : isInternal a = true) (h : step cfg s a = some s') :
    s'.work < s.work := by
  cases a with
  | advanceCaller i m o => exact advanceCaller_work h
  | select i now => exact select_work h
  | advanceWorker i m o => exact advanceWorker_work h
  | leave i => exact leave_work h
  | cancelNext =>
    simp only [step, cancelNext] at h
    split at h
    next => cases h
    next t ts hts =>
      obtain rfl := some.inj h
      simp only [work, hts, length_cons]
      omega
  | join =>
    simp only [step, join] at h
    split_ifs at h with hready
    obtain rfl := some.inj h
    simp only [Bool.and_eq_true, Bool.not_eq_true'] at hready
    simp only [work, hready.1.1.2, Bool.not_true, Bool.not_false, Bool.toNat_true, Bool.toNat_false]
    omega
  | _ => cases ha

theorem pickFrom_isSome {cs : List ScheduleTaskClass}
    (hb : s.runningMigrationTasks < cfg.migrationBudget) (hc : c ∈ cs) {l : List ScheduledTask}
    (hq : s.taskQueues c = t :: l) (ht : t.executeTime ≤ now) :
    (s.pickFrom cfg now cs).isSome = true := by
  induction cs with
  | nil => cases hc
  | cons c' cs ih =>
    rw [pickFrom]
    have hbudget : decide (cfg.migrationBudget ≤ s.runningMigrationTasks) = false := by
      simpa using hb
    rcases mem_cons.mp hc with rfl | hc
    · simp only [hq, hbudget, Bool.and_false, Bool.false_eq_true, if_false, if_neg (not_lt.mpr ht),
        isSome_some]
    · cases hq' : s.taskQueues c' with
      | nil => exact ih hc
      | cons t' l' =>
        simp only [hbudget, Bool.and_false, Bool.false_eq_true, if_false]
        split
        next => exact ih hc
        next => rfl

/-- While anything is left to run, some step is possible without a new request:
a cancel function, a moment of a frame, a slot to give back, or a task to take. -/
theorem progress (hi : Inv cfg s) (hq : ¬Quiet s) :
    ∃ a s', isInternal a = true ∧ copyReturns s a ∧ step cfg s a = some s' := by
  have hplain : ∀ a, ranFrame s a = none → copyReturns s a := by
    intro a ha p req h
    rw [ha] at h
    cases h
  have hanswer : ∀ f : Frame, ∀ p req, (f, Outcome.returns .ok) ≠ (.copy p req, .throws) := by
    intro f p req h
    cases (Prod.mk.inj h).2
  have henabled : ∀ a, isInternal a = true → copyReturns s a → (step cfg s a).isSome = true →
      ∃ a s', isInternal a = true ∧ copyReturns s a ∧ step cfg s a = some s' := by
    intro a ha hok h
    obtain ⟨s', hs'⟩ := Option.isSome_iff_exists.mp h
    exact ⟨a, s', ha, hok, hs'⟩
  by_cases hcancel : s.cancelTasks = []
  swap
  · obtain ⟨t, ts, hts⟩ := exists_cons_of_ne_nil hcancel
    refine henabled .cancelNext rfl (hplain _ rfl) ?_
    simp only [step, cancelNext, hts, isSome_some]
  by_cases hcallers : s.callers = []
  swap
  · obtain ⟨f, fs, hfs⟩ := exists_cons_of_ne_nil hcallers
    refine henabled (.advanceCaller 0 ⟨0, false⟩ (.returns .ok)) rfl (fun p req h => ?_) ?_
    · rw [ranFrame, hfs] at h
      exact hanswer f p req (some.inj h)
    · simp only [step, advanceCaller, hfs, getElem?_cons_zero, isSome_some]
  by_cases hrun : ∃ w ∈ s.workers, w ≠ .idle ∧ w ≠ .exited
  · obtain ⟨w, hw, hidle, hexit⟩ := hrun
    obtain ⟨i, hi'⟩ := getElem?_of_mem hw
    cases w with
    | idle => exact absurd rfl hidle
    | exited => exact absurd rfl hexit
    | running c f =>
      refine henabled (.advanceWorker i ⟨0, false⟩ (.returns .ok)) rfl (fun p req h => ?_) ?_
      · simp only [ranFrame, hi'] at h
        exact hanswer f p req (some.inj h)
      · simp only [step, advanceWorker, hi', isSome_some]
    | leaving c =>
      refine henabled (.leave i) rfl (hplain _ rfl) ?_
      simp only [step, leave, hi', isSome_some]
  -- no frame is left, so it is a queue that is not empty
  have hrest : ∀ w ∈ s.workers, w = .idle ∨ w = .exited := by
    intro w hw
    by_contra hne
    exact hrun ⟨w, hw, not_or.mp hne⟩
  have hqueue : ∃ c, s.taskQueues c ≠ [] := by
    by_contra hnone
    exact hq ⟨fun c => not_not.mp fun hc => hnone ⟨c, hc⟩, hrest, hcallers, hcancel⟩
  obtain ⟨c, hc⟩ := hqueue
  obtain ⟨t, l, htl⟩ := exists_cons_of_ne_nil hc
  have hstop : s.stop = false := by
    cases hs : s.stop with
    | false => rfl
    | true => exact absurd (hi.stopped hs c) hc
  have hidle : ∀ w ∈ s.workers, w = .idle := by
    intro w hw
    refine (hrest w hw).resolve_right ?_
    rintro rfl
    exact (hi.live hstop).2.2 hw
  have hslots : s.runningMigrationTasks = 0 := by
    rw [hi.slots, sum_eq_zero]
    intro n hn
    obtain ⟨w, hw, rfl⟩ := mem_map.mp hn
    rw [hidle w hw]
    rfl
  have hbudget : s.runningMigrationTasks < cfg.migrationBudget := by
    rw [hslots]
    exact Nat.one_pos.trans_le (le_max_left ..)
  have hpos : 0 < s.workers.length := by
    rw [hi.threads, Config.threads]
    split <;> omega
  obtain ⟨w, hw⟩ : ∃ w, s.workers[0]? = some w := ⟨_, getElem?_eq_getElem hpos⟩
  rw [hidle w (mem_of_getElem? hw)] at hw
  have hmem : c ∈ taskClasses := by cases c <;> decide
  obtain ⟨⟨c', t'⟩, hpick⟩ := Option.isSome_iff_exists.mp
    (pickFrom_isSome hbudget hmem htl le_rfl)
  refine ⟨.select 0 t.executeTime, s.start 0 c' t', rfl, hplain _ rfl, ?_⟩
  simp only [step, select, hw, hstop, Bool.false_eq_true, if_false, hpick]

/-! ## Completion -/

/-- The promises whose futures were handed out or are about to be. -/
def Accepted (s : Executor) (p : PromiseId) : Prop := p < s.nextPromise ∧ p ∉ s.thrown

def completedCount (s : Executor) (p : PromiseId) : Nat := (s.completions.map Prod.fst).count p

/-- In how many places a promise waits for its completion. -/
def heldCount (s : Executor) (p : PromiseId) : Nat := s.heldTokens.count p

def Worker.runsMigration : Worker → Bool
  | .running c _ => isMigrationTaskClass c
  | _ => false

def runningMigrations (s : Executor) : Nat := s.workers.countP runsMigration

theorem accepted_count (hi : Inv cfg s) (hb : s.broken = []) {p : PromiseId}
    (hp : Accepted s p) : heldCount s p + completedCount s p = 1 := by
  have hcount := congrArg (Multiset.count p) hi.tokens
  rw [tokens, settledTokens, hb] at hcount
  simp only [Multiset.count_add, Multiset.coe_count, count_nil] at hcount
  rw [count_eq_zero_of_not_mem hp.2,
    Multiset.count_eq_one_of_mem (Multiset.nodup_range _) (Multiset.mem_range.mpr hp.1)] at hcount
  exact hcount

theorem heldCount_quiet (hq : Quiet s) (p : PromiseId) : heldCount s p = 0 := by
  have hqueues : s.taskQueues = fun _ => [] := funext hq.queues
  have hworkers : (s.workers.map workerTokens).sum = 0 := by
    refine sum_eq_zero fun x hx => ?_
    obtain ⟨w, hw, rfl⟩ := mem_map.mp hx
    rcases hq.workers w hw with rfl | rfl <;> rfl
  rw [heldCount, heldTokens, hqueues, queuedSum_empty, hworkers, hq.callers, hq.cancelTasks]
  rfl

theorem started_not_cancelled (hi : Inv cfg s) {n : Nat} (hn : n ∈ s.cancelled) :
    n ∉ s.started := by
  have hnd : s.sequences.Nodup := Multiset.nodup_of_le hi.sequences (Multiset.nodup_range _)
  have hlist : (s.started ++ s.cancelled).Nodup := by
    rw [← Multiset.coe_nodup, ← Multiset.coe_add]
    exact Multiset.nodup_of_le (Multiset.le_add_left _ _) hnd
  exact fun hs => (nodup_append.mp hlist).2.2 n hs n hn rfl

theorem runningMigrations_le (hi : Inv cfg s) : runningMigrations s ≤ cfg.requestedBudget := by
  have hslots : runningMigrations s ≤ (s.workers.map slot).sum := by
    rw [runningMigrations]
    induction s.workers with
    | nil => exact le_rfl
    | cons w ws ih =>
      have hw : (if w.runsMigration then 1 else 0) ≤ w.slot := by
        cases w with
        | running c f => exact le_rfl
        | _ => exact Nat.zero_le _
      rw [countP_cons, map_cons, sum_cons]
      omega
  have hpos : 0 < cfg.requestedBudget := by
    unfold Config.requestedBudget
    cases hb : cfg.migrationWorkerBudget with
    | none =>
      simp only [Option.getD_none, Config.threads]
      split <;> omega
    | some n => exact cfg.budget_pos n hb
  have hbudget := hi.budget
  rw [hi.slots, Config.migrationBudget] at hbudget
  omega

/-- In every run whose copies return, in every state: an accepted promise was
completed once and is held nowhere, or waits in one place for its completion;
what is left to run always can go on and ends, and then every accepted promise
was completed once; no cancelled task was or will be started; and the running
migration tasks are within the configured budget. -/
theorem promises_completed_once (cfg : Config) {s : Executor}
    (h : (machine cfg).Reach copyReturns s) :
    (∀ p, Accepted s p → heldCount s p + completedCount s p = 1) ∧
      (Quiet s → ∀ p, Accepted s p → completedCount s p = 1) ∧
      (¬Quiet s → ∃ a s', isInternal a = true ∧ copyReturns s a ∧ step cfg s a = some s') ∧
      (∀ a s', isInternal a = true → step cfg s a = some s' → s'.work < s.work) ∧
      (∀ n ∈ s.cancelled, n ∉ s.started) ∧ runningMigrations s ≤ cfg.requestedBudget := by
  obtain ⟨hi, hb⟩ := reach_inv h
  refine ⟨fun p hp => accepted_count hi hb hp, fun hq p hp => ?_, progress hi,
    fun a s' ha hstep => internal_work ha hstep, fun n hn => started_not_cancelled hi hn,
    runningMigrations_le hi⟩
  have hcount := accepted_count hi hb hp
  rw [heldCount_quiet hq, Nat.zero_add] at hcount
  exact hcount

/-! ## A copy that throws -/

def oneThread : Config where
  threadCount := 1
  migrationWorkerBudget := some 1
  budget_pos := fun _ h => some.inj h ▸ Nat.one_pos

/-- One copy, from its submission to the end of its task. -/
def copyRun (o : Outcome) : Option Executor :=
  (machine oneThread).run (init oneThread)
    [.call (.copy ⟨["a"], ["b"]⟩ 0), .advanceCaller 0 ⟨0, false⟩ o, .advanceCaller 0 ⟨0, false⟩ o,
      .select 0 0, .advanceWorker 0 ⟨0, false⟩ o, .leave 0]

theorem copyRun_copied : (copyRun (.copied [.ok])).isSome = true := by decide +kernel

theorem copyRun_throws : (copyRun .throws).isSome = true := by decide +kernel

theorem allOk_of_answers {as : List Action}
    (h : ∀ a ∈ as, ∀ i m, a ≠ .advanceCaller i m .throws ∧ a ≠ .advanceWorker i m .throws) :
    (machine cfg).AllOk copyReturns s as := by
  induction as generalizing s with
  | nil => trivial
  | cons a as ih =>
    refine ⟨fun p req hran => ?_, fun s' _ => ih fun a' ha' => h a' (mem_cons_of_mem _ ha')⟩
    have hne := h a mem_cons_self
    unfold ranFrame at hran
    split at hran
    next i m o =>
      obtain ⟨f, -, hf⟩ := Option.map_eq_some_iff.mp hran
      exact (hne i m).1 (by rw [(Prod.mk.inj hf).2])
    next i m o =>
      split at hran
      next => exact (hne i m).2 (by rw [(Prod.mk.inj (some.inj hran)).2])
      next => cases hran
    next => cases hran

theorem promises_completed_once_copied :
    ((copyRun (.copied [.ok])).get copyRun_copied).completions = [(0, .ok)] ∧
      (∀ p, Accepted ((copyRun (.copied [.ok])).get copyRun_copied) p →
        heldCount ((copyRun (.copied [.ok])).get copyRun_copied) p
          + completedCount ((copyRun (.copied [.ok])).get copyRun_copied) p = 1) := by
  refine ⟨by decide +kernel, (promises_completed_once oneThread ?_).1⟩
  refine ⟨init oneThread, rfl,
    Machine.steps_of_run (some_get copyRun_copied).symm (allOk_of_answers ?_)⟩
  intro a ha i m
  fin_cases ha <;> simp

/-- The executor is at rest, and the accepted promise of the copy was never
completed. -/
theorem copy_throws_breaks_promise :
    ∃ s : Executor, (machine oneThread).Reach Machine.anyAction s ∧ Quiet s ∧
      ∃ p, Accepted s p ∧ completedCount s p = 0 := by
  have hinit : (machine oneThread).init (init oneThread) := rfl
  refine ⟨(copyRun .throws).get copyRun_throws,
    Machine.reach_of_run hinit (some_get copyRun_throws).symm, ⟨?_, ?_, ?_, ?_⟩, 0,
    ⟨?_, ?_⟩, ?_⟩
  · intro c
    cases c <;> decide +kernel
  all_goals decide +kernel

end TairKvCache.PlanExecutor
