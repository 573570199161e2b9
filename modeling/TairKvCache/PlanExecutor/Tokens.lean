import TairKvCache.Lib.Places
import TairKvCache.PlanExecutor.Model

/-!
# Where the promises are

Every promise ever made is in one place: in a queued task, in a frame of a
worker or of a caller, among the cancel functions `Stop` still has to run, or
in the history. `tokens` collects the places, and every step keeps the
equation `tokens s = range s.nextPromise`. The sequence numbers of the tasks
and the weights of what is left to run are followed in the same way.

`Advanced` says once what a moment of a frame does to all of these.
-/

namespace TairKvCache.PlanExecutor

open Function Lib List Option

namespace Executor

/-! ## Queues -/

section Queues

variable {M : Type*} [AddCommMonoid M] (f : ScheduledTask → M)
  {q : ScheduleTaskClass → List ScheduledTask} {c : ScheduleTaskClass} {t : ScheduledTask}

def queuedSum (q : ScheduleTaskClass → List ScheduledTask) : M :=
  ((taskClasses.flatMap q).map f).sum

theorem queuedSum_eq (q : ScheduleTaskClass → List ScheduledTask) :
    queuedSum f q = ((q .reclaim).map f).sum + (((q .system).map f).sum +
      (((q .migrationContinuation).map f).sum + ((q .migrationPrepare).map f).sum)) := by
  simp [queuedSum, taskClasses]

theorem queuedSum_update {l : List ScheduledTask} {x : M}
    (h : (l.map f).sum = x + ((q c).map f).sum) :
    queuedSum f (update q c l) = x + queuedSum f q := by
  rw [queuedSum_eq, queuedSum_eq]
  cases c <;> simp only [update_self, update_of_ne, ne_eq, reduceCtorEq,
    not_false_eq_true, h] <;> abel

theorem queuedSum_submit :
    queuedSum f (update q c (List.orderedInsert ScheduledTask.le t (q c)))
      = f t + queuedSum f q := by
  refine queuedSum_update f ?_
  rw [((perm_orderedInsert ScheduledTask.le t (q c)).map f).sum_eq, map_cons, sum_cons]

theorem queuedSum_take {l : List ScheduledTask} (hc : q c = t :: l) :
    queuedSum f q = f t + queuedSum f (update q c (q c).tail) := by
  have h := queuedSum_update f (q := update q c l) (c := c) (l := t :: l) (x := f t)
    (by rw [update_self, map_cons, sum_cons])
  rw [update_idem, ← hc, update_eq_self] at h
  rw [h, hc, tail_cons]

@[simp] theorem queuedSum_empty : queuedSum f (fun _ => []) = 0 := by
  rw [queuedSum_eq]
  simp

end Queues

/-! ## Weights -/

end Executor

/-- How many moments a frame has at most, counting those of the task it may
put into a queue. -/
def Frame.weight : Frame → Nat
  | .submitMetaDelete _ _ | .submitLocationDelete _ _ | .submitCopy _ _ => 5
  | .metaDelete _ _ _ | .admission _ _ _ | .copySubmit _ _ _ => 4
  | .raw | .physicalDelete _ | .eventReportDelete _ | .copy _ _ => 1

theorem Frame.weight_pos (f : Frame) : 0 < f.weight := by
  cases f <;> simp [Frame.weight]

def Task.weight (t : Task) : Nat := t.frame.weight + 2

def Worker.weight : Worker → Nat
  | .exited => 0
  | .idle => 1
  | .leaving _ => 2
  | .running _ f => 2 + f.weight

def Worker.slot : Worker → Nat
  | .running c _ | .leaving c => Executor.slotOf c
  | .idle | .exited => 0

variable {s s' : Executor} {p : PromiseId} {f : Frame}

namespace Executor

/-! ## Tokens -/

/-- Promises that are settled: completed, never handed out, or lost. -/
def settledTokens (s : Executor) : Multiset PromiseId :=
  (s.completions.map Prod.fst : Multiset PromiseId) + (s.thrown + s.broken : Multiset PromiseId)

def taskTokens (t : ScheduledTask) : Multiset PromiseId := t.task.promises

def frameTokens (f : Frame) : Multiset PromiseId := f.promises

def workerTokens (w : Worker) : Multiset PromiseId := w.promises

/-- Promises of tasks and calls that are still under way. -/
def heldTokens (s : Executor) : Multiset PromiseId :=
  queuedSum taskTokens s.taskQueues + (s.workers.map workerTokens).sum + (s.callers.map frameTokens).sum +
    (s.cancelTasks.map taskTokens).sum

def tokens (s : Executor) : Multiset PromiseId := s.heldTokens + s.settledTokens

def taskSequence (t : ScheduledTask) : Multiset Nat := {t.sequenceId}

/-- The tasks that wait, wait for their cancellation, were started or were
cancelled. -/
def sequences (s : Executor) : Multiset Nat :=
  queuedSum taskSequence s.taskQueues + (s.cancelTasks.map taskSequence).sum +
    (s.started + s.cancelled : Multiset Nat)

/-- A bound on the steps that can follow without a new submission. -/
def work (s : Executor) : Nat :=
  queuedSum (·.task.weight) s.taskQueues + (s.workers.map Worker.weight).sum +
    (s.callers.map Frame.weight).sum + s.cancelTasks.length + (!s.stopReturned).toNat

/-! ## What a moment of a frame does -/

structure Advanced (s : Executor) (f : Frame) (s' : Executor) (next : Option Frame) : Prop where
  stop : s'.stop = s.stop
  workers : s'.workers = s.workers
  callers : s'.callers = s.callers
  cancelTasks : s'.cancelTasks = s.cancelTasks
  stopReturned : s'.stopReturned = s.stopReturned
  started : s'.started = s.started
  cancelled : s'.cancelled = s.cancelled
  running : s'.runningMigrationTasks = s.runningMigrationTasks
  queues : s.stop = true → s'.taskQueues = s.taskQueues
  tokens : (next.toList.map frameTokens).sum + queuedSum taskTokens s'.taskQueues + s'.settledTokens
      + Multiset.range s.nextPromise
    = frameTokens f + queuedSum taskTokens s.taskQueues + s.settledTokens + Multiset.range s'.nextPromise
  sequences : queuedSum taskSequence s'.taskQueues + Multiset.range s.sequenceCounter
    = queuedSum taskSequence s.taskQueues + Multiset.range s'.sequenceCounter
  weight : (next.toList.map Frame.weight).sum + queuedSum (·.task.weight) s'.taskQueues
    < f.weight + queuedSum (·.task.weight) s.taskQueues

theorem submitRaw_some {m : Moment} {task : Task} {delay : Int} {c : ScheduleTaskClass}
    (h : s.submitRaw m task delay c = some s') :
    s.stop = false ∧ ∃ t : ScheduledTask, t.task = task ∧ t.sequenceId = s.sequenceCounter ∧
      s' = { s with
        sequenceCounter := s.sequenceCounter + 1
        taskQueues := update s.taskQueues c
          (List.orderedInsert ScheduledTask.le t (s.taskQueues c)) } := by
  unfold submitRaw at h
  split_ifs at h with hstop
  simp only [Bool.or_eq_true, not_or, Bool.not_eq_true] at hstop
  exact ⟨hstop.1, _, rfl, rfl, (some.inj h).symm⟩

@[simp] theorem settledTokens_complete (s : Executor) (p : PromiseId) (ec : ErrorCode) :
    (s.complete p ec).settledTokens = {p} + s.settledTokens := by
  simp only [settledTokens, complete, map_append, map_cons, map_nil,
    ← Multiset.coe_add, Multiset.coe_singleton]
  abel

@[simp] theorem taskQueues_complete (s : Executor) (p : PromiseId) (ec : ErrorCode) :
    (s.complete p ec).taskQueues = s.taskQueues := rfl

@[simp] theorem nextPromise_complete (s : Executor) (p : PromiseId) (ec : ErrorCode) :
    (s.complete p ec).nextPromise = s.nextPromise := rfl

@[simp] theorem settledTokens_withPromise (s : Executor) (n : PromiseId) :
    ({ s with nextPromise := n } : Executor).settledTokens = s.settledTokens := rfl

theorem Advanced.of_complete (ec : ErrorCode) (hf : f.promises = [p]) :
    Advanced s f (s.complete p ec) none := by
  refine ⟨rfl, rfl, rfl, rfl, rfl, rfl, rfl, rfl, fun _ => rfl, ?_, rfl, ?_⟩
  · simp only [settledTokens_complete, taskQueues_complete, frameTokens, hf, toList_none,
      map_nil, sum_nil, Multiset.coe_singleton, nextPromise_complete]
    abel
  · have hpos := f.weight_pos
    simp only [taskQueues_complete, toList_none, map_nil, sum_nil]
    omega

/-- A frame that hands its promise to a task of less weight, or completes it. -/
theorem Advanced.of_submit (m : Moment) (task : Task) (delay : Int) (c : ScheduleTaskClass)
    (hf : f.promises = [p]) (ht : task.promises = [p]) (hw : task.weight < f.weight) :
    Advanced s f (s.submitOrComplete m task delay c p) none := by
  unfold submitOrComplete
  cases h : s.submitRaw m task delay c with
  | none => exact Advanced.of_complete _ hf
  | some s' =>
    obtain ⟨hstop, t, rfl, hseq, rfl⟩ := submitRaw_some h
    simp only [getD_some]
    refine ⟨rfl, rfl, rfl, rfl, rfl, rfl, rfl, rfl, ?_, ?_, ?_, ?_⟩
    · intro hs
      rw [hstop] at hs
      cases hs
    · rw [queuedSum_submit taskTokens, frameTokens, hf, taskTokens, ht]
      simp only [toList_none, map_nil, sum_nil, zero_add]
      rfl
    · rw [queuedSum_submit taskSequence, taskSequence, hseq]
      simp only [Multiset.range_succ, ← Multiset.singleton_add]
      abel
    · rw [queuedSum_submit (·.task.weight)]
      simp only [toList_none, map_nil, sum_nil]
      omega

theorem Advanced.of_promise {f' : Frame} (hf : f.promises = [])
    (hf' : f'.promises = [s.nextPromise]) (hw : f'.weight < f.weight) :
    Advanced s f { s with nextPromise := s.nextPromise + 1 } (some f') := by
  refine ⟨rfl, rfl, rfl, rfl, rfl, rfl, rfl, rfl, fun _ => rfl, ?_, rfl, ?_⟩
  · simp only [settledTokens_withPromise, toList_some, map_cons,
      map_nil, sum_cons, sum_nil, frameTokens, hf, hf', Multiset.coe_nil,
      Multiset.coe_singleton, Multiset.range_succ, ← Multiset.singleton_add]
    abel
  · simp only [toList_some, map_cons, map_nil, sum_cons, sum_nil]
    omega

/-- A frame that makes its promise, finds the executor stopped and completes
the promise. -/
theorem Advanced.of_stopped (ec : ErrorCode) (hf : f.promises = []) :
    Advanced s f (({ s with nextPromise := s.nextPromise + 1 } : Executor).complete s.nextPromise
      ec)
      none := by
  refine ⟨rfl, rfl, rfl, rfl, rfl, rfl, rfl, rfl, fun _ => rfl, ?_, rfl, ?_⟩
  · simp only [settledTokens_complete, settledTokens_withPromise, taskQueues_complete,
      frameTokens, hf, toList_none, map_nil, sum_nil,
      Multiset.coe_nil, nextPromise_complete, Multiset.range_succ, ← Multiset.singleton_add]
    abel
  · have hpos := f.weight_pos
    simp only [taskQueues_complete, toList_none, map_nil, sum_nil]
    omega

/-- A frame whose promise is not completed: it is left in the history. -/
theorem Advanced.of_lost (hf : f.promises = [p])
    (hs : s' = { s with thrown := s.thrown ++ [p] } ∨ s' = { s with broken := s.broken ++ [p] }) :
    Advanced s f s' none := by
  have hpos := f.weight_pos
  rcases hs with rfl | rfl
  all_goals
    refine ⟨rfl, rfl, rfl, rfl, rfl, rfl, rfl, rfl, fun _ => rfl, ?_, rfl, ?_⟩
    · simp only [frameTokens, hf, settledTokens, ← Multiset.coe_add,
        toList_none, map_nil, sum_nil, Multiset.coe_singleton]
      abel
    · simp only [toList_none, map_nil, sum_nil]
      omega

theorem advance_spec (s : Executor) (m : Moment) (o : Outcome) (f : Frame) :
    Advanced s f (s.advance m o f).1 (s.advance m o f).2 := by
  cases f with
  | raw =>
    refine ⟨rfl, rfl, rfl, rfl, rfl, rfl, rfl, rfl, fun _ => rfl, ?_, rfl, ?_⟩
    · simp [advance, frameTokens, Frame.promises]
    · simp [advance, Frame.weight]
  | submitMetaDelete delay c | submitCopy req delay =>
    simp only [advance]
    split
    next => exact Advanced.of_stopped _ rfl
    next => exact Advanced.of_promise rfl rfl (Nat.lt_succ_self 4)
  | submitLocationDelete delay c => exact Advanced.of_promise rfl rfl (Nat.lt_succ_self 4)
  | metaDelete p delay c =>
    cases o with
    | returns ec => exact Advanced.of_complete ec rfl
    | needsPhysicalDelete => exact Advanced.of_submit m _ delay c rfl rfl (Nat.lt_succ_self 3)
    | copied results => exact Advanced.of_complete _ rfl
    | throws => exact Advanced.of_lost rfl (.inl rfl)
  | admission p delay c =>
    cases o with
    | needsPhysicalDelete => exact Advanced.of_submit m _ delay c rfl rfl (Nat.lt_succ_self 3)
    | returns ec => exact Advanced.of_complete ec rfl
    | copied results | throws => exact Advanced.of_complete _ rfl
  | copySubmit p req delay => exact Advanced.of_submit m _ delay _ rfl rfl (Nat.lt_succ_self 3)
  | physicalDelete p | eventReportDelete p => exact Advanced.of_complete _ rfl
  | copy p req =>
    simp only [advance]
    split
    next => exact Advanced.of_complete _ rfl
    next => exact Advanced.of_lost rfl (.inr rfl)

theorem Advanced.sequences_le {next : Option Frame} (ha : Advanced s f s' next)
    (h : s.sequences ≤ Multiset.range s.sequenceCounter) :
    s'.sequences ≤ Multiset.range s'.sequenceCounter := by
  have heq : s'.sequences + Multiset.range s.sequenceCounter
      = s.sequences + Multiset.range s'.sequenceCounter := by
    simp only [Executor.sequences, ha.cancelTasks, ha.started, ha.cancelled]
    calc _ = (queuedSum taskSequence s'.taskQueues + Multiset.range s.sequenceCounter)
          + ((s.cancelTasks.map taskSequence).sum + (s.started + s.cancelled : Multiset Nat)) := by
            abel
      _ = (queuedSum taskSequence s.taskQueues + Multiset.range s'.sequenceCounter)
          + ((s.cancelTasks.map taskSequence).sum + (s.started + s.cancelled : Multiset Nat)) := by
            rw [ha.sequences]
      _ = _ := by abel
  have hle : s'.sequences + Multiset.range s.sequenceCounter
      ≤ Multiset.range s'.sequenceCounter + Multiset.range s.sequenceCounter := by
    rw [heq, add_comm (Multiset.range s'.sequenceCounter)]
    exact add_le_add_left h _
  exact le_of_add_le_add_right hle

end Executor

end TairKvCache.PlanExecutor
