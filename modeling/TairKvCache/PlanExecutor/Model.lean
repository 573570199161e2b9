import TairKvCache.Types
import TairKvCache.Lib.Machine

/-!
# The schedule plan executor

`SchedulePlanExecutor` (`manager/schedule_plan_executor.cc`): a pool of worker
threads over four queues of delayed tasks, one queue per task class, where the
two migration classes share a budget of workers.

A task body, and a `Submit` call that runs on the caller's own thread, is a
*frame*: what is left to run of it. A frame advances in the moments at which it
touches the executor (the read of `stop_`, `SubmitRaw` under the queue lock, the
completion of its promise); what the searcher, the storages and the clock answer
in between is the `Outcome` of the moment. Workers and callers advance in any
order, `Stop` runs beside them, and a worker that finds nothing to do waits and
looks again.

The last six fields of `Executor` are history: the promises and their fate, and
the tasks that were started and cancelled.
-/

namespace TairKvCache.PlanExecutor

/-! ## Tasks -/

inductive ScheduleTaskClass where
  | reclaim | system | migrationContinuation | migrationPrepare
deriving DecidableEq, Repr

def taskClasses : List ScheduleTaskClass :=
  [.reclaim, .system, .migrationContinuation, .migrationPrepare]

def isMigrationTaskClass (c : ScheduleTaskClass) : Bool :=
  c = .migrationPrepare || c = .migrationContinuation

/-- The constructor's arguments. `migrationWorkerBudget = none` is the default
`numeric_limits::max()`; the server configuration admits no budget of 0. -/
structure Config where
  threadCount : Nat
  migrationWorkerBudget : Option Nat
  budget_pos : ∀ n, migrationWorkerBudget = some n → 0 < n

namespace Config

def threads (cfg : Config) : Nat := if cfg.threadCount = 0 then 1 else cfg.threadCount

/-- `requested_migration_budget`. -/
def requestedBudget (cfg : Config) : Nat := cfg.migrationWorkerBudget.getD cfg.threads

/-- `migration_worker_budget_`. -/
def migrationBudget (cfg : Config) : Nat := max 1 (min cfg.requestedBudget cfg.threads)

end Config

abbrev PromiseId := Nat

/-- `CacheLocationCopyRequest`, the fields `DoCopyTask` decides on. -/
structure CopyRequest where
  srcUris : List String
  dstUris : List String
deriving DecidableEq, Repr

/-- What a queued entry runs. The bodies that complete a promise come with a
cancel function that completes it too; the two non-blocking submits have none,
and the functions given to `SubmitTask` may have one. -/
inductive Task where
  | raw (cancellable : Bool)
  | admission (p : PromiseId) (delay : Int)
  | physicalDelete (p : PromiseId)
  | eventReportDelete (p : PromiseId)
  | copy (p : PromiseId) (req : CopyRequest)
  | nonBlockingMeta (delay : Int) (c : ScheduleTaskClass)
  | nonBlockingLocation (delay : Int) (c : ScheduleTaskClass)
deriving DecidableEq, Repr

structure ScheduledTask where
  task : Task
  executeTime : Int
  sequenceId : Nat
deriving DecidableEq, Repr

/-- `operator<` of two tasks, or equality. -/
def ScheduledTask.le (a b : ScheduledTask) : Prop :=
  a.executeTime < b.executeTime ∨ (a.executeTime = b.executeTime ∧ a.sequenceId ≤ b.sequenceId)

instance : DecidableRel ScheduledTask.le := fun a b => by
  unfold ScheduledTask.le; infer_instance

def Task.hasCancel : Task → Bool
  | .raw cancellable => cancellable
  | .nonBlockingMeta _ _ | .nonBlockingLocation _ _ => false
  | _ => true

def Task.promises : Task → List PromiseId
  | .admission p _ | .physicalDelete p | .eventReportDelete p | .copy p _ => [p]
  | .raw _ | .nonBlockingMeta _ _ | .nonBlockingLocation _ _ => []

/-! ## Frames -/

/-- What is left to run of a task body or of a synchronous call. -/
inductive Frame where
  | raw
  /-- `SubmitMetaDelete`, `SubmitLocationDelete` and `Submit` of a copy, from
  their first line. -/
  | submitMetaDelete (delay : Int) (c : ScheduleTaskClass)
  | submitLocationDelete (delay : Int) (c : ScheduleTaskClass)
  | submitCopy (req : CopyRequest) (delay : Int)
  /-- `SubmitMetaDelete` after its check of `stop_`. -/
  | metaDelete (p : PromiseId) (delay : Int) (c : ScheduleTaskClass)
  /-- `RunDeleteAdmission`. -/
  | admission (p : PromiseId) (delay : Int) (c : ScheduleTaskClass)
  /-- `Submit` of a copy after its check of `stop_`. -/
  | copySubmit (p : PromiseId) (req : CopyRequest) (delay : Int)
  | physicalDelete (p : PromiseId)
  | eventReportDelete (p : PromiseId)
  | copy (p : PromiseId) (req : CopyRequest)
deriving DecidableEq, Repr

def Frame.promises : Frame → List PromiseId
  | .metaDelete p _ _ | .admission p _ _ | .copySubmit p _ _ | .physicalDelete p
  | .eventReportDelete p | .copy p _ => [p]
  | .raw | .submitMetaDelete _ _ | .submitLocationDelete _ _ | .submitCopy _ _ => []

def Task.frame : Task → Frame
  | .raw _ => .raw
  | .admission p delay => .admission p delay .reclaim
  | .physicalDelete p => .physicalDelete p
  | .eventReportDelete p => .eventReportDelete p
  | .copy p req => .copy p req
  | .nonBlockingMeta delay c => .submitMetaDelete delay c
  | .nonBlockingLocation delay c => .submitLocationDelete delay c

/-- What the other components answer between two moments of a frame. -/
inductive Outcome where
  /-- A result is there: of the admission, when nothing is left to delete, or
  of the delete. -/
  | returns (ec : ErrorCode)
  /-- The admission succeeded and the data has to be deleted. -/
  | needsPhysicalDelete
  /-- The results of the storage's `Copy`. -/
  | copied (results : List ErrorCode)
  | throws
deriving DecidableEq, Repr

def Outcome.status : Outcome → ErrorCode
  | .returns ec => ec
  | _ => .error

/-- What `DataStorageManager::Copy` gives back; `none` when it throws. -/
def Outcome.copyResults : Outcome → Option (List ErrorCode)
  | .copied results => some results
  | .throws => none
  | _ => some []

/-- `DoCopyTask`: the status its promise is set to, `none` when the exception
of `Copy` leaves the function. -/
def doCopyTask (req : CopyRequest) (o : Outcome) : Option ErrorCode :=
  if req.srcUris.length ≠ req.dstUris.length then some .badargs
  else if req.srcUris.isEmpty then some .ok
  else
    match o.copyResults with
    | none => none
    | some results =>
      if results.length ≠ req.srcUris.length then some .error
      else if results.any (· ≠ .ok) then some .partialOk
      else some .ok

/-! ## The executor -/

inductive Worker where
  | idle
  | running (c : ScheduleTaskClass) (f : Frame)
  /-- The body is over, its migration slot not yet given back. -/
  | leaving (c : ScheduleTaskClass)
  | exited
deriving DecidableEq, Repr

def Worker.promises : Worker → List PromiseId
  | .running _ f => f.promises
  | _ => []

structure Executor where
  stop : Bool := false
  taskQueues : ScheduleTaskClass → List ScheduledTask := fun _ => []
  runningMigrationTasks : Nat := 0
  sequenceCounter : Nat := 0
  workers : List Worker
  /-- The synchronous calls under way on other threads. -/
  callers : List Frame := []
  /-- The cancel functions `Stop` has collected and not yet run. -/
  cancelTasks : List ScheduledTask := []
  stopReturned : Bool := false
  nextPromise : PromiseId := 0
  completions : List (PromiseId × ErrorCode) := []
  /-- Promises of calls that ended in an exception: their futures were never
  handed out. -/
  thrown : List PromiseId := []
  /-- Promises that were destroyed without a value. -/
  broken : List PromiseId := []
  started : List Nat := []
  cancelled : List Nat := []

def Executor.init (cfg : Config) : Executor where
  workers := List.replicate cfg.threads .idle

namespace Executor

def complete (s : Executor) (p : PromiseId) (ec : ErrorCode) : Executor :=
  { s with completions := s.completions ++ [(p, ec)] }

/-- A moment of a frame as far as the clock and the allocator matter. -/
structure Moment where
  now : Int
  enqueueThrows : Bool := false
deriving DecidableEq, Repr

/-- `SubmitRaw`; `none` when it returns false. -/
def submitRaw (s : Executor) (m : Moment) (task : Task) (delay : Int) (c : ScheduleTaskClass) :
    Option Executor :=
  if s.stop || m.enqueueThrows then none
  else
    let entry : ScheduledTask := ⟨task, m.now + delay, s.sequenceCounter⟩
    some
      { s with
        sequenceCounter := s.sequenceCounter + 1
        taskQueues := Function.update s.taskQueues c
          (List.orderedInsert ScheduledTask.le entry (s.taskQueues c)) }

/-- Submit a task for an existing promise, or complete the promise. -/
def submitOrComplete (s : Executor) (m : Moment) (task : Task) (delay : Int)
    (c : ScheduleTaskClass) (p : PromiseId) : Executor :=
  (s.submitRaw m task delay c).getD (s.complete p .error)

/-- A new promise for a task that goes into the queue at once, given back with
its future only when the queue took the task. -/
def submitWithPromise (s : Executor) (m : Moment) (task : PromiseId → Task)
    (c : ScheduleTaskClass) : Executor :=
  match s.submitRaw m (task s.nextPromise) 0 c with
  | none => s
  | some s' => { s' with nextPromise := s.nextPromise + 1 }

/-- One moment of a frame: the executor after it, and what is left of the
frame. -/
def advance (s : Executor) (m : Moment) (o : Outcome) : Frame → Executor × Option Frame
  | .raw => (s, none)
  | .submitMetaDelete delay c =>
    let p := s.nextPromise
    let s := { s with nextPromise := p + 1 }
    if s.stop then (s.complete p .error, none) else (s, some (.metaDelete p delay c))
  | .submitLocationDelete delay c =>
    let p := s.nextPromise
    ({ s with nextPromise := p + 1 }, some (.admission p delay c))
  | .submitCopy req delay =>
    let p := s.nextPromise
    let s := { s with nextPromise := p + 1 }
    if s.stop then (s.complete p .error, none) else (s, some (.copySubmit p req delay))
  | .metaDelete p delay c =>
    match o with
    | .needsPhysicalDelete => (s.submitOrComplete m (.physicalDelete p) delay c p, none)
    -- nothing catches here: the call ends without a future
    | .throws => ({ s with thrown := s.thrown ++ [p] }, none)
    | o => (s.complete p o.status, none)
  | .admission p delay c =>
    match o with
    | .needsPhysicalDelete => (s.submitOrComplete m (.physicalDelete p) delay c p, none)
    | o => (s.complete p o.status, none)
  | .copySubmit p req delay =>
    (s.submitOrComplete m (.copy p req) delay .migrationContinuation p, none)
  | .physicalDelete p => (s.complete p o.status, none)
  | .eventReportDelete p => (s.complete p o.status, none)
  | .copy p req =>
    match doCopyTask req o with
    | some ec => (s.complete p ec, none)
    -- the worker catches the exception; the promise dies with the task
    | none => ({ s with broken := s.broken ++ [p] }, none)

/-! ## Workers -/

/-- The selection of `WorkerRoutine`, over the classes in order: the first
queue whose head is due and, for a migration class, within the budget. -/
def pickFrom (cfg : Config) (s : Executor) (now : Int) :
    List ScheduleTaskClass → Option (ScheduleTaskClass × ScheduledTask)
  | [] => none
  | c :: cs =>
    match s.taskQueues c with
    | [] => s.pickFrom cfg now cs
    | t :: _ =>
      if isMigrationTaskClass c && cfg.migrationBudget ≤ s.runningMigrationTasks then
        s.pickFrom cfg now cs
      else if now < t.executeTime then s.pickFrom cfg now cs
      else some (c, t)

def slotOf (c : ScheduleTaskClass) : Nat := if isMigrationTaskClass c then 1 else 0

/-- Take the head of a queue and start it on worker `i`. -/
def start (s : Executor) (i : Nat) (c : ScheduleTaskClass) (t : ScheduledTask) : Executor :=
  { s with
    taskQueues := Function.update s.taskQueues c (s.taskQueues c).tail
    runningMigrationTasks := s.runningMigrationTasks + slotOf c
    workers := s.workers.set i (.running c t.task.frame)
    started := s.started ++ [t.sequenceId] }

/-- One pass of an idle worker under the queue lock; `none` when it waits. -/
def select (cfg : Config) (s : Executor) (i : Nat) (now : Int) : Option Executor :=
  match s.workers[i]? with
  | some .idle =>
    if s.stop then some { s with workers := s.workers.set i .exited }
    else
      match s.pickFrom cfg now taskClasses with
      | none => none
      | some (c, t) => some (s.start i c t)
  | _ => none

def advanceWorker (s : Executor) (i : Nat) (m : Moment) (o : Outcome) : Option Executor :=
  match s.workers[i]? with
  | some (.running c f) =>
    let r := s.advance m o f
    some { r.1 with workers := r.1.workers.set i (r.2.elim (.leaving c) (.running c)) }
  | _ => none

/-- The worker gives its migration slot back and looks for the next task. -/
def leave (s : Executor) (i : Nat) : Option Executor :=
  match s.workers[i]? with
  | some (.leaving c) =>
    some
      { s with
        runningMigrationTasks := s.runningMigrationTasks - slotOf c
        workers := s.workers.set i .idle }
  | _ => none

/-- The synchronous call at place `i` advances; it leaves its place when it
returns. -/
def advanceCaller (s : Executor) (i : Nat) (m : Moment) (o : Outcome) : Option Executor :=
  match s.callers[i]? with
  | some f =>
    let r := s.advance m o f
    some { r.1 with callers := r.2.toList ++ r.1.callers.eraseIdx i }
  | none => none

/-! ## Stop -/

def queued (s : Executor) : List ScheduledTask := taskClasses.flatMap s.taskQueues

/-- `Stop` under the queue lock. -/
def beginStop (s : Executor) : Option Executor :=
  if s.stop then none
  else
    some
      { s with
        stop := true
        cancelTasks := s.queued.filter (·.task.hasCancel)
        taskQueues := fun _ => [] }

/-- `Stop` runs the next cancel function. -/
def cancelNext (s : Executor) : Option Executor :=
  match s.cancelTasks with
  | [] => none
  | t :: ts =>
    some
      { s with
        cancelTasks := ts
        cancelled := s.cancelled ++ [t.sequenceId]
        completions := s.completions ++ t.task.promises.map fun p => (p, .error) }

/-- `Stop` has joined every worker. -/
def join (s : Executor) : Option Executor :=
  if s.stop && !s.stopReturned && s.cancelTasks.isEmpty && s.workers.all (· = .exited) then
    some { s with stopReturned := true }
  else none

end Executor

/-! ## Runs -/

open Executor (Moment)

/-- A synchronous `Submit`. -/
inductive SyncCall where
  | metaDelete (delay : Int)
  | locationDelete (delay : Int)
  | copy (req : CopyRequest) (delay : Int)
deriving DecidableEq, Repr

def SyncCall.frame : SyncCall → Frame
  | .metaDelete delay => .submitMetaDelete delay .system
  | .locationDelete delay => .submitLocationDelete delay .system
  | .copy req delay => .submitCopy req delay

inductive Action where
  | submitTask (m : Moment) (c : ScheduleTaskClass) (delay : Int) (cancellable : Bool)
  | submitNonBlockingMeta (m : Moment) (delay : Int) (c : ScheduleTaskClass)
  | submitNonBlockingLocation (m : Moment) (delay : Int) (c : ScheduleTaskClass)
  | submitAsync (m : Moment) (delay : Int)
  | submitAsyncEventReport (m : Moment)
  | call (f : SyncCall)
  | advanceCaller (i : Nat) (m : Moment) (o : Outcome)
  | select (i : Nat) (now : Int)
  | advanceWorker (i : Nat) (m : Moment) (o : Outcome)
  | leave (i : Nat)
  | stop
  | cancelNext
  | join
deriving DecidableEq, Repr

def step (cfg : Config) (s : Executor) : Action → Option Executor
  | .submitTask m c delay cancellable => some ((s.submitRaw m (.raw cancellable) delay c).getD s)
  | .submitNonBlockingMeta m delay c => some ((s.submitRaw m (.nonBlockingMeta delay c) 0 c).getD s)
  | .submitNonBlockingLocation m delay c =>
    some ((s.submitRaw m (.nonBlockingLocation delay c) 0 c).getD s)
  | .submitAsync m delay => some (s.submitWithPromise m (.admission · delay) .reclaim)
  | .submitAsyncEventReport m => some (s.submitWithPromise m .eventReportDelete .reclaim)
  | .call f => some { s with callers := f.frame :: s.callers }
  | .advanceCaller i m o => s.advanceCaller i m o
  | .select i now => s.select cfg i now
  | .advanceWorker i m o => s.advanceWorker i m o
  | .leave i => s.leave i
  | .stop => s.beginStop
  | .cancelNext => s.cancelNext
  | .join => s.join

def machine (cfg : Config) : Lib.Machine Executor Action where
  init := fun s => s = Executor.init cfg
  step := step cfg

end TairKvCache.PlanExecutor
