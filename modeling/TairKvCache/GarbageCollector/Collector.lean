import TairKvCache.GarbageCollector.Candidates

/-!
# The collector's tick

`RunOneTick` of `manager/cache_garbage_collector.cc` with the functions it
calls: polling the futures of the actions in flight, beginning, advancing and
completing a round, one scan, and submitting and tracking the two actions the
scan gives rise to.

The worker thread owns this state, so a tick is one step. What a tick is told
from outside is a `TickEnv`: the clock, where a stop request is seen, the
state of the futures, the registry, the scan's answer and the executor's. The
metrics and log lines have no effect on the rest and are left out, and so are
the round's start time and request context, which only they read.
-/

namespace TairKvCache.GarbageCollector

/-! ## State -/

structure InstanceScanEntry where
  instanceGroup : String
  instanceId : String
  cursor : Nat := 0
  completed : Bool := false
  scanFailureCount : Nat := 0
deriving DecidableEq, Repr

def maxScanFailuresPerInstancePerRound : Nat := 3

inductive ActionName where
  | physicalDelete | eventReportMetadata
deriving DecidableEq, Repr

/-- A `std::future` is known by a number; what it holds is told at each poll. -/
abbrev FutureId := Nat

structure InflightDelete where
  roundId : Nat
  instanceId : String
  actionName : ActionName
  targetCount : Nat
  pendingLocations : List PendingLocationKey
  future : FutureId
deriving DecidableEq

structure Collector where
  instances : List InstanceScanEntry := []
  instanceIndex : Nat := 0
  roundId : Nat := 0
  roundActive : Bool := false
  nextRoundAt : Option Nat := none
  inflightDeletes : List InflightDelete := []
  pendingLocations : Finset PendingLocationKey := ∅

/-! ## What the outside answers -/

inductive FutureStatus where
  | notReady
  | ready (status : ErrorCode)
  | threw
  | invalid
deriving DecidableEq, Repr

/-- The places where a tick looks at `stop_requested_`. -/
inductive Checkpoint where
  | start | polled | listing | beforeScan | scanned | beforeSubmit
deriving DecidableEq, Repr

/-- What becomes of one `SubmitAsync`. -/
inductive SubmitAnswer where
  /-- The tracking record could not be allocated, so nothing was submitted. -/
  | notPrepared
  | threw
  | rejected
  | acceptedInvalid
  /-- Accepted; the insertion of the target number `failsAt` throws. -/
  | accepted (future : FutureId) (failsAt : Option Nat)
deriving DecidableEq, Repr

structure TickEnv where
  /-- Milliseconds of the steady clock. -/
  now : Nat
  stopped : Checkpoint → Bool
  future : FutureId → FutureStatus
  /-- `ListInstanceGroup`: the names, `none` for a null entry. -/
  listInstanceGroup : Except ErrorCode (List (Option String))
  listInstanceInfo : String → Except ErrorCode (List (Option String))
  /-- `none`: no indexer; else the answer of its maintenance scan. -/
  scan : String → Nat → Option (Except ErrorCode MaintenanceScanBatch)
  build : BuildEnv
  submit : ActionName → SubmitAnswer

/-! ## Polling -/

def releasePendingLocations (pending : Finset PendingLocationKey) (d : InflightDelete) :
    Finset PendingLocationKey :=
  d.pendingLocations.foldl Finset.erase pending

/-- `PollInflightDeletes`: an action stays while its future is not ready. -/
def pollInflightDeletes (env : TickEnv) :
    List InflightDelete → Finset PendingLocationKey →
      List InflightDelete × Finset PendingLocationKey
  | [], pending => ([], pending)
  | d :: ds, pending =>
    match env.future d.future with
    | .notReady =>
      let out := pollInflightDeletes env ds pending
      (d :: out.1, out.2)
    | .ready _ | .threw | .invalid =>
      pollInflightDeletes env ds (releasePendingLocations pending d)

def Collector.poll (env : TickEnv) (s : Collector) : Collector :=
  let out := pollInflightDeletes env s.inflightDeletes s.pendingLocations
  { s with inflightDeletes := out.1, pendingLocations := out.2 }

/-! ## Rounds -/

/-- The entries of one group, `none` when the registry answer is unusable. -/
def groupEntries (group : String) (answer : Except ErrorCode (List (Option String))) :
    Option (List InstanceScanEntry) :=
  match answer with
  | .error _ => none
  | .ok ids =>
    ids.mapM fun id =>
      match id with
      | none => none
      | some id =>
        if id = "" then none
        else some { instanceGroup := group, instanceId := id : InstanceScanEntry }

def listEntries (env : TickEnv) : List (Option String) → Option (List InstanceScanEntry)
  | [] => some []
  | group :: groups =>
    if env.stopped .listing then none
    else match group with
      | none => none
      | some name =>
        if name = "" then none
        else match groupEntries name (env.listInstanceInfo name) with
          | none => none
          | some entries => (listEntries env groups).map (entries ++ ·)

def entryLe (a b : InstanceScanEntry) : Bool :=
  a.instanceGroup < b.instanceGroup ||
    (a.instanceGroup = b.instanceGroup && a.instanceId ≤ b.instanceId)

/-- The sorted snapshot without repetitions. Fresh entries that agree in group
and instance are equal, so `std::unique` and `dedup` drop the same ones. -/
def snapshot (env : TickEnv) : Option (List InstanceScanEntry) :=
  match env.listInstanceGroup with
  | .error _ => none
  | .ok groups =>
    (listEntries env groups).map fun es => (es.insertionSort fun a b => entryLe a b = true).dedup

/-- `BeginRound`; `none` when it fails. -/
def Collector.beginRound (env : TickEnv) (s : Collector) : Option Collector :=
  (snapshot env).map fun entries =>
    { s with
      instances := entries, instanceIndex := 0, roundId := s.roundId + 1
      roundActive := true, nextRoundAt := none }

def Collector.completeRound (cfg : Config) (env : TickEnv) (s : Collector) : Collector :=
  { s with
    instances := [], instanceIndex := 0, roundActive := false
    nextRoundAt := some (env.now + cfg.roundPauseMs) }

/-- The first instance after the current one, cyclically, that is not done. -/
def Collector.nextIndex (s : Collector) : Nat :=
  let size := s.instances.length
  (((List.range size).map fun offset => (s.instanceIndex + (offset + 1)) % size).find? fun i =>
    (s.instances[i]?).any fun e => !e.completed).getD s.instanceIndex

def Collector.advanceInstance (cfg : Config) (env : TickEnv) (completedCurrent : Bool)
    (s : Collector) : Collector :=
  if s.instances.length ≤ s.instanceIndex then s.completeRound cfg env
  else
    let s := { s with
      instances := s.instances.modify s.instanceIndex fun e =>
        { e with completed := e.completed || completedCurrent } }
    if s.instances.all (·.completed) then s.completeRound cfg env
    else { s with instanceIndex := s.nextIndex }

/-! ## Submitting -/

/-- The insertion loop after acceptance: pending set and tracked targets; the
flag says that it ended in an exception. -/
def trackTargets : Option Nat → List PendingLocationKey → Finset PendingLocationKey →
    List PendingLocationKey → Finset PendingLocationKey × List PendingLocationKey × Bool
  | _, [], pending, tracked => (pending, tracked, false)
  | some 0, _ :: _, pending, tracked => (pending, tracked, true)
  | failsAt, t :: ts, pending, tracked =>
    if t ∈ pending then trackTargets (failsAt.map (· - 1)) ts pending tracked
    else trackTargets (failsAt.map (· - 1)) ts (insert t pending) (tracked ++ [t])

def Collector.submitAndTrack (cfg : Config) (env : TickEnv) (instanceId : String)
    (action : ActionName) (targets : List PendingLocationKey) (s : Collector) : Collector :=
  if targets.isEmpty || cfg.maxInflightDeleteRequests ≤ s.inflightDeletes.length then s
  else match env.submit action with
    | .notPrepared | .threw | .rejected | .acceptedInvalid => s
    | .accepted future failsAt =>
      let out := trackTargets failsAt targets s.pendingLocations []
      if out.2.2 then
        -- the accepted action goes on in the executor, untracked
        { s with pendingLocations := out.2.1.foldl Finset.erase out.1 }
      else
        { s with
          pendingLocations := out.1
          inflightDeletes := s.inflightDeletes ++
            [{ roundId := s.roundId, instanceId, actionName := action
               targetCount := targets.length, pendingLocations := out.2.1, future }] }

def physicalTargets (instanceId : String) (r : CacheLocationDelRequest) :
    List PendingLocationKey :=
  (r.blockKeys.zip r.locationIds).flatMap fun row => row.2.map fun id => ⟨instanceId, row.1, id⟩

def eventReportTargets (instanceId : String) (r : EventReportMetadataDelRequest) :
    List PendingLocationKey :=
  (r.blockKeys.zip r.targets).flatMap fun row =>
    row.2.map fun t => ⟨instanceId, row.1, t.locationId⟩

/-- Both actions of a tick; `submit_and_track` itself drops the second one
when the first has used the last free slot. -/
def Collector.submitActions (cfg : Config) (env : TickEnv) (instanceId : String)
    (actions : ScanDeleteActions) (s : Collector) : Collector :=
  let s := s.submitAndTrack cfg env instanceId .physicalDelete
    (physicalTargets instanceId actions.executorRequest)
  s.submitAndTrack cfg env instanceId .eventReportMetadata
    (eventReportTargets instanceId actions.eventReportRequest)

/-! ## The tick -/

/-- What a tick did, as far as the coverage of a round goes. -/
inductive TickEvent where
  | skipped
  | roundCompleted
  | indexerMissing (entry : String × String)
  | scanFailed (entry : String × String) (cursor : Nat)
  | scanned (entry : String × String) (cursor : Nat) (batch : MaintenanceScanBatch)

def InstanceScanEntry.name (e : InstanceScanEntry) : String × String :=
  (e.instanceGroup, e.instanceId)

def Collector.setEntry (s : Collector) (e : InstanceScanEntry) : Collector :=
  { s with instances := s.instances.set s.instanceIndex e }

/-- A failed scan: the cursor stays, and the third failure in a row gives the
instance up for this round. -/
def Collector.onScanFailed (cfg : Config) (env : TickEnv) (entry : InstanceScanEntry)
    (s : Collector) : Collector :=
  let failures := entry.scanFailureCount + 1
  (s.setEntry { entry with scanFailureCount := failures }).advanceInstance cfg env
    (maxScanFailuresPerInstancePerRound ≤ failures)

/-- A successful scan. The actions are built before the entry is advanced. -/
def Collector.onScanned (cfg : Config) (env : TickEnv) (entry : InstanceScanEntry)
    (batch : MaintenanceScanBatch) (s : Collector) : Collector :=
  let s := s.setEntry { entry with scanFailureCount := 0, cursor := batch.nextCursor }
  if env.stopped .scanned then s
  else
    let actions := buildDeleteActions cfg env.build s.pendingLocations entry.instanceId batch
    let s := s.advanceInstance cfg env (batch.nextCursor = 0)
    if env.stopped .beforeSubmit then s
    else s.submitActions cfg env entry.instanceId actions

/-- The scan of the current entry, if there is one. -/
def Collector.scanCurrent (cfg : Config) (env : TickEnv) (s : Collector) :
    Collector × TickEvent :=
  match s.instances[s.instanceIndex]? with
  | none => (s.completeRound cfg env, .roundCompleted)
  | some entry =>
    if env.stopped .beforeScan then (s, .skipped)
    else match env.scan entry.instanceId entry.cursor with
      | none => (s.advanceInstance cfg env true, .indexerMissing entry.name)
      | some (.error _) => (s.onScanFailed cfg env entry, .scanFailed entry.name entry.cursor)
      | some (.ok batch) =>
        (s.onScanned cfg env entry batch, .scanned entry.name entry.cursor batch)

/-- The state a scan may go on from: an active round, begun now if need be. -/
def Collector.enterRound (env : TickEnv) (s : Collector) : Option Collector :=
  if s.nextRoundAt.any fun t => decide (env.now < t) then none
  else if s.roundActive then some s
  else s.beginRound env

def Collector.runOneTick (cfg : Config) (env : TickEnv) (s : Collector) :
    Collector × TickEvent :=
  if env.stopped .start then (s, .skipped)
  else
    let s := s.poll env
    if cfg.maxInflightDeleteRequests ≤ s.inflightDeletes.length || env.stopped .polled then
      (s, .skipped)
    else match s.enterRound env with
      | none => (s, .skipped)
      | some s => s.scanCurrent cfg env

end TairKvCache.GarbageCollector
