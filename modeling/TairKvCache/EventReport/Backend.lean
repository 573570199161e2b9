import TairKvCache.EventReport.SnapshotUri

/-!
# The event-report backend

`data_storage/event_report_backend.{h,cc}`: reporters announce which cache
blocks they hold, and the backend keeps, per reporter, whether it is alive
and which of its announcements are current.

The source has four maps over the same keys: the lifecycle fences, the node
table, the node generations (which outlive the node and then are its
tombstone) and the snapshot states. Here a reporter is the record of its four
entries, each of which may be missing, and every operation is a function of
one such record, of the backend flags it reads and of what the environment
supplies (the clock, a generated token). Each function is one critical
section; an operation that lets go of its locks in the middle is two of them.

Left out: node metrics and status texts, the token owner table (read by
`MightExist` only), and the condition variables: a wait is a critical section
that happens later, a timed out wait one that says so.
-/

namespace TairKvCache.EventReport

open SnapshotUri

structure ReporterSnapshotKey where
  instanceId : String
  hostIpPort : String
deriving DecidableEq, Repr

structure LifecycleFence where
  generation : Nat := 0
  registered : Bool := false
deriving DecidableEq, Repr

structure NodeInfo where
  lastHeartbeatMs : Int
  available : Bool := true
  unavailableSinceMs : Int := 0
  mediums : List String := []
deriving DecidableEq, Repr

/-- `SnapshotVersionState`; the empty string is the missing token. -/
structure SnapshotVersionState where
  committed : String := ""
  inFlight : String := ""
  attemptEpoch : Nat := 0
  activeDeltaMutations : Nat := 0
  lastCommitMs : Int := 0
  strictQueryVisibility : Bool := false
deriving DecidableEq, Repr

/-- What the four maps hold for one reporter. -/
structure Reporter where
  fence : Option LifecycleFence := none
  node : Option NodeInfo := none
  generation : Option Nat := none
  snapshot : Option SnapshotVersionState := none
deriving DecidableEq, Repr

/-- What an operation answers, and the reporter it leaves. -/
abbrev Answer := ErrorCode × Reporter

/-! ## Validation -/

def validReporter (key : ReporterSnapshotKey) : Bool :=
  key.instanceId ≠ "" && isValidLocationIdComponent key.hostIpPort

def validMediums (mediums : List String) : Bool :=
  mediums.all isValidLocationIdComponent

/-- `reporter_key.instance_id.empty() || reporter_key.host_ip_port.empty()`, negated. -/
def namedReporter (key : ReporterSnapshotKey) : Bool :=
  key.instanceId ≠ "" && key.hostIpPort ≠ ""

/-! ## Nodes and lifecycles -/

def mergeMediums (known mediums : List String) : List String :=
  mediums.foldl (fun known m => if m ∈ known then known else known ++ [m]) known

namespace Reporter

/-- `GetOrCreateLifecycleFence`. -/
def withFence (r : Reporter) : Reporter :=
  { r with fence := some (r.fence.getD {}) }

/-- `node_generation_[instance_id][host_ip_port]`. -/
def currentGeneration (r : Reporter) : Nat := r.generation.getD 0

/-- Take the node into generation `g`, under the fence. -/
def enter (r : Reporter) (g : Nat) (info : NodeInfo) : Reporter :=
  { r with
    fence := some { generation := g, registered := true }
    node := some info
    generation := some g }

def newNode (mediums : List String) (nowMs : Int) : NodeInfo :=
  { lastHeartbeatMs := nowMs, mediums }

/-- `RegisterNode`: every registration opens a generation. A node that is
already there keeps its snapshot state. -/
def registerNode (r : Reporter) (accepting valid : Bool) (mediums : List String) (nowMs : Int) :
    Answer :=
  if !valid then (.badargs, r)
  else if !accepting then (.instanceNotExist, r)
  else
    let info := match r.node with
      | some info =>
        { lastHeartbeatMs := nowMs, available := true, unavailableSinceMs := 0
          mediums := mergeMediums info.mediums mediums }
      | none => newNode mediums nowMs
    (.ok, r.enter (r.currentGeneration + 1) info)

/-- `EnsureNodeRegistered` up to the lifecycle lock: a node that is there
only gets new mediums. `none` when there is none and the call goes on. -/
def ensureKnown (r : Reporter) (mediums : List String) : Option Reporter :=
  r.node.map fun info =>
    { r with node := some { info with mediums := mergeMediums info.mediums mediums } }

/-- The rest of `EnsureNodeRegistered`, under the lifecycle lock. -/
def ensureCreated (r : Reporter) (accepting : Bool) (mediums : List String) (nowMs : Int) : Answer :=
  let r := r.withFence
  if !accepting then (.instanceNotExist, r)
  else match r.node with
    | some info =>
      (.ok, r.enter r.currentGeneration
        { info with mediums := mergeMediums info.mediums mediums })
    | none =>
      if r.generation.isSome then (.nodeNotRegistered, r)
      else (.ok, r.enter (r.currentGeneration + 1) (newNode mediums nowMs))

/-- `UnregisterNodeLocked`: the generation entry stays as a tombstone. -/
def unregisterNodeLocked (r : Reporter) : Answer :=
  let r := { r with generation := some r.currentGeneration }
  match r.node with
  | none => (.noent, r)
  | some _ => (.ok, { r with node := none, snapshot := none })

/-- The fence after an unregistration. -/
def fenceDown (r : Reporter) : Reporter :=
  { r with fence := some { generation := r.currentGeneration, registered := false } }

def unregisterNode (r : Reporter) (retired : Bool) : Answer :=
  let r := r.withFence
  if retired then (.instanceNotExist, r)
  else
    let (ec, r) := r.unregisterNodeLocked
    (ec, r.fenceDown)

/-- `UnregisterNodeForHostDown`, idempotent: a missing node is no error. -/
def unregisterNodeForHostDown (r : Reporter) (accepting : Bool) : Answer :=
  let r := r.withFence
  if !accepting then (.instanceNotExist, r)
  else
    let r := fenceDown { r with generation := some r.currentGeneration }
    match r.node with
    | none => (.ok, r)
    | some _ => r.unregisterNodeLocked

def unregisterNodeIfGeneration (r : Reporter) (retired : Bool) (expectedGeneration : Nat) : Answer :=
  let r := r.withFence
  if retired then (.instanceNotExist, r)
  else if r.currentGeneration ≠ expectedGeneration then (.mismatch, r)
  else
    let (ec, r) := r.unregisterNodeLocked
    (ec, r.fenceDown)

/-- `TryPublishSteadyHeartbeatLocked`: `none` unless the heartbeat changes
no lifecycle state. -/
def tryPublishSteadyHeartbeat (r : Reporter) (nowMs : Int) : Option Reporter :=
  match r.fence, r.node, r.generation with
  | some fence, some info, some generation =>
    if fence.registered && fence.generation = generation && info.available then
      some { r with node := some { info with lastHeartbeatMs := nowMs } }
    else none
  | _, _, _ => none

/-- The slow path of `OnHeartbeat`, under the lifecycle lock: it may restore
a lost node, and recovers an unavailable one into a new generation. -/
def heartbeatLocked (r : Reporter) (accepting : Bool) (nowMs : Int) : Answer :=
  let r := r.withFence
  if !accepting then (.instanceNotExist, r)
  else match r.node with
    | none =>
      if r.generation.isSome then (.nodeNotRegistered, r)
      else (.ok, r.enter (r.currentGeneration + 1) (newNode [] nowMs))
    | some info =>
      if info.available then
        (.ok, r.enter r.currentGeneration { info with lastHeartbeatMs := nowMs })
      else
        (.ok, r.enter (r.currentGeneration + 1)
          { info with lastHeartbeatMs := nowMs, available := true, unavailableSinceMs := 0 })

def setNodeUnavailable (r : Reporter) (nowMs : Int) : Reporter :=
  match r.node with
  | none => r
  | some info =>
    if info.available then
      { r with node := some { info with available := false, unavailableSinceMs := nowMs } }
    else r

/-- The liveness checker's test of one node: its heartbeat is too old, by
the time the round started and by a fresh one. -/
def heartbeatExpired (info : NodeInfo) (nowMs freshNowMs heartbeatTimeoutMs : Int) : Bool :=
  info.lastHeartbeatMs ≠ 0 && nowMs - info.lastHeartbeatMs > heartbeatTimeoutMs &&
    freshNowMs - info.lastHeartbeatMs > heartbeatTimeoutMs

/-- What `LivenessCheckerLoop` does with one node: an expired one is made
unavailable and, once it has been so for the grace period, is selected for
cleanup in the generation it has now. -/
def livenessCheck (r : Reporter) (nowMs freshNowMs heartbeatTimeoutMs cleanupGraceMs : Int) :
    Reporter × Option Nat :=
  match r.node with
  | none => (r, none)
  | some info =>
    if heartbeatExpired info nowMs freshNowMs heartbeatTimeoutMs then
      let since := if info.available then nowMs else info.unavailableSinceMs
      ({ r with node := some { info with available := false, unavailableSinceMs := since } },
        if since > 0 && nowMs - since ≥ cleanupGraceMs then some r.currentGeneration else none)
    else (r, none)

/-! ## The delta gate -/

/-- `BeginDeltaMutation` once no snapshot is in flight or the wait for it has
timed out. The first delta of a reporter commits the generated token. -/
def beginDeltaMutation (r : Reporter) (accepting named : Bool) (token : String) :
    ErrorCode × Reporter × String × Nat :=
  if !named then (.badargs, r, "", 0)
  else if !accepting then (.instanceNotExist, r, "", 0)
  else
    let state := r.snapshot.getD {}
    if state.inFlight ≠ "" then (.snapshotInProgress, r, "", 0)
    else if state.committed = "" && r.node.isNone then (.snapshotRequired, r, "", 0)
    else
      let state := if state.committed = "" then { state with committed := token } else state
      if state.activeDeltaMutations = 2 ^ 64 - 1 then
        (.error, { r with snapshot := some state }, "", 0)
      else
        (.ok,
          { r with
            snapshot := some
              { state with activeDeltaMutations := state.activeDeltaMutations + 1 }
            generation := some r.currentGeneration },
          state.committed, r.currentGeneration)

/-- `EndDeltaMutation`. The generation only chooses what is logged. -/
def endDeltaMutation (r : Reporter) (expectedSnapshotVersion : String) : Reporter :=
  match r.snapshot with
  | none => r
  | some state =>
    if expectedSnapshotVersion ≠ "" && state.committed ≠ expectedSnapshotVersion then r
    else if state.activeDeltaMutations = 0 then r
    else
      { r with
        snapshot := some { state with activeDeltaMutations := state.activeDeltaMutations - 1 } }

/-! ## Snapshots -/

/-- `BeginSnapshot` up to the point where it lets the lifecycle lock go and
waits for the active deltas: it closes the write gate with the candidate. On
`ok` the third component is the admitted lifecycle generation. -/
def beginSnapshot (r : Reporter) (accepting named : Bool) (nowMs snapshotMinIntervalMs : Int)
    (token : String) : ErrorCode × Reporter × Nat :=
  if !named then (.badargs, r, 0)
  else
    let r := r.withFence
    let fence := r.fence.getD {}
    if !accepting then (.instanceNotExist, r, 0)
    else if r.node.isNone || !fence.registered then (.snapshotRequired, r, 0)
    else
      let state := r.snapshot.getD {}
      let touched := { r with snapshot := some state }
      if state.inFlight ≠ "" then (.snapshotInProgress, touched, 0)
      else if state.lastCommitMs > 0 && snapshotMinIntervalMs > 0 &&
          nowMs - state.lastCommitMs < snapshotMinIntervalMs then
        (.snapshotRateLimited, touched, 0)
      else
        (.ok,
          { r with
            snapshot := some
              { state with attemptEpoch := state.attemptEpoch + 1, inFlight := token } },
          fence.generation)

/-- The wait of `BeginSnapshot` is over by itself: nothing is left to drain. -/
def drained (r : Reporter) (accepting : Bool) (candidate : String) : Bool :=
  !accepting || match r.snapshot with
    | none => true
    | some state => state.inFlight ≠ candidate || state.activeDeltaMutations = 0

/-- Clear the candidate if it is still the one in flight. -/
def dropCandidate (r : Reporter) (candidate : String) : Reporter :=
  match r.snapshot with
  | none => r
  | some state =>
    if state.inFlight = candidate then { r with snapshot := some { state with inFlight := "" } }
    else r

/-- `BeginSnapshot` after the wait. -/
def finishBeginSnapshot (r : Reporter) (accepting : Bool) (candidate : String) : Answer :=
  if !accepting then (.instanceNotExist, r.dropCandidate candidate)
  else if !r.drained accepting candidate then (.snapshotInProgress, r.dropCandidate candidate)
  else match r.snapshot with
    | none => (.snapshotRequired, r)
    | some state => if state.inFlight ≠ candidate then (.snapshotRequired, r) else (.ok, r)

def commitSnapshotVersion (r : Reporter) (version : String) (nowMs : Int) : Bool × Reporter :=
  if !isValidSnapshotVersionToken version then (false, r)
  else match r.snapshot with
    | none => (false, r)
    | some state =>
      if state.inFlight ≠ version then (false, r)
      else
        (true,
          { r with
            snapshot := some
              { state with
                committed := version, inFlight := "", lastCommitMs := nowMs
                strictQueryVisibility := true } })

/-- The check every lease and the generation-checked commit make. -/
def registeredAt (r : Reporter) (generation : Nat) : Bool :=
  match r.fence with
  | none => false
  | some fence => fence.registered && fence.generation = generation

def commitSnapshotVersionIfGeneration (r : Reporter) (accepting : Bool) (version : String)
    (expectedGeneration : Nat) (nowMs : Int) : Answer :=
  if r.fence.isNone then (.nodeNotRegistered, r)
  else if !accepting then (.instanceNotExist, r)
  else if !r.registeredAt expectedGeneration then (.nodeNotRegistered, r)
  else
    let (committed, r) := r.commitSnapshotVersion version nowMs
    (if committed then .ok else .error, r)

def abortSnapshotVersion (r : Reporter) (named : Bool) (version : String) : Reporter :=
  if !isValidSnapshotVersionToken version || !named || r.fence.isNone then r
  else match r.snapshot with
    | none => r
    | some state =>
      if state.inFlight = version then
        { r with snapshot := some { state with inFlight := "", strictQueryVisibility := false } }
      else r

/-! ## Leases -/

/-- `AcquireLifecycleMutationLease`, once the shared lock was got. -/
def acquireLifecycleMutationLease (r : Reporter) (accepting : Bool) (expectedGeneration : Nat) :
    ErrorCode :=
  if r.fence.isNone then .nodeNotRegistered
  else if !accepting then .instanceNotExist
  else if !r.registeredAt expectedGeneration then .nodeNotRegistered
  else .ok

/-! ## Queries -/

/-- `GetQueryVisibilityState`: whether strict, and the committed token;
`none` when the reporter cannot be queried. -/
def getQueryVisibilityState (r : Reporter) (accepting : Bool) : Option (Bool × String) :=
  if !accepting then none
  else match r.node with
    | none => none
    | some info =>
      if info.available then
        let state := r.snapshot.getD {}
        some (state.strictQueryVisibility, state.committed)
      else none

end Reporter

/-! ## The backend -/

structure EventReportBackend where
  type : DataStorageType
  isOpen : Bool := false
  isAvailable : Bool := false
  retired : Bool := false
  heartbeatTimeoutMs : Int
  cleanupGraceMs : Int
  snapshotMinIntervalMs : Int
  maintenanceRecoveryDeadlineMs : Int := 0
  reporters : AList (fun _ : ReporterSnapshotKey => Reporter) := ∅

variable (b : EventReportBackend)

namespace EventReportBackend

def acceptingReports (b : EventReportBackend) : Bool :=
  !b.retired && (!b.isOpen || b.isAvailable)

def available (b : EventReportBackend) : Bool := b.isOpen && b.isAvailable

/-- The entries of the four maps under `key`. -/
def reporter (b : EventReportBackend) (key : ReporterSnapshotKey) : Reporter :=
  (b.reporters.lookup key).getD {}

def setReporter (b : EventReportBackend) (key : ReporterSnapshotKey) (r : Reporter) :
    EventReportBackend :=
  { b with reporters := b.reporters.insert key r }

@[simp] theorem reporter_setReporter_self (key : ReporterSnapshotKey) (r : Reporter) :
    (b.setReporter key r).reporter key = r := by
  simp [reporter, setReporter]

theorem reporter_setReporter_ne {key key' : ReporterSnapshotKey} (r : Reporter) (h : key' ≠ key) :
    (b.setReporter key r).reporter key' = b.reporter key' := by
  simp [reporter, setReporter, AList.lookup_insert_ne h]

/-- `Close`, first part: from here on nothing is accepted. -/
def retire (b : EventReportBackend) : EventReportBackend :=
  { b with retired := true, isOpen := false, isAvailable := false }

/-- `Close`, second part: all maps are cleared. -/
def clear (b : EventReportBackend) : EventReportBackend := { b with reporters := ∅ }

@[simp] theorem reporter_clear (key : ReporterSnapshotKey) :
    b.clear.reporter key = {} := by
  simp [clear, reporter]

/-- One round of `LivenessCheckerLoop` over the node table. -/
def livenessScan (b : EventReportBackend) (nowMs freshNowMs : Int) :
    EventReportBackend × List (ReporterSnapshotKey × Nat) :=
  b.reporters.entries.foldl
    (fun (b, selected) e =>
      let (r, sel) := (b.reporter e.1).livenessCheck nowMs freshNowMs
        b.heartbeatTimeoutMs b.cleanupGraceMs
      (b.setReporter e.1 r, selected ++ (sel.map fun g => (e.1, g)).toList))
    (b, [])

end EventReportBackend

end TairKvCache.EventReport
