import TairKvCache.EventReport.Backend

/-!
# Readability and maintenance probes

Which locations a query may return, which ones background maintenance may
delete, and the lease it has to take before it does: three decision
procedures over the same reporter state, from
`IsEventReportLocationReadable` (`manager/cache_manager.cc`),
`ProbeLocationsForMaintenance` and `AcquireMaintenanceCleanupLease`
(`data_storage/event_report_backend.cc`).
-/

namespace TairKvCache.EventReport

open SnapshotUri

/-! ## Readability -/

def hasValidatedLocationSpecs (location : CacheLocation) : Bool :=
  location.validatedTotalSize.isSome

/-- `IsEventReportLocationReadable`: at least one spec, no malformed URI and,
in strict mode, one spec of the committed generation. -/
def isEventReportLocationReadable (location : CacheLocation) (strict : Bool)
    (committedVersion : String) : Bool :=
  let versions := location.locationSpecs.map fun spec =>
    inspectSnapshotUriForVisibility spec.uri (hasValidatedLocationSpecs location)
  !location.locationSpecs.isEmpty && versions.all Option.isSome &&
    (!strict || versions.any fun v =>
      match v with
      | none => false
      | some version => version ≠ "" && version = committedVersion)

namespace EventReportBackend

/-- A query of `instanceId` may return the location: its reporter is known
from the id, can be queried, and the location is readable under its state. -/
def readable (b : EventReportBackend) (instanceId : String) (location : CacheLocation) : Bool :=
  match parseLocationId b.type location.id with
  | none => false
  | some (_, host) =>
    match (b.reporter ⟨instanceId, host⟩).getQueryVisibilityState b.acceptingReports with
    | none => false
    | some (strict, committed) => isEventReportLocationReadable location strict committed

end EventReportBackend

/-! ## Probes -/

inductive MaintenanceCleanupDecision where
  | keep | deleteMetadata | unknown
deriving DecidableEq, Repr

inductive MaintenanceCleanupReason where
  | staleSnapshot | downHost | recoveryAbsentHost
deriving DecidableEq, Repr

inductive MaintenanceProbeUnknownReason where
  | none | backendUnavailable | reporterIdentityMalformed | snapshotState
  | locationMalformed | recoveryGrace
deriving DecidableEq, Repr

structure MaintenanceLocationProbe where
  instanceId : String
  locationId : String
  storageUris : List String
deriving DecidableEq, Repr

structure MaintenanceCleanupToken where
  reason : MaintenanceCleanupReason := .staleSnapshot
  reporterKey : ReporterSnapshotKey := ⟨"", ""⟩
  lifecycleGeneration : Nat := 0
  committedVersion : String := ""
  snapshotAttemptEpoch : Nat := 0
deriving DecidableEq, Repr

structure MaintenanceLocationProbeResult where
  decision : MaintenanceCleanupDecision := .unknown
  unknownReason : MaintenanceProbeUnknownReason := .none
  token : MaintenanceCleanupToken := {}
deriving DecidableEq, Repr

/-- The probe the garbage collector makes for a stored location. -/
def probeOf (instanceId : String) (location : CacheLocation) : MaintenanceLocationProbe :=
  { instanceId, locationId := location.id, storageUris := location.locationSpecs.map (·.uri) }

/-- Some URI carries the committed or the in-flight generation. -/
def containsCurrent (state : SnapshotVersionState) (uris : List String) : Bool :=
  uris.any fun uri =>
    match inspectSnapshotUriForVisibility uri false with
    | none => false
    | some version =>
      version = state.committed || (state.inFlight ≠ "" && version = state.inFlight)

/-- The probe of a reporter whose node is in the table. -/
def probeRegistered (r : Reporter) (info : NodeInfo) (key : ReporterSnapshotKey)
    (uris : List String) : MaintenanceLocationProbeResult :=
  if !info.available then { decision := .keep }
  else match r.snapshot with
    | none => { unknownReason := .snapshotState }
    | some state =>
      if state.committed = "" || !state.strictQueryVisibility then
        { unknownReason := .snapshotState }
      else if containsCurrent state uris then { decision := .keep }
      else if uris.any fun uri => (inspectSnapshotUriForVisibility uri false).isNone then
        { unknownReason := .locationMalformed }
      else
        { decision := .deleteMetadata
          token :=
            { reason := .staleSnapshot, reporterKey := key
              lifecycleGeneration := r.currentGeneration, committedVersion := state.committed
              snapshotAttemptEpoch := state.attemptEpoch } }

/-- The probe of a reporter without a node: down if it left a tombstone,
else absent, which counts only after the recovery grace. -/
def probeAbsent (r : Reporter) (key : ReporterSnapshotKey) (nowMs deadlineMs : Int) :
    MaintenanceLocationProbeResult :=
  match r.generation with
  | some generation =>
    { decision := .deleteMetadata
      token := { reason := .downHost, reporterKey := key, lifecycleGeneration := generation } }
  | none =>
    if nowMs < deadlineMs then { unknownReason := .recoveryGrace }
    else
      { decision := .deleteMetadata
        token := { reason := .recoveryAbsentHost, reporterKey := key } }

namespace EventReportBackend

/-- `ProbeLocationsForMaintenance`, one probe of the batch. -/
def probeLocation (b : EventReportBackend) (probe : MaintenanceLocationProbe) (nowMs : Int) :
    MaintenanceLocationProbeResult :=
  if !b.acceptingReports then { unknownReason := .backendUnavailable }
  else if probe.instanceId = "" then { unknownReason := .reporterIdentityMalformed }
  else match parseLocationId b.type probe.locationId with
    | none => { unknownReason := .reporterIdentityMalformed }
    | some (_, host) =>
      let key := ⟨probe.instanceId, host⟩
      let r := b.reporter key
      match r.node with
      | some info => probeRegistered r info key probe.storageUris
      | none => probeAbsent r key nowMs b.maintenanceRecoveryDeadlineMs

def probeLocationsForMaintenance (b : EventReportBackend) (probes : List MaintenanceLocationProbe)
    (nowMs : Int) : List MaintenanceLocationProbeResult :=
  probes.map fun probe => b.probeLocation probe nowMs

end EventReportBackend

/-! ## The cleanup lease -/

inductive CleanupLeaseAcquireResult where
  | acquired | busy | stale
deriving DecidableEq, Repr

namespace Reporter

/-- `AcquireDownLifecycleCleanupLease`, once the shared lock was got. -/
def acquireDownLifecycleCleanupLease (r : Reporter) (expectedGeneration : Nat) :
    CleanupLeaseAcquireResult :=
  match r.fence with
  | none => .stale
  | some fence =>
    if fence.generation ≠ expectedGeneration then .stale
    else if fence.registered then .busy
    else .acquired

/-- `AcquireAbsentReporterCleanupLease`: the answer and the generation. -/
def acquireAbsentReporterCleanupLease (r : Reporter) : CleanupLeaseAcquireResult × Nat :=
  let fence := r.fence.getD {}
  if fence.registered then (.stale, 0) else (.acquired, fence.generation)

/-- The checks for a stale-snapshot token. -/
def acquireStaleSnapshotLease (r : Reporter) (token : MaintenanceCleanupToken) :
    CleanupLeaseAcquireResult :=
  if !r.registeredAt token.lifecycleGeneration then .stale
  else match r.snapshot with
    | none => .stale
    | some state =>
      if state.strictQueryVisibility && state.committed = token.committedVersion &&
          state.attemptEpoch = token.snapshotAttemptEpoch then .acquired
      else .stale

end Reporter

namespace EventReportBackend

/-- `AcquireMaintenanceCleanupLease`, once the shared lock was got. Only the
branch for an absent reporter creates the fence. -/
def acquireMaintenanceCleanupLease (b : EventReportBackend) (token : MaintenanceCleanupToken)
    (nowMs : Int) : CleanupLeaseAcquireResult × Reporter :=
  let r := b.reporter token.reporterKey
  if !b.acceptingReports then (.busy, r)
  else match token.reason with
    | .staleSnapshot => (r.acquireStaleSnapshotLease token, r)
    | .downHost => (r.acquireDownLifecycleCleanupLease token.lifecycleGeneration, r)
    | .recoveryAbsentHost =>
      if nowMs < b.maintenanceRecoveryDeadlineMs then (.busy, r)
      else
        match r.acquireAbsentReporterCleanupLease with
        | (.acquired, generation) =>
          (if generation ≠ token.lifecycleGeneration then .stale else .acquired, r.withFence)
        | (result, _) => (result, r.withFence)

end EventReportBackend

end TairKvCache.EventReport
