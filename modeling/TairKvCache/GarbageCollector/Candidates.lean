import TairKvCache.Lib.OrdMap
import TairKvCache.EventReport.Maintenance

/-!
# Delete candidates of one scan batch

`BuildDeleteActions` (`manager/cache_garbage_collector.cc`): from one page of
stored locations to the two delete requests of a tick, one for the physical
delete pipeline and one for metadata of event-report storage.

The outside world enters as `BuildEnv`: which locations are targets of a
running copy, what the storage backends answer to `MightExist`, which
event-report backend owns a storage type and what its maintenance probe
answers. An answer `none` is a call that threw; the source catches it per
storage, keeping what the earlier chunks of that storage had found. Scan
cursors travel as decimal text; here they are the numbers, and 0 is
`SCAN_BASE_CURSOR`.
-/

namespace TairKvCache.GarbageCollector

open EventReport Lib

/-! ## Configuration -/

/-- `kMinCacheGcOrphanWritingGracePeriodMs`. -/
def minOrphanWritingGracePeriodMs : Int := 60 * 60 * 1000

/-- `CacheGarbageCollector::Config`, the fields a tick reads, with what
`Validate` demands of them before a worker is started. -/
structure Config where
  roundPauseMs : Nat
  scanBatchSize : Nat
  orphanWritingGracePeriodMs : Int
  maxInflightDeleteRequests : Nat
  eventReportCleanupEnabled : Bool
  eventReportActionBatchSize : Nat
  scanBatchSize_pos : 0 < scanBatchSize
  scanBatchSize_lt : scanBatchSize < 2 ^ 63
  maxInflight_pos : 0 < maxInflightDeleteRequests
  grace_le : minOrphanWritingGracePeriodMs ≤ orphanWritingGracePeriodMs
  actionBatchSize_pos : eventReportCleanupEnabled = true → 0 < eventReportActionBatchSize

/-- The values the source declares. -/
def Config.default : Config where
  roundPauseMs := 2 * 60 * 60 * 1000
  scanBatchSize := 256
  orphanWritingGracePeriodMs := 24 * 60 * 60 * 1000
  maxInflightDeleteRequests := 2
  eventReportCleanupEnabled := true
  eventReportActionBatchSize := 32
  scanBatchSize_pos := by decide
  scanBatchSize_lt := by decide
  maxInflight_pos := Nat.two_pos
  grace_le := by decide
  actionBatchSize_pos := fun _ => by decide

/-! ## Pages and requests -/

structure MaintenanceScanBatch where
  nextCursor : Nat
  keys : List KeyType
  locations : List CacheLocationMap
  locationResults : List ErrorCode

/-- `CacheLocationDelRequest`, as the collector fills it. -/
structure CacheLocationDelRequest where
  instanceId : String
  blockKeys : List KeyType := []
  locationIds : List (List LocationId) := []
  expectedLocationValues : List (List CacheLocation.Json) := []
  authoritativeRead : Bool := false

structure EventReportMetadataDeleteTarget where
  locationId : LocationId
  expectedLocationValue : CacheLocation.Json
  backendUniqueName : String
  storageType : DataStorageType
  cleanupToken : MaintenanceCleanupToken
deriving DecidableEq

structure EventReportMetadataDelRequest where
  instanceId : String
  blockKeys : List KeyType := []
  targets : List (List EventReportMetadataDeleteTarget) := []

structure ScanDeleteActions where
  executorRequest : CacheLocationDelRequest
  eventReportRequest : EventReportMetadataDelRequest

/-! ## Candidates -/

inductive CandidateReason where
  | orphanWriting | storageMissing | eventReportStaleSnapshot | eventReportDownHost
  | eventReportRecoveryAbsentHost
deriving DecidableEq, Repr

def candidatePriority : CandidateReason → Nat
  | .orphanWriting => 0
  | .storageMissing => 1
  | .eventReportDownHost => 2
  | .eventReportRecoveryAbsentHost => 3
  | .eventReportStaleSnapshot => 4

def isEventReportReason (reason : CandidateReason) : Bool :=
  reason = .eventReportStaleSnapshot || reason = .eventReportDownHost ||
    reason = .eventReportRecoveryAbsentHost

/-- The reason under which a probe's delete decision is filed. -/
def candidateReasonOf : MaintenanceCleanupReason → CandidateReason
  | .downHost => .eventReportDownHost
  | .recoveryAbsentHost => .eventReportRecoveryAbsentHost
  | .staleSnapshot => .eventReportStaleSnapshot

/-- A registered event-report backend, by its unique name. -/
structure RoutedBackend where
  uniqueName : String
  storageType : DataStorageType
deriving DecidableEq, Repr

abbrev CandidateKey := KeyType × LocationId

structure DeleteCandidate where
  expectedLocationValue : CacheLocation.Json
  reason : CandidateReason
  /-- `event_report_backend` with its `event_report_cleanup_token`. -/
  eventReport : Option (RoutedBackend × MaintenanceCleanupToken) := none

/-- `std::map<CandidateKey, DeleteCandidate>`, in the order of insertion:
every reader sorts it first. -/
abbrev Candidates := List (CandidateKey × DeleteCandidate)

/-- `candidates.emplace`: the first candidate of a key stays. -/
def Candidates.emplace (cs : Candidates) (key : CandidateKey) (c : DeleteCandidate) :
    Candidates :=
  if key ∈ cs.map Prod.fst then cs else cs ++ [(key, c)]

/-! ## What the outside answers -/

structure BuildEnv where
  nowUs : Int
  /-- A stop request is seen at one of the checks between the phases, all of
  which return the still empty actions. -/
  stopSeen : Bool
  hasActiveCopyTarget : KeyType → LocationId → Bool
  /-- `GetDataStorageBackend(name)->GetType()`. -/
  storageType : String → Option DataStorageType
  /-- The answer of one `MightExist` chunk, by storage, type and offset. -/
  mightExist : String → DataStorageType → Nat → List StandardUri → Option (List Bool)
  /-- `event_report_storage_candidates` of the instance's group. -/
  eventReportStorageCandidates : Option (List String)
  /-- Storage type and availability of a registered event-report backend. -/
  eventReportBackend : String → Option (DataStorageType × Bool)
  /-- The answer of one chunk of maintenance probes, by type and offset. -/
  probe : DataStorageType → Nat → List MaintenanceLocationProbe →
    Option (List MaintenanceLocationProbeResult)

/-! ## Routing -/

inductive EventReportBackendRoute where
  | resolved (backend : RoutedBackend)
  | missing | ambiguous | unavailable
deriving DecidableEq, Repr

/-- The candidate loop of `LookupEventReportBackend`; `found` is the first
match with its availability, and a second match is ambiguous. -/
def lookupAmong (env : BuildEnv) (storageType : DataStorageType) :
    List String → List String → Option (RoutedBackend × Bool) → EventReportBackendRoute
  | [], _, none => .missing
  | [], _, some (backend, available) => if available then .resolved backend else .unavailable
  | name :: names, matched, found =>
    match env.eventReportBackend name with
    | none => lookupAmong env storageType names matched found
    | some (type, available) =>
      if type ≠ storageType || name ∈ matched then
        lookupAmong env storageType names matched found
      else if found.isSome then .ambiguous
      else lookupAmong env storageType names (name :: matched)
        (some (⟨name, type⟩, available))

def lookupEventReportBackend (env : BuildEnv) (storageType : DataStorageType) :
    EventReportBackendRoute :=
  if !isEventReportStorageType storageType then .missing
  else match env.eventReportStorageCandidates with
    | none => .missing
    | some names => lookupAmong env storageType names [] none

/-! ## The scan loop -/

def isOrphanWriting (cfg : Config) (mapLocationId : LocationId) (location : CacheLocation)
    (nowUs : Int) : Bool :=
  if mapLocationId = "" || location.id = "" || mapLocationId ≠ location.id ||
      location.status ≠ .writing || location.createTime ≤ 0 || nowUs < location.createTime then
    false
  else cfg.orphanWritingGracePeriodMs ≤ (nowUs - location.createTime) / 1000

/-- A location that a storage backend is asked about. -/
structure ServingProbe where
  key : CandidateKey
  location : CacheLocation

/-- One URI to probe: its storage, its storage type, itself and the index of
its location among the serving probes. -/
structure UriProbe where
  storageName : String
  storageType : DataStorageType
  uri : StandardUri
  servingProbeIndex : Nat

structure EventReportProbeEntry where
  key : CandidateKey
  location : CacheLocation
  backend : RoutedBackend

structure Scanned where
  candidates : Candidates := []
  servingProbes : List ServingProbe := []
  uriProbes : List UriProbe := []
  eventReportEntries : List EventReportProbeEntry := []

/-- One location of the page. -/
def Scanned.onLocation (cfg : Config) (env : BuildEnv) (s : Scanned) (blockKey : KeyType)
    (locationId : LocationId) (location : CacheLocation) : Scanned :=
  if locationId = "" || location.id = "" || locationId ≠ location.id then s
  else if isOrphanWriting cfg locationId location env.nowUs then
    if env.hasActiveCopyTarget blockKey locationId then s
    else { s with
      candidates := s.candidates.emplace (blockKey, locationId)
        { expectedLocationValue := location.toJsonString, reason := .orphanWriting } }
  else if location.status ≠ .serving || location.type = .unknown then s
  else if isEventReportStorageType location.type then
    if !cfg.eventReportCleanupEnabled then s
    else match lookupEventReportBackend env location.type with
      | .resolved backend =>
        { s with
          eventReportEntries := s.eventReportEntries ++ [⟨(blockKey, locationId), location, backend⟩] }
      | .missing | .ambiguous | .unavailable => s
  else
    let uris := (location.locationSpecs.map fun spec => StandardUri.parse spec.uri).filter
      fun uri => uri.valid && uri.hostname ≠ ""
    if uris.isEmpty then s
    else { s with
      servingProbes := s.servingProbes ++ [⟨(blockKey, locationId), location⟩]
      uriProbes := s.uriProbes ++
        uris.map fun uri => ⟨uri.hostname, location.type, uri, s.servingProbes.length⟩ }

/-- The locations of one key, unless its read failed. -/
def Scanned.onKey (cfg : Config) (env : BuildEnv) (s : Scanned) (blockKey : KeyType)
    (locations : CacheLocationMap) (result : ErrorCode) : Scanned :=
  if result ≠ .ok then s
  else locations.entries.foldl (fun s e => s.onLocation cfg env blockKey e.1 e.2) s

def scanBatch (cfg : Config) (env : BuildEnv) (batch : MaintenanceScanBatch) : Scanned :=
  (batch.keys.zip (batch.locations.zip batch.locationResults)).foldl
    (fun s row => s.onKey cfg env row.1 row.2.1 row.2.2) {}

/-! ## Probing in chunks -/

/-- `kMightExistProbeBatchSize` and `kEventReportProbeBatchSize`. -/
def probeBatchSize : Nat := 512

/-- The chunks of one batch of probes in turn: a chunk that throws ends the
batch, a chunk with the wrong number of answers is passed over, and the
others are read off pair by pair. `fuel` bounds the number of chunks. -/
def probeChunks {α β γ : Type} (ask : Nat → List α → Option (List β)) (read : α → β → Option γ) :
    Nat → Nat → List α → List γ
  | 0, _, _ => []
  | fuel + 1, offset, items =>
    if items.isEmpty then []
    else
      let chunk := items.take probeBatchSize
      match ask offset chunk with
      | none => []
      | some answers =>
        (if answers.length ≠ chunk.length then []
         else (chunk.zip answers).filterMap fun p => read p.1 p.2) ++
          probeChunks ask read fuel (offset + probeBatchSize) (items.drop probeBatchSize)

def Scanned.storages (s : Scanned) : List (String × DataStorageType) :=
  (s.uriProbes.map fun p => (p.storageName, p.storageType)).dedup

/-- The serving probes one storage reports missing. A storage that is not
registered, or is of another type, is not asked. -/
def Scanned.missingOn (s : Scanned) (env : BuildEnv) (storage : String × DataStorageType) :
    List Nat :=
  if env.storageType storage.1 ≠ some storage.2 then []
  else
    let probes := s.uriProbes.filter fun p => (p.storageName, p.storageType) = storage
    probeChunks (fun offset chunk => env.mightExist storage.1 storage.2 offset (chunk.map (·.uri)))
      (fun p exist => if exist then none else some p.servingProbeIndex)
      (probes.length + 1) 0 probes

def Scanned.missing (s : Scanned) (env : BuildEnv) : List Nat :=
  s.storages.flatMap (s.missingOn env)

def Scanned.eventReportTypes (s : Scanned) : List DataStorageType :=
  (s.eventReportEntries.map fun e => e.location.type).dedup

/-- The locations of one event-report storage type its backend gives up. -/
def Scanned.staleOn (s : Scanned) (env : BuildEnv) (instanceId : String) (type : DataStorageType) :
    List (EventReportProbeEntry × MaintenanceCleanupToken) :=
  let entries := s.eventReportEntries.filter fun e => e.location.type = type
  probeChunks
    (fun offset chunk => env.probe type offset (chunk.map fun e => probeOf instanceId e.location))
    (fun e result =>
      if result.decision = .deleteMetadata then some (e, result.token) else none)
    (entries.length + 1) 0 entries

def Scanned.stale (s : Scanned) (env : BuildEnv) (instanceId : String) :
    List (EventReportProbeEntry × MaintenanceCleanupToken) :=
  s.eventReportTypes.flatMap (s.staleOn env instanceId)

/-- All candidates: the orphans, what the event-report backends give up, and
the locations with a missing URI. -/
def Scanned.allCandidates (s : Scanned) (env : BuildEnv) (instanceId : String) : Candidates :=
  let stale := (s.stale env instanceId).foldl
    (fun cs p => cs.emplace p.1.key
      { expectedLocationValue := p.1.location.toJsonString
        reason := candidateReasonOf p.2.reason
        eventReport := some (p.1.backend, p.2) })
    s.candidates
  let missing := s.missing env
  (s.servingProbes.zipIdx.filter fun p => p.2 ∈ missing).foldl
    (fun cs p => cs.emplace p.1.key
      { expectedLocationValue := p.1.location.toJsonString, reason := .storageMissing })
    stale

/-! ## Selection -/

def candidateBefore (a b : CandidateKey × DeleteCandidate) : Bool :=
  let p := candidatePriority a.2.reason
  let q := candidatePriority b.2.reason
  p < q || (p = q && (a.1.1 < b.1.1 || (a.1.1 = b.1.1 && a.1.2 ≤ b.1.2)))

structure Selection where
  selected : Nat := 0
  executorTargets : OrdMap KeyType (List (LocationId × CacheLocation.Json)) := OrdMap.empty
  eventReportTargets : OrdMap KeyType (List EventReportMetadataDeleteTarget) := OrdMap.empty

/-- One candidate of the ordered list. The keys of `eventReportTargets` are
the source's `event_report_selected_keys`. -/
def Selection.onCandidate (cfg : Config) (pending : Finset PendingLocationKey)
    (instanceId : String) (s : Selection) (c : CandidateKey × DeleteCandidate) : Selection :=
  if ⟨instanceId, c.1.1, c.1.2⟩ ∈ pending then s
  else if cfg.scanBatchSize ≤ s.selected then s
  else if isEventReportReason c.2.reason then
    if s.eventReportTargets.find c.1.1 = none ∧
        cfg.eventReportActionBatchSize ≤ s.eventReportTargets.entries.length then s
    else match c.2.eventReport with
      | none => s
      | some (backend, token) =>
        { s with
          eventReportTargets := s.eventReportTargets.push c.1.1
            { locationId := c.1.2, expectedLocationValue := c.2.expectedLocationValue
              backendUniqueName := backend.uniqueName, storageType := backend.storageType
              cleanupToken := token }
          selected := s.selected + 1 }
  else
    { s with
      executorTargets := s.executorTargets.push c.1.1 (c.1.2, c.2.expectedLocationValue)
      selected := s.selected + 1 }

def select (cfg : Config) (pending : Finset PendingLocationKey) (instanceId : String)
    (candidates : Candidates) : Selection :=
  (candidates.insertionSort fun a b => candidateBefore a b = true).foldl
    (Selection.onCandidate cfg pending instanceId) {}

def Selection.actions (s : Selection) (instanceId : String) : ScanDeleteActions :=
  { executorRequest :=
      { instanceId, authoritativeRead := true
        blockKeys := s.executorTargets.entries.map (·.1)
        locationIds := s.executorTargets.entries.map fun e => e.2.map (·.1)
        expectedLocationValues := s.executorTargets.entries.map fun e => e.2.map (·.2) }
    eventReportRequest :=
      { instanceId
        blockKeys := s.eventReportTargets.entries.map (·.1)
        targets := s.eventReportTargets.entries.map (·.2) } }

def buildDeleteActions (cfg : Config) (env : BuildEnv) (pending : Finset PendingLocationKey)
    (instanceId : String) (batch : MaintenanceScanBatch) : ScanDeleteActions :=
  if instanceId = "" || batch.keys.length ≠ batch.locations.length ||
      batch.keys.length ≠ batch.locationResults.length || env.stopSeen then
    ({} : Selection).actions instanceId
  else
    (select cfg pending instanceId
      ((scanBatch cfg env batch).allCandidates env instanceId)).actions instanceId

end TairKvCache.GarbageCollector
