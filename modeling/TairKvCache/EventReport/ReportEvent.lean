import TairKvCache.EventReport.Backend
import TairKvCache.EventReport.DeltaFold

/-!
# `ReportEvent`

`CacheManager::ReportEvent` (`manager/cache_manager.cc`): one request of a
reporter, as one pass over its items and then, in this order, the heartbeat,
the merge of the added specs, the delete of the deleted names, the replace
call of a snapshot with its commit or abort, the host-down, and the closure
of the item results over the locations.

The request calls the event-report backend again and again, and other
callers work on the same reporter between any two of its calls. What they do
is a parameter (`Surroundings.others`), a list of backend calls for every
call of the request. The metadata calls are parameters too: they may answer
any codes, of any length, and change the metadata in any way.

`history` records the calls a request makes of its snapshot and of the
metadata; nothing reads it.

Left out: the setting of the cleanup callback, the scheduling of the cleanup
scans, and the log lines.
-/

namespace TairKvCache.EventReport

/-! ## Other callers -/

/-- `GenerateSnapshotVersionToken`: 32 hexadecimal digits. -/
abbrev SnapshotToken := { token : String // isValidSnapshotVersionToken token = true }

/-- What another caller can do to the entries of a reporter: one critical
section of a backend operation each. -/
inductive OtherCall where
  | register (accepting valid : Bool) (mediums : List String) (nowMs : Int)
  | ensureKnown (mediums : List String)
  | ensureCreated (accepting : Bool) (mediums : List String) (nowMs : Int)
  | unregister (retired : Bool)
  | hostDown (accepting : Bool)
  | unregisterIfGeneration (retired : Bool) (generation : Nat)
  | steadyHeartbeat (nowMs : Int)
  | lockedHeartbeat (accepting : Bool) (nowMs : Int)
  | setNodeUnavailable (nowMs : Int)
  | livenessCheck (nowMs freshNowMs heartbeatTimeoutMs cleanupGraceMs : Int)
  | beginDelta (accepting named : Bool) (token : String)
  | endDelta (version : String)
  | beginSnapshot (accepting named : Bool) (nowMs snapshotMinIntervalMs : Int) (token : String)
  | finishBeginSnapshot (accepting : Bool) (token : String)
  | commit (token : String) (nowMs : Int)
  | commitIfGeneration (accepting : Bool) (token : String) (generation : Nat) (nowMs : Int)
  | abort (named : Bool) (token : String)
  | createFence
  | clear
deriving DecidableEq, Repr

namespace OtherCall

/-- The snapshot version the call is about. -/
def token? : OtherCall → Option String
  | .beginSnapshot _ _ _ _ token | .finishBeginSnapshot _ token | .commit token _
  | .commitIfGeneration _ token _ _ | .abort _ token => some token
  | _ => none

def apply (r : Reporter) : OtherCall → Reporter
  | .register accepting valid mediums nowMs => (r.registerNode accepting valid mediums nowMs).2
  | .ensureKnown mediums => (r.ensureKnown mediums).getD r
  | .ensureCreated accepting mediums nowMs => (r.ensureCreated accepting mediums nowMs).2
  | .unregister retired => (r.unregisterNode retired).2
  | .hostDown accepting => (r.unregisterNodeForHostDown accepting).2
  | .unregisterIfGeneration retired generation =>
    (r.unregisterNodeIfGeneration retired generation).2
  | .steadyHeartbeat nowMs => (r.tryPublishSteadyHeartbeat nowMs).getD r
  | .lockedHeartbeat accepting nowMs => (r.heartbeatLocked accepting nowMs).2
  | .setNodeUnavailable nowMs => r.setNodeUnavailable nowMs
  | .livenessCheck nowMs freshNowMs heartbeatTimeoutMs cleanupGraceMs =>
    (r.livenessCheck nowMs freshNowMs heartbeatTimeoutMs cleanupGraceMs).1
  | .beginDelta accepting named token => (r.beginDeltaMutation accepting named token).2.1
  | .endDelta version => r.endDeltaMutation version
  | .beginSnapshot accepting named nowMs snapshotMinIntervalMs token =>
    (r.beginSnapshot accepting named nowMs snapshotMinIntervalMs token).2.1
  | .finishBeginSnapshot accepting token => (r.finishBeginSnapshot accepting token).2
  | .commit token nowMs => (r.commitSnapshotVersion token nowMs).2
  | .commitIfGeneration accepting token generation nowMs =>
    (r.commitSnapshotVersionIfGeneration accepting token generation nowMs).2
  | .abort named token => r.abortSnapshotVersion named token
  | .createFence => r.withFence
  | .clear => {}

end OtherCall

/-! ## First sections

Two operations look first whether the lifecycle has to change at all; `none`
when it has to and the operation goes on under the lifecycle lock. -/

namespace Reporter

def ensureKnownSection (r : Reporter) (accepting : Bool) (mediums : List String) :
    Option ErrorCode × Reporter :=
  if !accepting then (some .instanceNotExist, r)
  else match r.ensureKnown mediums with
    | some r' => (some .ok, r')
    | none => (none, r)

def steadyHeartbeatSection (r : Reporter) (accepting : Bool) (nowMs : Int) :
    Option ErrorCode × Reporter :=
  let r := r.withFence
  if !accepting then (some .instanceNotExist, r)
  else match r.tryPublishSteadyHeartbeat nowMs with
    | some r' => (some .ok, r')
    | none => (none, r)

end Reporter

/-! ## The request -/

structure BlockAddParams where
  blockKey : String
  medium : String
  specs : List LocationSpec
deriving DecidableEq, Repr

structure BlockDeleteParams where
  blockKey : String
  medium : String
  specNames : List String
deriving DecidableEq, Repr

structure SnapshotBlock where
  blockKey : String
  medium : String := ""
  specs : List LocationSpec
deriving DecidableEq, Repr

structure BlockSnapshotParams where
  medium : String
  blocks : List SnapshotBlock
deriving DecidableEq, Repr

/-- One item; the parameters of its type may be missing. A heartbeat's
status texts and a host-down's parameters are not read further. -/
inductive ReportEventItem where
  | nodeRegister (mediums : Option (List String))
  | heartbeat (present : Bool)
  | hostDown (present : Bool)
  | blockAdd (params : Option BlockAddParams)
  | blockDelete (params : Option BlockDeleteParams)
  | blockSnapshot (params : Option BlockSnapshotParams)
  | unspecified
deriving DecidableEq, Repr

namespace ReportEventItem

end ReportEventItem

/-- `storage_type`, an open enumeration. -/
inductive RequestedStorageType where
  | eventReportL1p5 | eventReportL2 | unspecified
  | other (value : Int)
deriving DecidableEq, Repr

structure ReportEventRequest where
  instanceId : String
  hostIpPort : String
  storageType : RequestedStorageType
  events : List ReportEventItem
deriving DecidableEq, Repr

def ReportEventRequest.reporterKey (req : ReportEventRequest) : ReporterSnapshotKey :=
  ⟨req.instanceId, req.hostIpPort⟩

/-! ## The response -/

/-- `ParseInt64`: decimal; values above the signed range keep their bits. -/
def parseInt64 (s : String) : Option KeyType :=
  match s.toList with
  | '-' :: digits =>
    ((StandardUri.parseBelow (2 ^ 64) digits).filter (· ≤ 2 ^ 63)).map fun n => -(n : Int)
  | digits =>
    (StandardUri.parseBelow (2 ^ 64) digits).map fun n =>
      if n < 2 ^ 63 then (n : Int) else (n : Int) - 2 ^ 64

/-- The spec loop of ADD and of a snapshot block: registered names, none
twice, valid URIs, and a total that fits. `total` runs on over the blocks of
a snapshot. -/
def validateSpecs (registered : List String) (seen : List String) (total : Nat) :
    List LocationSpec → Option (Nat × List ValidatedEventLocationSpec)
  | [] => some (total, [])
  | spec :: specs =>
    if spec.name ∉ registered ∨ spec.name ∈ seen then none
    else match validateEventLocationSpec spec with
      | none => none
      | some v =>
        if v.size > 2 ^ 64 - 1 - total then none
        else (validateSpecs registered (spec.name :: seen) (total + v.size) specs).map
          fun p => (p.1, v :: p.2)

structure ValidatedAdd where
  blockKey : KeyType
  medium : String
  specs : List ValidatedEventLocationSpec
deriving DecidableEq, Repr

def validateAdd (registered : List String) (params : BlockAddParams) : Option ValidatedAdd :=
  match parseInt64 params.blockKey with
  | none => none
  | some blockKey =>
    if !SnapshotUri.isValidLocationIdComponent params.medium || params.specs.isEmpty then none
    else (validateSpecs registered [] 0 params.specs).map fun p =>
      ⟨blockKey, params.medium, p.2⟩

def validateSpecNames (registered seen : List String) : List String → Bool
  | [] => true
  | name :: names =>
    !(name = "" || name ∉ registered || name ∈ seen) &&
      validateSpecNames registered (name :: seen) names

def validateDelete (registered : List String) (params : BlockDeleteParams) : Option KeyType :=
  match parseInt64 params.blockKey with
  | none => none
  | some blockKey =>
    if !SnapshotUri.isValidLocationIdComponent params.medium || params.specNames.isEmpty then none
    else if validateSpecNames registered [] params.specNames then some blockKey else none

/-- The medium of a snapshot block, its own or the snapshot's. -/
def SnapshotBlock.mediumIn (block : SnapshotBlock) (params : BlockSnapshotParams) : String :=
  if block.medium = "" then params.medium else block.medium

def validateBlocks (registered : List String) (params : BlockSnapshotParams)
    (seen : List (String × KeyType)) (total : Nat) :
    List SnapshotBlock → Option (List ValidatedAdd)
  | [] => some []
  | block :: blocks =>
    let medium := block.mediumIn params
    match parseInt64 block.blockKey with
    | none => none
    | some blockKey =>
      if !SnapshotUri.isValidLocationIdComponent medium || block.specs.isEmpty then none
      else if (medium, blockKey) ∈ seen then none
      else match validateSpecs registered [] total block.specs with
        | none => none
        | some (total, specs) =>
          (validateBlocks registered params ((medium, blockKey) :: seen) total blocks).map
            (⟨blockKey, medium, specs⟩ :: ·)

/-! ## Surroundings -/

/-- The searcher's three calls; the second argument is what the write lease
answers when the searcher asks for it. -/
structure SearcherCalls (σ : Type) where
  batchMergeLocationSpecs : σ → ErrorCode → List (KeyType × List AddTask) → List ErrorCode × σ
  batchDeleteLocationSpecs :
    σ → ErrorCode → List (KeyType × List DeleteTask) → List (List ErrorCode) × σ
  batchReplaceLocationSpecs :
    σ → ErrorCode → List (KeyType × List ReplaceTask) → List ErrorCode × σ

/-- Everything the request meets. The functions of a number are about the
request's calls of the backend, in order. -/
structure Surroundings (σ : Type) where
  /-- The type of the backend `LookupEventReportBackend` finds. -/
  backendType : Option DataStorageType
  hasSearcher : Bool := true
  /-- The spec names of the instance's registration. -/
  registeredSpecNames : Option (List String)
  snapshotMinIntervalMs : Int := 0
  accepting : Nat → Bool := fun _ => true
  nowMs : Nat → Int := fun _ => 0
  token : Nat → SnapshotToken
  others : Nat → List OtherCall := fun _ => []
  searcher : SearcherCalls σ
  /-- The tokens of this request are used by no other caller. -/
  fresh : ∀ m n, ∀ c ∈ others n, c.token? ≠ some (token m).1

/-! ## The state of a request -/

/-- The calls `history` records. -/
inductive RequestCall where
  /-- `BeginSnapshot` of the item answered `EC_OK`. -/
  | begun (index : Nat) (version : String)
  /-- `CommitSnapshotVersionIfGeneration` answered `EC_OK`. -/
  | committed (version : String)
  | aborted (version : String)
  | merged (tasks : List (KeyType × List AddTask)) (answer : List ErrorCode)
  | deleted (tasks : List (KeyType × List DeleteTask)) (answer : List (List ErrorCode))
  | replaced (tasks : List (KeyType × List ReplaceTask)) (answer : List ErrorCode)
deriving DecidableEq

structure LeaseInfo where
  snapshotVersion : String
  lifecycleGeneration : Nat
deriving DecidableEq, Repr

structure SnapshotReplaceEntry where
  locationId : LocationId
  specs : List LocationSpec
  eventIndex : Nat
deriving DecidableEq, Repr

def SnapshotReplaceEntry.toTask (type : DataStorageType) (e : SnapshotReplaceEntry) : ReplaceTask :=
  { locationId := "", internedLocationId := some e.locationId, type, status := .serving
    specs := e.specs }

structure SnapshotCommitTask where
  version : String
  eventIndex : Nat
deriving DecidableEq, Repr

structure RequestState (σ : Type) where
  reporter : Reporter
  calls : Nat := 0
  metadata : σ
  codes : ItemCodes := fun _ => .ok
  -- `DeltaMutationGuard`
  lease : Option LeaseInfo := none
  snapshotWaitFailure : Option ErrorCode := none
  lifecycleGeneration : Nat := 0
  createdGeneration : Bool := false
  deltaVersionValidated : Bool := false
  -- registration
  registrationPrepared : Bool := false
  registrationApplied : Bool := false
  registerEc : ErrorCode := .ok
  registerMediums : List String := []
  nodeEnsured : Bool := false
  ensuredMediums : List String := []
  -- what the items ask for
  heartbeats : List Nat := []
  hasHostDown : Bool := false
  fold : DeltaFold := {}
  snapshotToReplace : List (KeyType × List SnapshotReplaceEntry) := []
  snapshotCommitTask : Option SnapshotCommitTask := none
  retryAfterMs : Int := 0
  history : List RequestCall := []

section Request

variable {σ : Type} (env : Surroundings σ) (req : ReportEventRequest)

namespace RequestState

/-- One call of the backend, after what the others have done by then. -/
def call {α : Type} (st : RequestState σ) (f : Bool → Reporter → α × Reporter) :
    α × RequestState σ :=
  let out := f (env.accepting st.calls) ((env.others st.calls).foldl OtherCall.apply st.reporter)
  (out.1, { st with reporter := out.2, calls := st.calls + 1 })

def read {α : Type} (st : RequestState σ) (f : Bool → Reporter → α) : α × RequestState σ :=
  st.call env fun accepting r => (f accepting r, r)

def setCode (st : RequestState σ) (index : Nat) (ec : ErrorCode) : RequestState σ :=
  { st with codes := st.codes.set index ec }

def note (st : RequestState σ) (c : RequestCall) : RequestState σ :=
  { st with history := st.history ++ [c] }

/-- `AdoptLifecycleGeneration`. -/
def adopt (st : RequestState σ) (generation : Nat) : RequestState σ :=
  { st with lease := st.lease.map fun l => { l with lifecycleGeneration := generation } }

/-- `GetNodeGeneration`, adopted by the request and its guard. -/
def refreshGeneration (st : RequestState σ) : RequestState σ :=
  let (generation, st) := st.read env fun _ r => r.currentGeneration
  adopt { st with lifecycleGeneration := generation } generation

/-! ## Registration -/

/-- One round of `prepare_registration_items`: a REGISTER with a bad medium
fails, the mediums of the others are collected. -/
def prepareItem (st : RequestState σ) (p : ReportEventItem × Nat) : RequestState σ :=
  match p.1 with
  | .nodeRegister (some mediums) =>
    if validMediums mediums then
      { st with registerMediums := mergeMediums st.registerMediums mediums }
    else st.setCode p.2 .badargs
  | _ => st

/-- `prepare_registration_items`, at the first REGISTER. -/
def prepareRegistration (st : RequestState σ) : RequestState σ :=
  if st.registrationPrepared then st
  else req.events.zipIdx.foldl prepareItem { st with registrationPrepared := true }

def ensured (st : RequestState σ) (mediums : List String) : RequestState σ :=
  { st with nodeEnsured := true, ensuredMediums := st.ensuredMediums ++ mediums }

/-- The one `RegisterNode` of a request. -/
def applyRegistration (st : RequestState σ) : RequestState σ :=
  if st.registrationApplied then st
  else
    let (ec, st) := st.call env fun accepting r =>
      r.registerNode accepting (validReporter req.reporterKey && validMediums st.registerMediums)
        st.registerMediums (env.nowMs st.calls)
    let st := { st with registrationApplied := true, registerEc := ec }
    if ec = .ok then (st.ensured st.registerMediums).refreshGeneration env else st

def ensureNodeRegistered (st : RequestState σ) (mediums : List String) :
    ErrorCode × RequestState σ :=
  if !(validReporter req.reporterKey && validMediums mediums) then (.badargs, st)
  else
    let (known, st) := st.call env fun accepting r => r.ensureKnownSection accepting mediums
    match known with
    | some ec => (ec, st)
    | none => st.call env fun accepting r => r.ensureCreated accepting mediums (env.nowMs st.calls)

def ensureNodeMedium (st : RequestState σ) (medium : String) : ErrorCode × RequestState σ :=
  if medium ∈ st.ensuredMediums then (.ok, st)
  else
    let (ec, st) := st.ensureNodeRegistered env req [medium]
    (ec, if ec = .ok then st.ensured [medium] else st)

def ensureNodeMediums (st : RequestState σ) (mediums : List String) :
    ErrorCode × RequestState σ :=
  let missing := mediums.filter (· ∉ st.ensuredMediums)
  if st.nodeEnsured && missing.isEmpty then (.ok, st)
  else
    let (ec, st) := st.ensureNodeRegistered env req missing
    (ec, if ec = .ok then st.ensured missing else st)

/-! ## Deltas -/

/-- `DeltaMutationGuard::Acquire`, with what the items do with its answer. -/
def acquireDelta (st : RequestState σ) : Except ErrorCode String × RequestState σ :=
  match st.snapshotWaitFailure, st.lease with
  | some ec, _ => (.error ec, st)
  | none, some lease =>
    (.ok lease.snapshotVersion, { st with lifecycleGeneration := lease.lifecycleGeneration })
  | none, none =>
    let (out, st) := st.call env fun accepting r =>
      let out := r.beginDeltaMutation accepting (namedReporter req.reporterKey)
        (env.token st.calls).1
      ((out.1, out.2.2, decide ((r.snapshot.getD {}).committed = "")), out.2.1)
    let (ec, (version, generation), created) := out
    if ec = .ok then
      (.ok version,
        { st with
          lease := some ⟨version, generation⟩
          lifecycleGeneration := generation
          createdGeneration := st.createdGeneration || created })
    else
      (.error ec, if ec = .snapshotInProgress then { st with snapshotWaitFailure := some ec } else st)

/-- The way of a valid ADD or DELETE: record it under its location, make sure
of the node, enter the delta gate, and have its mutations, which may depend on
the version of the gate, or the code it fails with. -/
def onDelta (st : RequestState σ) (index : Nat) (blockKey : KeyType) (medium : String)
    (type : DataStorageType) (mutations : RequestState σ → String → ErrorCode × RequestState σ
      × List DeltaSpecMutation) : RequestState σ :=
  let (fold, position) :=
    st.fold.record blockKey (SnapshotUri.buildLocationId type medium req.hostIpPort) index
  let (ensureEc, st) := ensureNodeMedium env req { st with fold } medium
  if ensureEc ≠ .ok then st.setCode index ensureEc
  else match st.acquireDelta env req with
    | (.error ec, st) => st.setCode index ec
    | (.ok version, st) =>
      match mutations st version with
      | (ec, st, ms) =>
        if ec ≠ .ok then st.setCode index ec
        else { st with fold := st.fold.modify position (·.materialize index ms) }

/-- The mutations of an ADD: its specs with their versioned URIs. The version
is checked once per request. -/
def addMutations (specs : List ValidatedEventLocationSpec) (st : RequestState σ)
    (version : String) : ErrorCode × RequestState σ × List DeltaSpecMutation :=
  if !st.deltaVersionValidated && !isValidSnapshotVersionToken version then
    (.badargs, st, [])
  else
    let st := { st with deltaVersionValidated := true }
    match specs.mapM fun v => (v.addPrevalidatedSnapshotVersion version).map fun spec =>
        { isAdd := true, spec, size := v.size : DeltaSpecMutation } with
    | none => (.badargs, st, [])
    | some ms => (.ok, st, ms)

def deleteMutations (names : List String) (st : RequestState σ) (_version : String) :
    ErrorCode × RequestState σ × List DeltaSpecMutation :=
  (.ok, st, names.map fun name => { isAdd := false, spec := ⟨name, ""⟩ })

/-! ## Snapshots -/

/-- The first section of `BeginSnapshot`, which closes the write gate: its
code, the admitted generation and, if it is too early, the time to wait. -/
def closeGate (st : RequestState σ) : (ErrorCode × Nat × Int) × RequestState σ :=
  st.call env fun accepting r =>
    let nowMs := env.nowMs st.calls
    let out := r.beginSnapshot accepting (namedReporter req.reporterKey) nowMs
      env.snapshotMinIntervalMs (env.token st.calls).1
    ((out.1, out.2.2, env.snapshotMinIntervalMs - (nowMs - (r.snapshot.getD {}).lastCommitMs)),
      out.2.1)

/-- `BeginSnapshot`: the version and the admitted generation, or the code and
the time to wait. -/
def beginSnapshot (st : RequestState σ) :
    Except (ErrorCode × Int) (String × Nat) × RequestState σ :=
  let token := (env.token st.calls).1
  let (gate, st) := st.closeGate env req
  if gate.1 ≠ .ok then (.error (gate.1, gate.2.2), st)
  else
    let (ec, st) := st.call env fun accepting r => r.finishBeginSnapshot accepting token
    (if ec = .ok then .ok (token, gate.2.1) else .error (ec, 0), st)

/-- `AbortSnapshotVersion`. -/
def abortSnapshot (st : RequestState σ) (version : String) : RequestState σ :=
  let (_, st) := st.call env fun _ r =>
    ((), r.abortSnapshotVersion (namedReporter req.reporterKey) version)
  st.note (.aborted version)

/-- `snapshot_to_replace[block_key].push_back(entry)` on the ordered map. -/
def pushReplace : List (KeyType × List SnapshotReplaceEntry) → KeyType → SnapshotReplaceEntry →
    List (KeyType × List SnapshotReplaceEntry)
  | [], k, entry => [(k, [entry])]
  | (k', entries) :: rest, k, entry =>
    if k = k' then (k', entries ++ [entry]) :: rest
    else if k < k' then (k, [entry]) :: (k', entries) :: rest
    else (k', entries) :: pushReplace rest k entry

/-- The blocks with versioned URIs, or `none` if one of them refuses it. -/
def versionBlocks (type : DataStorageType) (index : Nat) (version : String)
    (blocks : List ValidatedAdd) : Option (List (KeyType × SnapshotReplaceEntry)) :=
  blocks.mapM fun block =>
    let specs? := block.specs.mapM fun v => v.addPrevalidatedSnapshotVersion version
    specs?.map fun specs =>
      (block.blockKey,
        ⟨SnapshotUri.buildLocationId type block.medium req.hostIpPort, specs, index⟩)

/-- A snapshot item with valid blocks. -/
def onSnapshot (st : RequestState σ) (index : Nat) (type : DataStorageType)
    (blocks : List ValidatedAdd) : RequestState σ :=
  let (ensureEc, st) := st.ensureNodeMediums env req (mergeMediums [] (blocks.map (·.medium)))
  if ensureEc ≠ .ok then st.setCode index ensureEc
  else match st.beginSnapshot env req with
    | (.error (ec, retryAfter), st) =>
      { st.setCode index ec with
        retryAfterMs := if ec = .snapshotRateLimited then retryAfter else st.retryAfterMs }
    | (.ok (version, generation), st) =>
      let st := { st with lifecycleGeneration := generation }.note (.begun index version)
      if !isValidSnapshotVersionToken version then
        (st.setCode index .badargs).abortSnapshot env req version
      else match versionBlocks req type index version blocks with
        | none => (st.setCode index .badargs).abortSnapshot env req version
        | some entries =>
          { st with
            snapshotToReplace :=
              entries.foldl (fun m e => pushReplace m e.1 e.2) st.snapshotToReplace
            snapshotCommitTask := st.snapshotCommitTask.or (some ⟨version, index⟩) }

/-! ## The items -/

def onItem (registered : List String) (type : DataStorageType) (st : RequestState σ)
    (index : Nat) : ReportEventItem → RequestState σ
  | .nodeRegister params =>
    let st := st.prepareRegistration req
    match params with
    | none => st.setCode index .badargs
    | some _ =>
      if st.codes index ≠ .ok then st
      else
        let st := st.applyRegistration env req
        st.setCode index st.registerEc
  | .heartbeat present =>
    if present then { st with heartbeats := st.heartbeats ++ [index] }
    else st.setCode index .badargs
  | .hostDown present =>
    if present then { st with hasHostDown := true } else st.setCode index .badargs
  | .blockAdd params =>
    match params.bind (validateAdd registered) with
    | none => st.setCode index .badargs
    | some add =>
      st.onDelta env req index add.blockKey add.medium type (addMutations add.specs)
  | .blockDelete params =>
    match params.bind fun p => (validateDelete registered p).map fun key => (key, p) with
    | none => st.setCode index .badargs
    | some (blockKey, p) =>
      st.onDelta env req index blockKey p.medium type (deleteMutations p.specNames)
  | .blockSnapshot params =>
    match params.bind fun p => validateBlocks registered p [] 0 p.blocks with
    | none => st.setCode index .badargs
    | some blocks => st.onSnapshot env req index type blocks
  | .unspecified => st.setCode index .badargs

def onItems (registered : List String) (type : DataStorageType) (st : RequestState σ) :
    RequestState σ :=
  req.events.zipIdx.foldl (fun st p => st.onItem env req registered type p.2 p.1) st

/-! ## After the items -/

/-- `OnHeartbeat`: the steady path first. -/
def onHeartbeat (st : RequestState σ) : ErrorCode × RequestState σ :=
  if !validReporter req.reporterKey then (.badargs, st)
  else
    let (steady, st) := st.call env fun accepting r =>
      r.steadyHeartbeatSection accepting (env.nowMs st.calls)
    match steady with
    | some ec => (ec, st)
    | none => st.call env fun accepting r => r.heartbeatLocked accepting (env.nowMs st.calls)

def heartbeatPhase (st : RequestState σ) : RequestState σ :=
  if st.heartbeats.isEmpty then st
  else
    let (ec, st) := st.onHeartbeat env req
    if ec = .ok then st.refreshGeneration env
    else { st with codes := st.heartbeats.foldl (fun codes i => codes.set i ec) st.codes }

def acquireWriteLease (st : RequestState σ) : ErrorCode × RequestState σ :=
  st.read env fun accepting r =>
    r.acquireLifecycleMutationLease accepting st.lifecycleGeneration

def itemNames (i : Nat) : List String :=
  match req.events[i]? with
  | some (.blockAdd (some p)) => p.specs.map (·.name)
  | some (.blockDelete (some p)) => p.specNames
  | _ => []

def addPhase (type : DataStorageType) (st : RequestState σ) : RequestState σ :=
  let tasks := st.fold.addTasks type
  if tasks.isEmpty then st
  else
    let (lease, st) := st.acquireWriteLease env
    let (answer, metadata) := env.searcher.batchMergeLocationSpecs st.metadata lease tasks
    { st with
      metadata
      codes := markAdds st.fold (itemNames req) tasks answer st.codes }.note (.merged tasks answer)

def deletePhase (st : RequestState σ) : RequestState σ :=
  let tasks := st.fold.deleteTasks
  if tasks.isEmpty then st
  else
    let (lease, st) := st.acquireWriteLease env
    let (answer, metadata) := env.searcher.batchDeleteLocationSpecs st.metadata lease tasks
    { st with
      metadata
      codes := markDeletes st.fold (itemNames req) tasks answer st.codes }.note
        (.deleted tasks answer)

def replaceTasks (type : DataStorageType) (st : RequestState σ) :
    List (KeyType × List ReplaceTask) :=
  st.snapshotToReplace.map fun p => (p.1, p.2.map (·.toTask type))

/-- A key that was not written fails the items of its blocks. -/
def markReplaces (entries : List (KeyType × List SnapshotReplaceEntry)) (answer : List ErrorCode)
    (codes : ItemCodes) : ItemCodes :=
  entries.zipIdx.foldl
    (fun codes p =>
      if keyCode answer p.2 = .ok then codes
      else p.1.2.foldl (fun codes e => codes.fail e.eventIndex (keyCode answer p.2)) codes)
    codes

def replacePhase (type : DataStorageType) (st : RequestState σ) : RequestState σ :=
  if st.snapshotToReplace.isEmpty then st
  else
    let (lease, st) := st.acquireWriteLease env
    let (answer, metadata) :=
      env.searcher.batchReplaceLocationSpecs st.metadata lease (st.replaceTasks type)
    { st with
      metadata
      codes := markReplaces st.snapshotToReplace answer st.codes }.note
        (.replaced (st.replaceTasks type) answer)

/-- Commit the snapshot, or abort it if a write or the commit failed. -/
def commitPhase (st : RequestState σ) : RequestState σ :=
  match st.snapshotCommitTask with
  | none => st
  | some task =>
    if st.codes task.eventIndex ≠ .ok then st.abortSnapshot env req task.version
    else
      let (ec, st) := st.call env fun accepting r =>
        r.commitSnapshotVersionIfGeneration accepting task.version st.lifecycleGeneration
          (env.nowMs st.calls)
      if ec = .ok then st.note (.committed task.version)
      else (st.setCode task.eventIndex ec).abortSnapshot env req task.version

def hostDownPhase (st : RequestState σ) : RequestState σ :=
  if !st.hasHostDown then st
  else
    let (ec, st) := st.call env fun accepting r => r.unregisterNodeForHostDown accepting
    if ec = .ok then st else st.setCode 0 ec

def closurePhase (st : RequestState σ) : RequestState σ :=
  { st with codes := closeLocations st.fold st.codes }

/-- The destructor of `DeltaMutationGuard`. -/
def endDelta (st : RequestState σ) : RequestState σ :=
  match st.lease with
  | none => st
  | some lease => (st.call env fun _ r => ((), r.endDeltaMutation lease.snapshotVersion)).2

/-- The request from its first item to the item results. -/
def process (registered : List String) (type : DataStorageType) (st : RequestState σ) :
    RequestState σ :=
  let st := st.onItems env req registered type
  let st := st.heartbeatPhase env req
  let st := st.addPhase env req type
  let st := st.deletePhase env req
  let st := st.replacePhase env type
  let st := st.commitPhase env req
  let st := st.hostDownPhase env
  st.closurePhase

end RequestState

open RequestState SnapshotUri

def requestedType : DataStorageType :=
  match req.storageType with
  | .eventReportL1p5 => .eventReportL1p5
  | .eventReportL2 => .eventReportL2
  | _ => .unknown

end Request

end TairKvCache.EventReport
