import TairKvCache.PyConnector.LocationQuery

/-!
# The scheduler side of the vLLM connector

`ConnectorScheduler` owns one ledger per tracked request: the block tables
vLLM has told it about, the water-mark of saved blocks and the two counters
of save sessions. Every engine step ends in `buildConnectorMeta`, which
absorbs the scheduling output, starts new save sessions on the http executor
and hands the worker what earlier sessions have brought.

A session runs on an executor thread (`startSaveKvcacheAsync`). The executor
drops exceptions, so a session that raises leaves no trace; one that does not
has put either a `SaveRequest` or a cancellation into the scheduler's queues.

The dictionary of ledgers is a function, and the executor's queue is kept per
request: sessions end in any order, so nothing depends on the order in which
they were submitted. A session carries its number within its request, which
the source does not have, so that runs can speak about single sessions; the
ledger's `settled` lists the numbers that `sent_saving_count` has counted.
-/

namespace TairKvCache.PyConnector

open Function

/-! ## Configuration -/

/-- A transferred `kv_cache_group`; `isState` for `StateGroupMeta`. -/
structure GroupMeta where
  groupIdx : Nat
  blockSize : Nat
  isState : Bool
deriving DecidableEq, Repr

structure SchedulerConfig where
  groupMetas : List GroupMeta
  managerBlockSize : Nat
  vllmBlockSize : Nat
  tpSize : Nat
  asyncGetCacheLocation : Bool
  locationQueryMaxAge : Nat
deriving DecidableEq, Repr

def specName (tpRank groupIdx : Nat) : String :=
  "tp" ++ toString tpRank ++ "_g" ++ toString groupIdx

/-! ## Instructions for the worker -/

structure SaveRequest where
  reqId : String
  targetLocations : List LocationDict
  managerBlockIdxes : List Nat
  writeSessionId : String
  allBlockIds : List (List Nat)
  session : Nat
deriving DecidableEq, Repr

structure LoadRequest where
  reqId : String
  managerBlockIdxes : List Nat
  needLoadLocations : List LocationDict
  allBlockIds : List (List Nat)
deriving DecidableEq, Repr

structure ConnectorMetadata where
  epoch : Nat
  toLoadRequests : List LoadRequest
  toSaveRequests : List SaveRequest
  /-- The request ids of the `FinishRequest`s. -/
  toFinishRequests : List String
deriving DecidableEq, Repr

/-! ## Scheduler state -/

structure RequestLedger where
  vllmRequest : Request
  blockIdsPerGroup : List (List Nat) := []
  hasSavedBlockNum : Nat := 0
  localMatchedTokenNum : Nat := 0
  remoteMatchedTokenNum : Nat := 0
  scheduledSavingCount : Nat := 0
  sentSavingCount : Nat := 0
  needReportAfterSavingFinished : Bool := false
  settled : List Nat := []
deriving DecidableEq, Repr

/-- A submitted `start_save_kvcache_async`. -/
structure SaveTask where
  tokenIds : List Nat
  targetSaveNum : Nat
  stateCompleteMask : List Bool
  session : Nat
deriving DecidableEq, Repr

structure ConnectorScheduler where
  epoch : Nat := 0
  locationQueryManager : LocationQueryManager := {}
  tracked : String → Option RequestLedger := fun _ => none
  waitingToLoadRequests : List LoadRequest := []
  waitingToSaveRequests : List SaveRequest := []
  waitingToFinishRequests : List String := []
  /-- Request and session number. -/
  canceledSaveRequestIds : List (String × Nat) := []
  loadFailed : String → Bool := fun _ => false
  loadAttempted : String → Bool := fun _ => false
  /-- The sessions that have not ended, by request. -/
  httpExecutor : String → List SaveTask := fun _ => []

namespace ConnectorScheduler

def setLedger (s : ConnectorScheduler) (reqId : String) (l : RequestLedger) : ConnectorScheduler :=
  { s with tracked := update s.tracked reqId (some l) }

/-! ## Hybrid state coverage -/

def stateGroupIdxs (cfg : SchedulerConfig) : List GroupMeta := cfg.groupMetas.filter (·.isState)

/-- The state of a block is complete when every state group's table has a
block other than the null block at the block's last token. -/
def stateCompleteMask (cfg : SchedulerConfig) (l : RequestLedger) (idxs : List Nat) : List Bool :=
  idxs.map fun mb => (stateGroupIdxs cfg).all fun g =>
    match ((l.blockIdsPerGroup[g.groupIdx]?).getD [])[((mb + 1) * cfg.managerBlockSize - 1) /
        g.blockSize]? with
    | none => false
    | some b => b ≠ 0

/-- The shortest table among the transferred groups. -/
def numAllocatedBlocks (cfg : SchedulerConfig) (l : RequestLedger) : Nat :=
  if l.blockIdsPerGroup = [] then 0
  else
    ((cfg.groupMetas.map fun g =>
      ((l.blockIdsPerGroup[g.groupIdx]?).getD []).length).min?).getD 0

/-! ## External matching -/

def locationCoversStates (cfg : SchedulerConfig) (location : LocationDict) : Bool :=
  (List.range cfg.tpSize).all fun rank => (stateGroupIdxs cfg).all fun g =>
    specName rank g.groupIdx ∈ location.locationSpecs.map (·.1)

def externalMatchBurned (s : ConnectorScheduler) (reqId : String) : Bool :=
  if s.loadFailed reqId then true
  else if !s.loadAttempted reqId then false
  else
    match s.tracked reqId with
    | none => false
    | some l => 1 < l.blockIdsPerGroup.length

/-- `while limit and num_computed_tokens + limit * mbs >= num_tokens`. -/
def capLimit (mbs numComputedTokens numTokens : Nat) : Nat → Nat
  | 0 => 0
  | limit + 1 =>
    if numTokens ≤ numComputedTokens + (limit + 1) * mbs then
      capLimit mbs numComputedTokens numTokens limit
    else limit + 1

def keepBlocks (cfg : SchedulerConfig) (locations : List LocationDict) : Nat :=
  locations.zipIdx.foldl (fun keep p => if locationCoversStates cfg p.1 then p.2 + 1 else keep) 0

def safeExternalPrefix (cfg : SchedulerConfig) (locations : List LocationDict)
    (numComputedTokens numTokens : Nat) : List LocationDict :=
  locations.take (keepBlocks cfg (locations.take
    (capLimit cfg.managerBlockSize numComputedTokens numTokens locations.length)))

/-- The ledger of the request, or a new one without a block table. -/
def ledgerOf (s : ConnectorScheduler) (request : Request) : RequestLedger :=
  (s.tracked request.requestId).getD { vllmRequest := request }

def noteMatch (l : RequestLedger) (numComputedTokens remote : Nat) : RequestLedger :=
  { l with localMatchedTokenNum := numComputedTokens, remoteMatchedTokenNum := remote }

def setQueryManager (s : ConnectorScheduler) (m : LocationQueryManager) : ConnectorScheduler :=
  { s with locationQueryManager := m }

def getNumNewMatchedTokens (cfg : SchedulerConfig) (s : ConnectorScheduler) (request : Request)
    (numComputedTokens : Nat) (env : AskEnv) : ConnectorScheduler × Option Nat × Bool :=
  if s.externalMatchBurned request.requestId then
    match s.tracked request.requestId with
    | none => (s, some 0, false)
    | some l => (s.setLedger request.requestId (noteMatch l numComputedTokens 0), some 0, false)
  else
    match s.locationQueryManager.getLocationsForQuery cfg.asyncGetCacheLocation
        cfg.locationQueryMaxAge request (numComputedTokens / cfg.managerBlockSize) env with
    | (m, none) => (s.setQueryManager m, none, false)
    | (m, some locations) =>
      let kept := safeExternalPrefix cfg locations numComputedTokens request.numTokens
      let count := kept.length * cfg.managerBlockSize
      (((s.setQueryManager (m.storeResult request.requestId kept)).setLedger request.requestId
          (noteMatch (s.ledgerOf request) numComputedTokens count)),
        some count, decide (0 < count))

/-! ## Allocation -/

def setTable (l : RequestLedger) (blocks : List (List Nat)) : RequestLedger :=
  { l with blockIdsPerGroup := blocks }

/-- Blocks were allocated for an external hit of `locations` after
`computedBlocks` blocks. -/
def shipLoad (s : ConnectorScheduler) (request : Request) (l : RequestLedger)
    (locations : List LocationDict) (computedBlocks : Nat) : ConnectorScheduler :=
  { s.setLedger request.requestId
      { l with hasSavedBlockNum := computedBlocks + locations.length } with
    waitingToLoadRequests := s.waitingToLoadRequests ++
      [⟨request.requestId, List.range' computedBlocks locations.length, locations,
        l.blockIdsPerGroup⟩] }

def attemptLoad (s : ConnectorScheduler) (reqId : String) : ConnectorScheduler :=
  { s with loadAttempted := update s.loadAttempted reqId true }

def updateStateAfterAlloc (s : ConnectorScheduler) (request : Request)
    (blocks : List (List Nat)) (numExternalTokens : Nat) : Except PyError ConnectorScheduler :=
  let l := setTable (s.ledgerOf request) blocks
  let s' := s.setLedger request.requestId l
  if numExternalTokens = 0 then .ok s'
  else
    match s.locationQueryManager.consumeLocations request.requestId with
    | (_, none) => .error .runtimeError
    | (m, some (locations, computedBlocks)) =>
      let s'' := (s'.setQueryManager m).attemptLoad request.requestId
      if locations = [] then .ok s'' else .ok (s''.shipLoad request l locations computedBlocks)

def hasInvalidBlock (l : RequestLedger) (invalidBlockIds : List Nat) : Bool :=
  l.blockIdsPerGroup.any fun g => g.any (· ∈ invalidBlockIds)

/-- One invalid block in a request's table marks the request. -/
def updateConnectorOutput (s : ConnectorScheduler) (invalidBlockIds : List Nat) :
    ConnectorScheduler :=
  { s with loadFailed := fun reqId => s.loadFailed reqId ||
      ((s.tracked reqId).map (hasInvalidBlock · invalidBlockIds)).getD false }

/-! ## Building the metadata of a step -/

structure CachedReq where
  reqId : String
  resumed : Bool
  newBlockIds : Option (List (List Nat))
deriving DecidableEq, Repr

structure SchedulerOutput where
  scheduledNewReqs : List (String × List (List Nat))
  scheduledCachedReqs : List CachedReq
deriving DecidableEq, Repr

/-- `group_ids.extend(new_ids)` along `zip`. -/
def extendTables : List (List Nat) → List (List Nat) → List (List Nat)
  | t :: ts, n :: ns => (t ++ n) :: extendTables ts ns
  | ts, [] => ts
  | [], _ :: _ => []

def ingestNew (s : ConnectorScheduler) (p : String × List (List Nat)) : ConnectorScheduler :=
  match s.tracked p.1 with
  | none => s
  | some l => s.setLedger p.1 (setTable l p.2)

def ingestCached (s : ConnectorScheduler) (c : CachedReq) : ConnectorScheduler :=
  match s.tracked c.reqId with
  | none => s
  | some l =>
    match c.newBlockIds with
    | none => s
    | some new =>
      if c.resumed then s.setLedger c.reqId (setTable l new)
      else s.setLedger c.reqId (setTable l (extendTables l.blockIdsPerGroup new))

def ingestScheduledReqs (s : ConnectorScheduler) (out : SchedulerOutput) : ConnectorScheduler :=
  out.scheduledCachedReqs.foldl ingestCached (out.scheduledNewReqs.foldl ingestNew s)

def targetSaveNum (cfg : SchedulerConfig) (l : RequestLedger) : Nat :=
  min l.vllmRequest.allTokenIds.length (numAllocatedBlocks cfg l * cfg.vllmBlockSize) /
    cfg.managerBlockSize

/-- The session that a step starts for the request, if its prefix has grown
by a block. -/
def newTask (cfg : SchedulerConfig) (l : RequestLedger) : List SaveTask :=
  if l.hasSavedBlockNum < targetSaveNum cfg l then
    [{ tokenIds := l.vllmRequest.allTokenIds.take (targetSaveNum cfg l * cfg.managerBlockSize)
       targetSaveNum := targetSaveNum cfg l
       stateCompleteMask := stateCompleteMask cfg l (List.range (targetSaveNum cfg l))
       session := l.scheduledSavingCount }]
  else []

def dispatched (cfg : SchedulerConfig) (l : RequestLedger) : RequestLedger :=
  { l with
    scheduledSavingCount := l.scheduledSavingCount + (newTask cfg l).length
    hasSavedBlockNum := targetSaveNum cfg l }

def dispatchIncrementalSaves (cfg : SchedulerConfig) (s : ConnectorScheduler) :
    ConnectorScheduler :=
  { s with
    tracked := fun reqId => (s.tracked reqId).map (dispatched cfg)
    httpExecutor := fun reqId =>
      s.httpExecutor reqId ++ ((s.tracked reqId).map (newTask cfg)).getD [] }

def retireRequest (s : ConnectorScheduler) (reqId : String) : ConnectorScheduler :=
  { s with
    waitingToFinishRequests := s.waitingToFinishRequests ++ [reqId]
    tracked := update s.tracked reqId none
    loadFailed := update s.loadFailed reqId false
    loadAttempted := update s.loadAttempted reqId false
    locationQueryManager := s.locationQueryManager.invalidate reqId }

def counted (l : RequestLedger) (session : Nat) : RequestLedger :=
  { l with sentSavingCount := l.sentSavingCount + 1, settled := l.settled ++ [session] }

/-- Count one session, and retire a finished request with its last one. -/
def settle (s : ConnectorScheduler) (reqId : String) (l : RequestLedger) (session : Nat) :
    ConnectorScheduler :=
  if l.needReportAfterSavingFinished ∧
      l.scheduledSavingCount = (counted l session).sentSavingCount then
    s.retireRequest reqId
  else s.setLedger reqId (counted l session)

/-- One turn of the loop of `_collect_save_instructions`. -/
def handOver (p : ConnectorScheduler × List SaveRequest) (r : SaveRequest) :
    ConnectorScheduler × List SaveRequest :=
  match p.1.tracked r.reqId with
  | none => p
  | some l =>
    (p.1.settle r.reqId l r.session, p.2 ++ [{ r with allBlockIds := l.blockIdsPerGroup }])

/-- One turn of the loop of `handle_canceled_save_req`. -/
def settleCanceled (s : ConnectorScheduler) (c : String × Nat) : ConnectorScheduler :=
  match s.tracked c.1 with
  | none => s
  | some l => s.settle c.1 l c.2

def takeSaves (s : ConnectorScheduler) : ConnectorScheduler :=
  { s with waitingToSaveRequests := [] }

def takeCanceled (s : ConnectorScheduler) : ConnectorScheduler :=
  { s with canceledSaveRequestIds := [] }

def collectSaveInstructions (s : ConnectorScheduler) : ConnectorScheduler × List SaveRequest :=
  let p := s.waitingToSaveRequests.foldl handOver (s.takeSaves, [])
  (p.1.canceledSaveRequestIds.foldl settleCanceled p.1.takeCanceled, p.2)

def flush (s : ConnectorScheduler) : ConnectorScheduler :=
  { s with epoch := s.epoch + 1, waitingToLoadRequests := [], waitingToFinishRequests := [] }

def buildConnectorMeta (cfg : SchedulerConfig) (s : ConnectorScheduler) (out : SchedulerOutput) :
    ConnectorScheduler × ConnectorMetadata :=
  let s' := (s.ingestScheduledReqs out).dispatchIncrementalSaves cfg
  let p := s'.collectSaveInstructions
  (p.1.flush, ⟨s.epoch, s'.waitingToLoadRequests, p.2, p.1.waitingToFinishRequests⟩)

/-! ## Finishing a request -/

/-- The first component of the answer: vLLM keeps the blocks until the worker
reports the request. -/
def finishRequest (s : ConnectorScheduler) (reqId : String) : ConnectorScheduler × Bool :=
  match s.tracked reqId with
  | none =>
    (s.setQueryManager (s.locationQueryManager.invalidate reqId), false)
  | some l =>
    if l.scheduledSavingCount = l.sentSavingCount then (s.retireRequest reqId, true)
    else (s.setLedger reqId { l with needReportAfterSavingFinished := true }, true)

end ConnectorScheduler

/-! ## One save session on the executor -/

inductive Field (α : Type)
  | absent
  | null
  | value (a : α)
deriving DecidableEq, Repr

structure BoolMasks where
  values : Field (List Bool)
deriving DecidableEq, Repr

structure BlockMask where
  offset : Field Nat
  boolMasks : Field BoolMasks
deriving DecidableEq, Repr

structure StartWriteResponse where
  locations : Field (List LocationDict)
  writeSessionId : Field String
  blockMask : Field BlockMask
deriving DecidableEq, Repr

/-- What a session meets: `start_write_cache` raises or answers, and the send
to the coordinator raises or not. -/
structure SessionOutcome where
  answer : Option StartWriteResponse
  sendRaises : Bool
deriving DecidableEq, Repr

/-- `response[name]`. -/
def Field.required {α : Type} : Field α → Except PyError (Option α)
  | .absent => .error .keyError
  | .null => .ok none
  | .value a => .ok (some a)

/-- The summary of the mask that is logged; it only matters that it may
raise. `response.get("block_mask") or {}` lets a null mask pass. -/
def logBlockMask : Field BlockMask → Except PyError Unit
  | .absent => .ok ()
  | .null => .ok ()
  | .value mask =>
    match mask.boolMasks with
    | .absent => .ok ()
    | .null => .error .attributeError
    | .value masks =>
      match masks.values with
      | .null => .error .typeError
      | _ => .ok ()

def unsavedIdxs (values : List Bool) : List Nat :=
  values.zipIdx.filterMap fun p => if p.1 then none else some p.2

def parseBlockMaskToSaveIndices (blockMask : Field BlockMask) (targetSaveNum : Nat) :
    Except PyError (List Nat) :=
  match blockMask with
  | .absent => .ok []
  | .null => .error .typeError
  | .value mask =>
    match mask.offset with
    | .value offset => .ok (List.range' offset (targetSaveNum - offset))
    | .null => .error .typeError
    | .absent =>
      match mask.boolMasks with
      | .absent => .ok []
      | .null => .error .attributeError
      | .value masks =>
        match masks.values with
        | .absent => .ok []
        | .null => .error .typeError
        | .value values => .ok (unsavedIdxs values)

/-- How a session that did not raise has settled. -/
inductive Settlement
  | canceled
  | toSave (start : SendBlockStartEvent) (request : SaveRequest)
deriving DecidableEq, Repr

def startSaveKvcacheAsync (reqId : String) (task : SaveTask) (outcome : SessionOutcome) :
    Except PyError Settlement :=
  match outcome.answer with
  | none => .ok .canceled
  | some response => do
      let locations ← response.locations.required
      let writeSessionId ← response.writeSessionId.required
      logBlockMask response.blockMask
      -- `write_session_id[:8]` and `len(locations)` of the log line
      let some sessionId := writeSessionId | .error .typeError
      let some locs := locations | .error .typeError
      if locs = [] then return .canceled
      let idxs ← parseBlockMaskToSaveIndices response.blockMask task.targetSaveNum
      if outcome.sendRaises then .error .runtimeError
      else
        return .toSave ⟨reqId, sessionId, locs⟩ ⟨reqId, locs, idxs, sessionId, [], task.session⟩

variable (s : ConnectorScheduler)

namespace ConnectorScheduler

/-- What a settled session leaves in the queues. -/
def settlement (s : ConnectorScheduler) (reqId : String) (session : Nat) :
    Settlement → ConnectorScheduler
  | .canceled =>
    { s with canceledSaveRequestIds := s.canceledSaveRequestIds ++ [(reqId, session)] }
  | .toSave _ request =>
    { s with waitingToSaveRequests := s.waitingToSaveRequests ++ [request] }

def endTask (s : ConnectorScheduler) (reqId : String) (task : SaveTask) : ConnectorScheduler :=
  { s with
    httpExecutor := update s.httpExecutor reqId ((s.httpExecutor reqId).erase task) }

/-! ## The ledgers after an update -/

@[simp] theorem tracked_setLedger (reqId : String) (l : RequestLedger) :
    (s.setLedger reqId l).tracked = update s.tracked reqId (some l) := rfl

@[simp] theorem tracked_retireRequest (reqId : String) :
    (s.retireRequest reqId).tracked = update s.tracked reqId none := rfl

end ConnectorScheduler

end TairKvCache.PyConnector
