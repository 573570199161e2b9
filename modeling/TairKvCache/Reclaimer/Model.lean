import TairKvCache.Types
import TairKvCache.Lib.Machine
import TairKvCache.Lib.Owned

/-!
# Asynchronous deletes of the reclaimer

The accounting half of `manager/cache_reclaimer.cc`: `FilterLocID` picks the
locations of a batch to delete, `SubmitDelReq` hands them to the plan executor
and keeps a `DeleteHandler` for the answer, and `HandleDelRes` polls the
futures of the live handlers.

Beside the handlers the reclaimer keeps running totals, the `Totals` below.
The source's maps drop an entry as soon as it is zero and read a missing entry
as zero, so the maps are total functions here. All counters are `uint64_t`
that saturate in both directions.

The outside world enters through `FilterEnv` (what the searcher, the water
levels and the writer tables answer), `SubmitEnv` (the executor's answer and
the clock) and `PollEnv` (the state of each future when it is polled).
-/

namespace TairKvCache.Reclaimer

/-! ## Saturating counters -/

def maxU64 : Nat := 2 ^ 64 - 1

def saturatingSub (lhs rhs : Nat) : Nat := if rhs < lhs then lhs - rhs else 0

def saturatingAdd (lhs rhs : Nat) : Nat := if maxU64 - lhs < rhs then maxU64 else lhs + rhs

def getLocationBytes (loc : CacheLocation) : Nat :=
  loc.locationSpecs.foldl
    (fun total spec =>
      let (valid, size) := tryGetLocationSpecSize spec
      if valid then saturatingAdd total size else total) 0

/-- The indices of a `BytesByStorageType` array, in order. -/
def storageTypes : List DataStorageType :=
  [.unknown, .hf3fs, .mooncake, .tairMempool, .nfs, .vcnsHf3fs, .dummy, .eventReportL1p5,
    .eventReportL2, .tairMempoolSsd]

abbrev ByStorageType := DataStorageType → Nat

/-! ## State -/

/-- `CacheReclaimerAsyncDeleteConfig`. -/
structure AsyncDeleteConfig where
  inflightDeleteTimeoutMs : Nat := 60000
  pendingLocationLimitPerGroupType : Nat := 20000
  pendingBytesLimitPerGroupType : Nat := 1024 * 1024 * 1024 * 1024
  pendingDeleteHandlerLimit : Nat := 1024
  pendingBytesLimit : Nat := 4 * 1024 * 1024 * 1024 * 1024
  locationLimit_le : pendingLocationLimitPerGroupType ≤ maxU64 := by decide
  typeBytesLimit_le : pendingBytesLimitPerGroupType ≤ maxU64 := by decide
  handlerLimit_le : pendingDeleteHandlerLimit ≤ maxU64 := by decide
  bytesLimit_le : pendingBytesLimit ≤ maxU64 := by decide

structure DeleteHandler where
  insId : String
  insGr : String
  blkCount : Nat
  locCount : Nat
  pendingLocations : List PendingLocationKey
  bytesByType : ByStorageType
  locationCountsByType : ByStorageType
  predictedDeletedKeys : Nat
  creditDeadline : Int
  creditEnabled : Bool := true
  outcomeUnknownReported : Bool := false
  fut : Nat

structure PendingQuota where
  locationCount : Nat := 0
  bytes : Nat := 0
deriving DecidableEq, Repr

structure Totals where
  pendingLocations : Finset PendingLocationKey := ∅
  creditedDeleteBytes : String → ByStorageType := fun _ _ => 0
  predictedDeletedKeys : String → Nat := fun _ => 0
  pendingQuota : String → DataStorageType → PendingQuota := fun _ _ => {}
  pendingDeleteHandlerCount : Nat := 0
  pendingDeleteBytes : Nat := 0

structure Reclaimer where
  deleteHandlers : List DeleteHandler := []
  totals : Totals := {}

/-! ## Moving a handler in and out of the totals -/

/-- The types for which deleted bytes are credited before they are gone. -/
def isCreditedType (t : DataStorageType) : Bool := t ≠ .unknown && t ≠ .vcnsHf3fs

def Totals.addDeleteHandlerState (T : Totals) (h : DeleteHandler) : Totals where
  pendingLocations := h.pendingLocations.foldl (fun s k => insert k s) T.pendingLocations
  creditedDeleteBytes := fun g t =>
    if g = h.insGr ∧ isCreditedType t = true ∧ h.bytesByType t ≠ 0 then
      saturatingAdd (T.creditedDeleteBytes g t) (h.bytesByType t)
    else T.creditedDeleteBytes g t
  pendingQuota := fun g t =>
    if g = h.insGr ∧ ¬(h.locationCountsByType t = 0 ∧ h.bytesByType t = 0) then
      { locationCount :=
          saturatingAdd (T.pendingQuota g t).locationCount (h.locationCountsByType t)
        bytes := saturatingAdd (T.pendingQuota g t).bytes (h.bytesByType t) }
    else T.pendingQuota g t
  predictedDeletedKeys := fun g =>
    if g = h.insGr ∧ h.predictedDeletedKeys ≠ 0 then
      saturatingAdd (T.predictedDeletedKeys g) h.predictedDeletedKeys
    else T.predictedDeletedKeys g
  pendingDeleteHandlerCount := saturatingAdd T.pendingDeleteHandlerCount 1
  pendingDeleteBytes := (storageTypes.map h.bytesByType).foldl saturatingAdd T.pendingDeleteBytes

/-- `DisableCredit` on the totals. Every type is subtracted, the uncredited
ones too. -/
def Totals.disableCredit (T : Totals) (h : DeleteHandler) : Totals :=
  if h.creditEnabled = false then T
  else
    { T with
      creditedDeleteBytes := fun g t =>
        if g = h.insGr then saturatingSub (T.creditedDeleteBytes g t) (h.bytesByType t)
        else T.creditedDeleteBytes g t
      predictedDeletedKeys := fun g =>
        if g = h.insGr then saturatingSub (T.predictedDeletedKeys g) h.predictedDeletedKeys
        else T.predictedDeletedKeys g }

/-- `DisableCredit` on the handler. -/
def DeleteHandler.disableCredit (h : DeleteHandler) : DeleteHandler :=
  { h with creditEnabled := false }

/-- `ReleaseDeleteHandlerState`, after its `DisableCredit`. -/
def Totals.dropPending (T : Totals) (h : DeleteHandler) : Totals :=
  { T with
    pendingLocations := h.pendingLocations.foldl Finset.erase T.pendingLocations
    pendingQuota := fun g t =>
      if g = h.insGr ∧ ¬(h.locationCountsByType t = 0 ∧ h.bytesByType t = 0) then
        { locationCount :=
            saturatingSub (T.pendingQuota g t).locationCount (h.locationCountsByType t)
          bytes := saturatingSub (T.pendingQuota g t).bytes (h.bytesByType t) }
      else T.pendingQuota g t
    pendingDeleteHandlerCount := saturatingSub T.pendingDeleteHandlerCount 1
    pendingDeleteBytes :=
      (storageTypes.map h.bytesByType).foldl saturatingSub T.pendingDeleteBytes }

def Totals.releaseDeleteHandlerState (T : Totals) (h : DeleteHandler) : Totals :=
  (T.disableCredit h).dropPending h

/-! ## Choosing locations -/

/-- What `FilterLocID` asks the other components for. -/
structure FilterEnv where
  /-- `BatchGetLocation`; `none` without a searcher, or when it fails or
  answers another number of maps. -/
  locationMaps : Option (List CacheLocationMap)
  storageTypeWaterLevelExceed : Bool
  waterLevelExceedByType : DataStorageType → Bool
  coldStorages : List String
  /-- `HasActiveCopyTargetLocation`; false without a migration manager. -/
  hasActiveCopyTargetLocation : KeyType → LocationId → Bool
  /-- `HasLocationId` of the write sessions; `none` without their manager. -/
  hasLocationId : Option (LocationId → Bool)

section Filter

variable (cfg : AsyncDeleteConfig) (T : Totals) (insId insGr : String) (env : FilterEnv)

def isPendingLocation (blockKey : KeyType) (locationId : LocationId) : Bool :=
  (⟨insId, blockKey, locationId⟩ : PendingLocationKey) ∈ T.pendingLocations

def locOnColdStorage (loc : CacheLocation) : Bool :=
  match loc.locationSpecs with
  | [] => false
  | spec :: _ => (StandardUri.parse spec.uri).hostname ∈ env.coldStorages

def isOrphanedWriting (blockKey : KeyType) (loc : CacheLocation) : Bool :=
  loc.status = .writing && env.hasLocationId.any (fun has => !has loc.id) &&
    !env.hasActiveCopyTargetLocation blockKey loc.id

def coldLocationsCoverSpecs (blockKey : KeyType) (locMap : CacheLocationMap)
    (source : CacheLocation) : Bool :=
  !source.locationSpecs.isEmpty && source.locationSpecs.all fun spec =>
    locMap.entries.any fun entry =>
      entry.2.status = .serving && !isEventReportStorageType entry.2.type &&
        !isPendingLocation T insId blockKey entry.2.id && locOnColdStorage env entry.2 &&
        entry.2.locationSpecs.any (fun cold => cold.name = spec.name)

/-- `keep_cold_evict_hot` of one block: it has a serving copy on a cold storage
and one elsewhere. -/
def keepColdEvictHot (blockKey : KeyType) (locMap : CacheLocationMap) : Bool :=
  let serving := (locMap.entries.map Sigma.snd).filter fun loc =>
    !isEventReportStorageType loc.type && !isPendingLocation T insId blockKey loc.id &&
      loc.status = .serving
  !env.storageTypeWaterLevelExceed && !env.coldStorages.isEmpty &&
    serving.any (locOnColdStorage env) && serving.any (fun loc => !locOnColdStorage env loc)

def selectedByWaterLevel (blockKey : KeyType) (locMap : CacheLocationMap) (loc : CacheLocation) :
    Bool :=
  if env.storageTypeWaterLevelExceed then env.waterLevelExceedByType loc.type
  else if keepColdEvictHot T insId env blockKey locMap && loc.status = .serving then
    !locOnColdStorage env loc && coldLocationsCoverSpecs T insId env blockKey locMap loc
  else true

/-- The location may be deleted, as far as its owner, state and the water
levels are concerned. -/
def eligible (blockKey : KeyType) (locMap : CacheLocationMap) (loc : CacheLocation) : Bool :=
  !isEventReportStorageType loc.type && !isPendingLocation T insId blockKey loc.id &&
    (loc.status = .serving || isOrphanedWriting env blockKey loc) &&
    selectedByWaterLevel T insId env blockKey locMap loc

/-- The outputs of `FilterLocID`, with its `selected_total_bytes`. -/
structure Filtered where
  locIds : List (List LocationId) := []
  bytesByType : ByStorageType := fun _ => 0
  locationCountsByType : ByStorageType := fun _ => 0
  predictedDeletedKeys : Nat := 0
  selectedTotalBytes : Nat := 0

def locationLimitReached (F : Filtered) (type : DataStorageType) : Bool :=
  let limit := cfg.pendingLocationLimitPerGroupType
  let quota := T.pendingQuota insGr type
  limit ≤ quota.locationCount ||
    limit - min quota.locationCount limit ≤ F.locationCountsByType type

/-- `extra` more on top of `current` do not fit under the limit. -/
def exceedsLimit (limit current extra : Nat) : Bool :=
  limit ≤ current || limit - min current limit < extra

def limitReached (F : Filtered) (type : DataStorageType) (bytes : Nat) : Bool :=
  locationLimitReached cfg T insGr F type ||
    exceedsLimit cfg.pendingBytesLimitPerGroupType
      (saturatingAdd (T.pendingQuota insGr type).bytes (F.bytesByType type)) bytes ||
    exceedsLimit cfg.pendingBytesLimit
      (saturatingAdd T.pendingDeleteBytes F.selectedTotalBytes) bytes

def Filtered.take (F : Filtered) (type : DataStorageType) (bytes : Nat) : Filtered :=
  { F with
    locationCountsByType :=
      Function.update F.locationCountsByType type (saturatingAdd (F.locationCountsByType type) 1)
    bytesByType :=
      Function.update F.bytesByType type (saturatingAdd (F.bytesByType type) bytes)
    selectedTotalBytes := saturatingAdd F.selectedTotalBytes bytes }

/-- The inner loop over the locations of one block. -/
def filterBlock (blockKey : KeyType) (locMap : CacheLocationMap) :
    Filtered → List CacheLocation → Filtered × List LocationId
  | F, [] => (F, [])
  | F, loc :: locs =>
    let type := toBaseType loc.type
    let bytes := getLocationBytes loc
    if eligible T insId env blockKey locMap loc && !limitReached cfg T insGr F type bytes then
      let r := filterBlock blockKey locMap (F.take type bytes) locs
      (r.1, loc.id :: r.2)
    else filterBlock blockKey locMap F locs

def onBlock (F : Filtered) (block : KeyType × CacheLocationMap) : Filtered :=
  let r := filterBlock cfg T insId insGr env block.1 block.2 F (block.2.entries.map Sigma.snd)
  { r.1 with
    locIds := r.1.locIds ++ [r.2]
    predictedDeletedKeys :=
      -- deleting every location of a block removes its key
      if !r.2.isEmpty && r.2.length = block.2.entries.length then
        saturatingAdd r.1.predictedDeletedKeys 1
      else r.1.predictedDeletedKeys }

def filterLocID (batch : List KeyType) : Option Filtered :=
  if cfg.pendingDeleteHandlerLimit ≤ T.pendingDeleteHandlerCount ||
      cfg.pendingBytesLimit ≤ T.pendingDeleteBytes then
    some { locIds := List.replicate batch.length [] }
  else
    match env.locationMaps with
    | none => none
    | some maps =>
      if maps.length ≠ batch.length then none
      else some ((batch.zip maps).foldl (onBlock cfg T insId insGr env) {})

end Filter

/-! ## Submitting -/

/-- What `SubmitDelReq` reads from outside: `IsRunning() && !IsPaused()`, the
future of an accepted `SubmitAsync`, and the steady clock after it. -/
structure SubmitEnv where
  active : Bool
  submitAsync : Option Nat
  submittedAt : Int

/-- The loop that checks and collects the locations of a request; `none` when
one occurs twice or is pending already. -/
def collectPending (pending : Finset PendingLocationKey) :
    List PendingLocationKey → List PendingLocationKey → Option (List PendingLocationKey)
  | seen, [] => some seen
  | seen, k :: ks =>
    if k ∈ seen then none
    else if k ∈ pending then none
    else collectPending pending (seen ++ [k]) ks

def requestLocations (insId : String) (blockKeys : List KeyType)
    (locationIds : List (List LocationId)) : List PendingLocationKey :=
  (blockKeys.zip locationIds).flatMap fun b => b.2.map fun id => ⟨insId, b.1, id⟩

/-- One type of a request goes over its limits. -/
def typeLimitExceeded (cfg : AsyncDeleteConfig) (T : Totals) (insGr : String)
    (F : Filtered) (t : DataStorageType) : Bool :=
  let quota := T.pendingQuota insGr t
  !(F.locationCountsByType t = 0 && F.bytesByType t = 0) &&
    (exceedsLimit cfg.pendingLocationLimitPerGroupType quota.locationCount
        (F.locationCountsByType t) ||
      exceedsLimit cfg.pendingBytesLimitPerGroupType quota.bytes (F.bytesByType t))

def submitDelReq (cfg : AsyncDeleteConfig) (env : SubmitEnv) (insId insGr : String)
    (blockKeys : List KeyType) (F : Filtered) (delayUs : Int) (s : Reclaimer) : Reclaimer :=
  if env.active = false then s
  else if blockKeys.length ≠ F.locIds.length then s
  else
    match collectPending s.totals.pendingLocations [] (requestLocations insId blockKeys F.locIds) with
    | none => s
    | some pendingLocations =>
      let blkCount := (F.locIds.filter fun ids => !ids.isEmpty).foldl
        (fun n _ => saturatingAdd n 1) 0
      let locCount := (F.locIds.map List.length).foldl saturatingAdd 0
      let requestBytes := (storageTypes.map F.bytesByType).foldl saturatingAdd 0
      if blkCount = 0 || locCount = 0 then s
      else if cfg.pendingDeleteHandlerLimit ≤ s.totals.pendingDeleteHandlerCount then s
      else if storageTypes.any (typeLimitExceeded cfg s.totals insGr F) then s
      else if exceedsLimit cfg.pendingBytesLimit s.totals.pendingDeleteBytes requestBytes then s
      else
        match env.submitAsync with
        | none => s
        | some fut =>
          let handler : DeleteHandler :=
            { insId, insGr, blkCount, locCount, pendingLocations
              bytesByType := F.bytesByType
              locationCountsByType := F.locationCountsByType
              predictedDeletedKeys := F.predictedDeletedKeys
              creditDeadline :=
                env.submittedAt + max delayUs 0 + cfg.inflightDeleteTimeoutMs * 1000
              fut }
          { deleteHandlers := handler :: s.deleteHandlers
            totals := s.totals.addDeleteHandlerState handler }

/-! ## Polling -/

/-- What a handler's future answers: `valid()`, then `wait_for(0)`, then
`get()`. -/
inductive FutureAnswer where
  | invalid
  | ready (ec : ErrorCode)
  | threw
  | deferred
  | timeout
deriving DecidableEq, Repr

/-- The answers of the futures and the steady clock, as each handler's turn
finds them. -/
structure PollEnv where
  answer : Nat → FutureAnswer
  now : Nat → Int

/-- The body of the loop of `HandleDelRes`: the totals, and the handler unless
it is erased. -/
def handleOne (env : PollEnv) (T : Totals) (h : DeleteHandler) : Totals × Option DeleteHandler :=
  match env.answer h.fut with
  | .invalid | .threw | .deferred =>
    (T.disableCredit h, some { h.disableCredit with outcomeUnknownReported := true })
  | .ready _ => (T.releaseDeleteHandlerState h, none)
  | .timeout =>
    if h.creditEnabled && h.creditDeadline ≤ env.now h.fut then
      (T.disableCredit h, some h.disableCredit)
    else (T, some h)

/-- The loop of `HandleDelRes` between two handlers: those kept so far, and
those still to come. -/
structure Visit where
  totals : Totals
  kept : List DeleteHandler
  rest : List DeleteHandler

/-- The reclaimer as it stands in the middle of the loop. -/
def Visit.current (v : Visit) : Reclaimer where
  deleteHandlers := v.kept ++ v.rest
  totals := v.totals

def Visit.next (env : PollEnv) (v : Visit) : Visit :=
  match v.rest with
  | [] => v
  | h :: rest =>
    let r := handleOne env v.totals h
    { totals := r.1, kept := v.kept ++ r.2.toList, rest }

def visit (env : PollEnv) (s : Reclaimer) (n : Nat) : Visit :=
  (Visit.next env)^[n] { totals := s.totals, kept := [], rest := s.deleteHandlers }

def handleDelRes (env : PollEnv) (s : Reclaimer) : Reclaimer :=
  (visit env s s.deleteHandlers.length).current

/-! ## Runs -/

/-- One batch of `ReclaimByLRU`, from `FilterLocID` on. -/
structure ReclaimInput where
  insId : String
  insGr : String
  blockKeys : List KeyType
  delayUs : Int
  filter : FilterEnv
  submit : SubmitEnv

def reclaimByLRU (cfg : AsyncDeleteConfig) (i : ReclaimInput) (s : Reclaimer) : Reclaimer :=
  match filterLocID cfg s.totals i.insId i.insGr i.filter i.blockKeys with
  | none => s
  | some F => submitDelReq cfg i.submit i.insId i.insGr i.blockKeys F i.delayUs s

inductive Action where
  | reclaim (input : ReclaimInput)
  | handleDelRes (env : PollEnv)

def heldLocations (hs : List DeleteHandler) : List PendingLocationKey :=
  hs.flatMap DeleteHandler.pendingLocations

/-- The reclaimer's own thread takes one action after the other. A batch that
would take the pending set over the range of `size_t` is not a step: no
`std::set` has that many elements. -/
def machine (cfg : AsyncDeleteConfig) : Lib.Machine Reclaimer Action where
  init := fun s => s = {}
  step := fun s a =>
    match a with
    | .reclaim i =>
      let s' := reclaimByLRU cfg i s
      if (heldLocations s'.deleteHandlers).length ≤ maxU64 then some s' else none
    | .handleDelRes env => some (handleDelRes env s)

end TairKvCache.Reclaimer
