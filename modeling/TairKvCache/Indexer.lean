import TairKvCache.Manager
import TairKvCache.Lib.Batches

/-!
# The metadata indexer's read-modify-write

`MetaIndexer` (`meta/meta_indexer.cc`): requests over many keys are split into
batches of whole mutex shards (`makeBatches`), and each batch runs under its
shards' locks: read every key, let the caller's modifier decide, then dispatch
one upsert and one delete sub-batch and adjust `key_count_`.

The two public forms differ in what the modifier sees. `ReadModifyWriteBlock`
shows it the ids stored under a key, `ReadModifyWriteLocation` the named
locations themselves. Both end in a list of `Decision`s and share the write
phase (`write`). A modifier also captures values for its caller, the sizes the
storage usage is later adjusted by; `π` is the type of what it captures.

The per-key result codes are keyed by the position of the key in the request,
as in the source's `rmw_result.error_codes[global_index]`. Latency metrics and
logs are left out.
-/

namespace TairKvCache

open Lib

/-! ## Configuration and state -/

/-- `shardOf` is the mutex shard of a key (`GetMutexShardIndex`). -/
structure IndexerConfig where
  maxKeyCount : Nat
  batchKeySize : Nat
  shardNum : Nat
  shardOf : KeyType → Fin shardNum

/-- `usage` is indexed by the base type (`StorageUsageData`). -/
structure Indexer where
  config : IndexerConfig
  manager : Manager
  keyCount : Int := 0
  usage : DataStorageType → Nat := fun _ => 0

/-- One key of a request: its position, and the locations it names. -/
structure Target where
  index : Nat
  key : KeyType
  ids : List LocationId := []
deriving DecidableEq

def IndexerConfig.makeBatches (cfg : IndexerConfig) (keys : List KeyType) : List (List Nat) :=
  batches (fun i => cfg.shardOf (keys.getD i 0)) cfg.shardNum cfg.batchKeySize keys.length

def IndexerConfig.targetBatches (cfg : IndexerConfig) (ts : List Target) :
    List (List Target) :=
  (cfg.makeBatches (ts.map (·.key))).map fun b => b.filterMap (ts[·]?)

structure BatchFaults where
  preSync : Bool := true
  postSync : Bool := true
  refresh : WriteFaults := {}
  read : Nat → Nat → Option FaultCode := fun _ _ => none
  probe : Nat → Option FaultCode := fun _ => none
  upsert : WriteFaults := {}
  delete : WriteFaults := {}

/-! ## Decisions and outcomes -/

/-- What one key of a batch asks the backend for. -/
inductive Intent where
  | settled
  | upsert (locations : CacheLocationMap) (properties : PropertyMap) (isNew : Bool)
  | delete (ids : List LocationId)

/-- `codes` are the per-location codes, final except that a successful one
still takes the code of the key's write. `captured` is `none` when the
modifier was not called. -/
structure Decision (π : Type) where
  index : Nat
  key : KeyType
  intent : Intent
  codes : List ErrorCode
  failed : Bool
  captured : Option π

structure Outcome (π : Type) where
  codes : List ErrorCode
  failed : Bool
  captured : Option π

structure RmwUpsert where
  index : Nat
  item : UpsertItem
  isNew : Bool

structure RmwDelete where
  index : Nat
  item : DeleteItem

namespace Decision

variable {π : Type} (d : Decision π)

def upsert? : Option RmwUpsert :=
  match d.intent with
  | .upsert locs props isNew => some ⟨d.index, ⟨d.key, locs, props⟩, isNew⟩
  | _ => none

def delete? : Option RmwDelete :=
  match d.intent with
  | .delete ids => some ⟨d.index, ⟨d.key, ids⟩⟩
  | _ => none

/-- A location that passed takes the code of its key's write. -/
def finish (rmwEc : ErrorCode) (synced : Bool) : Outcome π :=
  { codes := d.codes.map fun ec => if ec = .ok then rmwEc else ec
    failed := d.failed || rmwEc ≠ .ok || (d.delete?.isSome && !synced)
    captured := d.captured }

end Decision

/-! ## The write phase -/

inductive DeleteMode where
  | wholeKey | targets | maintenance
deriving DecidableEq

def adjustKeyCountMeta (count delta : Int) : Int :=
  if 0 ≤ delta then count + delta else max (count + delta) 0

namespace Indexer

/-- `ExecuteRmwUpsert`: the codes, and the number of keys created. At capacity
either everything is refused or only the new keys are. -/
def executeRmwUpsert (ix : Indexer) (f : WriteFaults) (preserveExisting : Bool)
    (ups : List RmwUpsert) : Manager × List ErrorCode × Nat :=
  let newKeys := ((ups.filter (·.isNew)).map (·.item.key)).eraseDups
  let r : Manager × List ErrorCode :=
    if ups.isEmpty then (ix.manager, [])
    else if ix.config.maxKeyCount < newKeys.length + ix.keyCount.toNat then
      if preserveExisting then
        let existing := ups.filter (!·.isNew)
        let r := ix.manager.upsert f (existing.map (·.item))
        (r.1, ups.map fun u => labelled .nospc ((existing.map (·.index)).zip r.2) u.index)
      else (ix.manager, ups.map fun _ => .nospc)
    else ix.manager.upsert f (ups.map (·.item))
  (r.1, r.2, (((ups.zip r.2).filter fun p => p.1.isNew ∧ p.2 = .ok).map
    (·.1.item.key)).eraseDups.length)

/-- `ExecuteRmwDelete`: the codes, and the number of keys removed. -/
def executeRmwDelete (m : Manager) (f : WriteFaults) (mode : DeleteMode)
    (items : List DeleteItem) : Manager × List ErrorCode × Nat :=
  if items.isEmpty then (m, [], 0)
  else match mode with
    | .wholeKey =>
      let r := m.delete f (items.map (·.key))
      (r.1, r.2, r.2.countP (· = .ok))
    | .targets => m.deleteLocations f items
    | .maintenance => m.deleteLocationsForMaintenance f items

section

variable {π : Type} (ix : Indexer) (env : BatchFaults) (mode : DeleteMode)
  (preserveExisting : Bool) (ds : List (Decision π))

def upsertPhase : Manager × List ErrorCode × Nat :=
  ix.executeRmwUpsert env.upsert preserveExisting (ds.filterMap Decision.upsert?)

def deletePhase : Manager × List ErrorCode × Nat :=
  executeRmwDelete (ix.upsertPhase env preserveExisting ds).1 env.delete mode
    ((ds.filterMap Decision.delete?).map (·.item))

/-- `rmw_result.error_codes[index]`: `EC_OK` for a key that was not written. -/
def rmwCode (index : Nat) : ErrorCode :=
  labelled .ok
    (((ds.filterMap Decision.upsert?).map (·.index)).zip (ix.upsertPhase env preserveExisting ds).2.1
      ++ ((ds.filterMap Decision.delete?).map (·.index)).zip
        (ix.deletePhase env mode preserveExisting ds).2.1) index

/-- The upsert sub-batch first, then the delete sub-batch. -/
def write (adjustReclaimed : Bool) : Indexer × List (Nat × Outcome π) :=
  let u := ix.upsertPhase env preserveExisting ds
  let d := ix.deletePhase env mode preserveExisting ds
  let delta : Int := u.2.2 - (if adjustReclaimed then d.2.2 else 0)
  ({ ix with manager := d.1, keyCount := adjustKeyCountMeta ix.keyCount delta },
    ds.map fun x => (x.index, x.finish (ix.rmwCode env mode preserveExisting ds x.index)
      (mode ≠ .maintenance || env.postSync)))

end

end Indexer

/-- The aggregate code of a request from the keys that failed. -/
def aggregateEc {π : Type} (outs : List (Outcome π)) : ErrorCode :=
  if outs.isEmpty then .ok
  else if outs.all (·.failed) then .error
  else if outs.any (·.failed) then .partialOk
  else .ok

/-- Run the batches of a request one after another. -/
def runBatches {π : Type}
    (step : Indexer → BatchFaults → List Target → Indexer × List (Nat × Outcome π))
    (env : Nat → BatchFaults) (ix : Indexer) (ts : List Target) :
    Indexer × List (Nat × Outcome π) :=
  let r := runSlots (fun ix (p : List Target × Nat) => step ix (env p.2) p.1) ix
    (ix.config.targetBatches ts).zipIdx
  (r.1, r.2.flatten)

/-! ## `ReadModifyWriteBlock` -/

structure BlockModified (π : Type) where
  action : ModifierAction
  ec : ErrorCode
  properties : PropertyMap := ∅
  locations : CacheLocationMap := ∅
  captured : π

/-- The modifier of a block: position, code of the read, ids stored. -/
abbrev BlockModifier (π : Type) := Nat → ErrorCode → List LocationId → BlockModified π

def blockIntent {π : Type} (getEc : ErrorCode) (md : BlockModified π) : Intent :=
  match md.action with
  | .ok =>
    if getEc ≠ .ok ∧ getEc ≠ .noent then .settled
    else .upsert md.locations md.properties (getEc = .noent)
  | .delete => if md.ec = .ok then .delete [] else .settled
  | .skip | .fail => .settled

def blockCode {π : Type} (getEc : ErrorCode) (md : BlockModified π) : ErrorCode :=
  match md.action with
  | .ok => if getEc ≠ .ok ∧ getEc ≠ .noent then getEc else .ok
  | .delete | .skip | .fail => md.ec

def decideBlock {π : Type} (modifier : BlockModifier π) (t : Target)
    (read : ErrorCode × List LocationId) : Decision π :=
  let md := modifier t.index read.1 read.2
  { index := t.index
    key := t.key
    intent := blockIntent read.1 md
    codes := [blockCode read.1 md]
    failed := blockCode read.1 md ≠ .ok
    captured := some md.captured }

namespace Indexer

def blockDecisions {π : Type} (modifier : BlockModifier π) (ix : Indexer)
    (env : BatchFaults) (ts : List Target) : List (Decision π) :=
  ts.zipIdx.map fun p =>
    decideBlock modifier p.1 (ix.manager.getLocationIds (env.read p.2 0) p.1.key)

def blockBatch {π : Type} (modifier : BlockModifier π) (ix : Indexer) (env : BatchFaults)
    (ts : List Target) : Indexer × List (Nat × Outcome π) :=
  ix.write env .wholeKey false (ix.blockDecisions modifier env ts) true

def readModifyWriteBlock {π : Type} (ix : Indexer) (env : Nat → BatchFaults)
    (keys : List KeyType) (modifier : BlockModifier π) : Indexer × List (Nat × Outcome π) :=
  runBatches (blockBatch modifier) env ix (keys.zipIdx.map fun p => ⟨p.2, p.1, []⟩)

end Indexer

/-! ## `ReadModifyWriteLocation` -/

abbrev LocationRead := ErrorCode × Option CacheLocation

/-- `slots` are the modifier's codes with its working copies. -/
structure LocationModified (π : Type) where
  action : ModifierAction
  slots : List LocationRead
  properties : PropertyMap := ∅
  captured : π

/-- The modifier of a key's named locations: position, then id and read. -/
abbrev LocationModifier (π : Type) := Nat → List (LocationId × LocationRead) → LocationModified π

/-- `EC_OK` promises a value under the requested id. -/
def checkRead (p : LocationId × LocationRead) : LocationRead :=
  if p.2.1 = .ok ∧ p.2.2.all (·.id ≠ p.1) then (.mismatch, none) else p.2

def readFailed (r : LocationRead) : Bool := r.1 ≠ .ok ∧ r.1 ≠ .noent

def placedCode (p : LocationId × LocationRead) : ErrorCode :=
  if p.2.1 ≠ .ok then p.2.1
  else if p.2.2.all (·.id ≠ p.1) then .mismatch
  else .ok

/-- `emplace`: the first value of an id wins. -/
def emplace (m : CacheLocationMap) (p : LocationId × LocationRead) : CacheLocationMap :=
  match placedCode p, p.2.2 with
  | .ok, some l => if (m.lookup p.1).isSome then m else m.insert p.1 l
  | _, _ => m

def upsertMap (slots : List (LocationId × LocationRead)) : CacheLocationMap :=
  slots.foldl emplace ∅

def aliveIds (slots : List (LocationId × LocationRead)) : List LocationId :=
  (slots.filter fun p => p.2.1 = .ok).map (·.1)

structure RmwFlags where
  adjustReclaimed : Bool := true
  trackCreated : Bool := false
  refreshCache : Bool := false
  maintenance : Bool := false

/-- A modifier that returns the wrong number of codes has failed. -/
def LocationModified.checked {π : Type} (md : LocationModified π) (ids : List LocationId) :
    ModifierAction × List LocationRead :=
  if md.slots.length = ids.length then (md.action, md.slots)
  else (.fail, ids.map fun _ => (.error, none))

/-- A failed read is no basis for a write, whatever the modifier says. -/
def forceRead (read slot : LocationRead) : LocationRead :=
  if readFailed read then (read.1, slot.2) else slot

def intentOf (action : ModifierAction) (slots : List (LocationId × LocationRead))
    (props : PropertyMap) (isNew : Bool) : Intent :=
  match action with
  | .ok =>
    if (upsertMap slots).entries.isEmpty ∧ props.entries.isEmpty then .settled
    else .upsert (upsertMap slots) props isNew
  | .delete => if (aliveIds slots).isEmpty then .settled else .delete (aliveIds slots)
  | .skip | .fail => .settled

def codesOf (action : ModifierAction) (slots : List (LocationId × LocationRead)) :
    List ErrorCode :=
  match action with
  | .ok => slots.map placedCode
  | .delete | .skip => slots.map (·.2.1)
  | .fail =>
    if slots.all (·.2.1 = .ok) then slots.map fun _ => .error else slots.map (·.2.1)

/-- The key fails as a whole when the modifier fails, or when it wants
something written under an id it was not asked for. -/
def failedOf (action : ModifierAction) (slots : List (LocationId × LocationRead)) : Bool :=
  match action with
  | .ok => slots.any fun p => p.2.1 = .ok ∧ placedCode p ≠ .ok
  | .delete | .skip => false
  | .fail => true

/-- Turn what the modifier returned into a decision. -/
def decideModified {π : Type} (t : Target) (isNew : Bool) (reads : List LocationRead)
    (md : LocationModified π) : Decision π :=
  let action := (md.checked t.ids).1
  let slots := t.ids.zip (List.zipWith forceRead reads (md.checked t.ids).2)
  { index := t.index
    key := t.key
    intent := intentOf action slots md.properties isNew
    codes := codesOf action slots
    failed := reads.any readFailed || failedOf action slots
    captured := some md.captured }

/-- The key is turned down before its modifier is called. -/
def Decision.refused {π : Type} (t : Target) (ec : ErrorCode) : Decision π :=
  { index := t.index, key := t.key, intent := .settled, codes := t.ids.map fun _ => ec
    failed := true, captured := none }

/-- The per-key part of `ReadModifyWriteLocationImpl`. -/
def decideLocations {π : Type} (track : Bool) (modifier : LocationModifier π) (t : Target)
    (keyEc : ErrorCode) (rawReads : List LocationRead) : Decision π :=
  let reads := (t.ids.zip rawReads).map checkRead
  if keyEc ≠ .ok ∧ keyEc ≠ .noent then .refused t keyEc
  else if track ∧ keyEc = .noent ∧ reads.any (·.1 = .ok) then .refused t .mismatch
  else
    decideModified t (track ∧ keyEc = .noent) reads (modifier t.index (t.ids.zip reads))

namespace Indexer

def readTarget (ix : Indexer) (fl : RmwFlags) (env : BatchFaults) (t : Target) (slot : Nat)
    (refreshEc : ErrorCode) : ErrorCode × List LocationRead :=
  let r :=
    if fl.trackCreated then
      ix.manager.getLocationsWithKeyStatus (env.read slot) (env.probe slot) t.key t.ids
    else if fl.maintenance then
      (.ok, ix.manager.getLocationsForMaintenance (env.read slot) t.key t.ids)
    else (.ok, ix.manager.getLocations (env.read slot) t.key t.ids)
  if refreshEc = .ok then r else (r.1, t.ids.map fun _ => (refreshEc, none))

def refreshBatch (ix : Indexer) (fl : RmwFlags) (env : BatchFaults) (ts : List Target) :
    Manager × List ErrorCode :=
  if fl.refreshCache then
    ix.manager.refreshCacheFromPersistent env.refresh (ts.map (·.key))
  else (ix.manager, ts.map fun _ => .ok)

def refreshed (ix : Indexer) (fl : RmwFlags) (env : BatchFaults) (ts : List Target) : Indexer :=
  { ix with manager := (ix.refreshBatch fl env ts).1 }

def locationDecisions {π : Type} (fl : RmwFlags) (modifier : LocationModifier π)
    (ix : Indexer) (env : BatchFaults) (ts : List Target) (refreshEcs : List ErrorCode) :
    List (Decision π) :=
  (ts.zip refreshEcs).zipIdx.map fun p =>
    let r := ix.readTarget fl env p.1.1 p.2 p.1.2
    decideLocations fl.trackCreated modifier p.1.1 r.1 r.2

def locationBatch {π : Type} (fl : RmwFlags) (modifier : LocationModifier π) (ix : Indexer)
    (env : BatchFaults) (ts : List Target) : Indexer × List (Nat × Outcome π) :=
  if fl.maintenance && !env.preSync then
    (ix, ts.map fun t =>
      (t.index, { codes := t.ids.map fun _ => .timeout, failed := true, captured := none }))
  else
    (ix.refreshed fl env ts).write env (if fl.maintenance then .maintenance else .targets)
      fl.trackCreated ((ix.refreshed fl env ts).locationDecisions fl modifier env ts
        (ix.refreshBatch fl env ts).2) fl.adjustReclaimed

def targetsOf (keys : List KeyType) (ids : List (List LocationId)) : List Target :=
  (keys.zip ids).zipIdx.map fun p => ⟨p.2, p.1.1, p.1.2⟩

/-- `ReadModifyWriteLocationImpl` for lists of one length; the length test is
made by the callers. -/
def readModifyWriteLocationImpl {π : Type} (ix : Indexer) (env : Nat → BatchFaults)
    (keys : List KeyType) (ids : List (List LocationId)) (modifier : LocationModifier π)
    (fl : RmwFlags) : Indexer × List (Nat × Outcome π) :=
  runBatches (locationBatch fl modifier) env ix (targetsOf keys ids)

def readModifyWriteLocation {π : Type} (ix : Indexer) (env : Nat → BatchFaults)
    (keys : List KeyType) (ids : List (List LocationId)) (modifier : LocationModifier π)
    (adjustReclaimed refreshCache : Bool) : Indexer × List (Nat × Outcome π) :=
  ix.readModifyWriteLocationImpl env keys ids modifier { adjustReclaimed, refreshCache }

def readModifyWriteLocationsForMaintenance {π : Type} (ix : Indexer)
    (env : Nat → BatchFaults) (keys : List KeyType) (ids : List (List LocationId))
    (modifier : LocationModifier π) (adjustReclaimed : Bool) :
    Indexer × List (Nat × Outcome π) :=
  ix.readModifyWriteLocationImpl env keys ids modifier { adjustReclaimed, maintenance := true }

end Indexer

/-! ## `ReadModifyWriteSingleTargetLocations`

The fast path of a purely local backend: one location per key, distinct keys,
and no delete. -/

structure SingleModified (π : Type) where
  action : ModifierAction
  ec : ErrorCode
  location : Option CacheLocation
  captured : π

abbrev SingleModifier (π : Type) := Nat → LocationId → LocationRead → SingleModified π

def decideSingle {π : Type} (modifier : SingleModifier π) (index : Nat) (key : KeyType)
    (id : LocationId) (keyEc : ErrorCode) (rawRead : LocationRead) : Decision π :=
  let settled (ec : ErrorCode) (failed : Bool) (captured : Option π) : Decision π :=
    { index, key, intent := .settled, codes := [ec], failed, captured }
  let read := checkRead (id, rawRead)
  if keyEc ≠ .ok ∧ keyEc ≠ .noent then settled keyEc true none
  else if keyEc = .noent ∧ read.1 = .ok then settled .mismatch true none
  else
    let md := modifier index id read
    let ec := if readFailed read then read.1 else md.ec
    if md.action = .ok ∧ ec = .ok then
      match md.location with
      | none => settled .mismatch true (some md.captured)
      | some l =>
        if l.id ≠ id then settled .mismatch true (some md.captured)
        else { settled .ok (readFailed read) (some md.captured) with
                intent := .upsert ((∅ : CacheLocationMap).insert id l) ∅ (keyEc = .noent) }
    else
      let skipped := md.action = .skip ∨ md.action = .ok
      settled (if skipped ∨ ec ≠ .ok then ec else .error) (readFailed read || ¬skipped)
        (some md.captured)

namespace Indexer

def supportsSingleLocationRmw (ix : Indexer) : Bool :=
  ix.manager.cache.isNone && ix.manager.persistent.kind = .localMem

end Indexer

end TairKvCache
