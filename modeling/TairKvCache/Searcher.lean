import TairKvCache.Indexer
import TairKvCache.Specs
import TairKvCache.Lib.Ledger

/-!
# The metadata searcher's mutations

`MetaSearcher` (`manager/meta_searcher.cc`): the batch operations on location
metadata. Each is a modifier handed to the indexer's read-modify-write, plus
the adjustment of the storage usage from what the modifier captured, which
happens after all the writes and from the codes they returned.

Most modifiers treat the locations of a key one by one and ask for a write as
soon as one of them passes; `slotModifier` is that shape.

Choices made outside the code are parameters: the random location ids
(`IdSource`), the clock, the code with which a write lease is granted, and the
value an uninitialised size variable happens to hold.
-/

namespace TairKvCache

open Lib List

/-! ## Storage usage -/

abbrev UsageEntry := Ledger.Entry DataStorageType

def usageAdd (type : DataStorageType) (n : Nat) : UsageEntry := ⟨toBaseType type, .add n⟩

def usageSub (type : DataStorageType) (n : Nat) : UsageEntry := ⟨toBaseType type, .sub n⟩

/-- `ApplyStorageUsageChange`, or a plain addition for a new location. -/
def usageChange (type : DataStorageType) (c : StorageUsageChange) : UsageEntry :=
  if c.hasOld then ⟨toBaseType type, .change c.oldSize c.newSize⟩ else usageAdd type c.newSize

def Indexer.adjustUsage (ix : Indexer) (es : List UsageEntry) : Indexer :=
  { ix with usage := Ledger.postAll (2 ^ 64) ix.usage es }

/-! ## Results -/

def outcomeAt {π : Type} (outs : List (Nat × Outcome π)) (i : Nat) : Outcome π :=
  labelled { codes := [], failed := false, captured := none } outs i

def outcomes {π : Type} (n : Nat) (outs : List (Nat × Outcome π)) : List (Outcome π) :=
  (range n).map (outcomeAt outs)

/-- The usage moves of the locations whose final code is `EC_OK`. -/
def Outcome.usage {γ : Type} (f : Nat → γ → List UsageEntry) (o : Outcome (List γ)) :
    List UsageEntry :=
  (o.codes.zip (o.captured.getD [])).zipIdx.flatMap fun p =>
    if p.1.1 = .ok then f p.2 p.1.2 else []

/-- All the usage moves of a request, in request order. -/
def usageOf {γ : Type} (n : Nat) (outs : List (Nat × Outcome (List γ)))
    (f : Nat → Nat → γ → List UsageEntry) : List UsageEntry :=
  (range n).flatMap fun i => (outcomeAt outs i).usage (f i)

def firstError (codes : List ErrorCode) : ErrorCode := (codes.find? (· ≠ .ok)).getD .ok

/-! ## Modifiers -/

/-- One slot of a modifier: its code and working copy, and what it captured. -/
structure Slot (γ : Type) where
  ec : ErrorCode
  location : Option CacheLocation
  captured : γ

/-- Every location on its own; a write as soon as one of them passes. -/
def slotModifier {γ : Type} (onUpdate : ModifierAction)
    (f : Nat → Nat → LocationId → LocationRead → Slot γ) : LocationModifier (List γ) :=
  fun i reads =>
    let slots := reads.zipIdx.map fun p => f i p.2 p.1.1 p.1.2
    { action := if slots.any (·.ec = .ok) then onUpdate else .skip
      slots := slots.map fun s => (s.ec, s.location)
      captured := slots.map (·.captured) }

/-- The metadata write lease is taken before the first slot is looked at. -/
def leased {γ : Type} (leaseEc : ErrorCode) (m : LocationModifier (List γ)) :
    LocationModifier (List γ) :=
  fun i reads =>
    if leaseEc = .ok then m i reads
    else { action := .fail, slots := reads.map fun r => (leaseEc, r.2.2), captured := [] }

/-! ## `BatchAddLocation` -/

/-- The random ids: never one that the key has, never empty. -/
structure IdSource where
  next : Nat → List LocationId → LocationId
  fresh : ∀ i ids, next i ids ∉ ids
  nonempty : ∀ i ids, next i ids ≠ ""

/-- Ids longer than all those in use together. -/
def longerIds : IdSource where
  next _ ids := String.ofList (replicate ((ids.map String.length).sum + 1) 'x')
  fresh _ ids := by
    intro hmem
    have := le_sum_of_mem (mem_map_of_mem (f := String.length) hmem)
    simp at this
  nonempty _ ids := by
    intro h
    have := congrArg String.length h
    simp at this

structure AddEnv where
  ids : IdSource
  now : Int := 0
  uninit : LocationSpec → Nat := fun _ => 0
  batch : Nat → BatchFaults := fun _ => {}

def prevBlockKeyProperty : String := "BP#prev_key"

def prevKey (keys : List KeyType) (i : Nat) : String :=
  if i = 0 then "" else toString (keys.getD (i - 1) 0)

/-- The size `BatchAddLocation` accounts: `spec_sz` is not initialised there. -/
def addedSize (uninit : LocationSpec → Nat) (specs : List LocationSpec) : Nat :=
  specs.foldl (fun total s =>
    let uri := StandardUri.parse s.uri
    if uri.valid then (total + uri.getParamAs "size" (uninit s)) % 2 ^ 64 else total) 0

def addModifier (env : AddEnv) (keys : List KeyType) (locations : List CacheLocation) :
    BlockModifier (List (LocationId × Nat)) :=
  fun i getEc existing =>
    if getEc ≠ .ok ∧ getEc ≠ .noent then { action := .fail, ec := getEc, captured := [] }
    else
      let id := env.ids.next i existing
      let loc := locations.getD i {}
      { action := .ok
        ec := .ok
        properties :=
          if getEc = .noent then (∅ : PropertyMap).insert prevBlockKeyProperty (prevKey keys i)
          else ∅
        locations := (∅ : CacheLocationMap).insert id
          (((loc.setId id).setStatus .writing).setCreateTime env.now)
        captured := [(id, addedSize env.uninit loc.locationSpecs)] }

structure AddResult where
  ec : ErrorCode := .ok
  locationId : LocationId := ""
deriving DecidableEq

/-- The result of one key. A success without an id is reported as a mismatch. -/
def addResult (o : Outcome (List (LocationId × Nat))) : AddResult :=
  let ec := o.codes.headD .ok
  let id := ((o.captured.getD []).head?.map (·.1)).getD ""
  { ec := if ec = .ok ∧ id = "" then .mismatch else ec, locationId := id }

namespace Indexer

def batchAddLocation (ix : Indexer) (env : AddEnv) (keys : List KeyType)
    (locations : List CacheLocation) : Indexer × ErrorCode × List AddResult :=
  if keys.length ≠ locations.length then
    (ix, .badargs, keys.map fun _ => { ec := .badargs })
  else
    let r := ix.readModifyWriteBlock env.batch keys (addModifier env keys locations)
    let os := outcomes keys.length r.2
    let ec := if os.any fun o => o.codes.headD .ok = .ok ∧ (addResult o).ec ≠ .ok then .mismatch
      else aggregateEc os
    (r.1.adjustUsage (usageOf keys.length r.2 fun i _ c =>
        [usageAdd (locations.getD i {}).type c.2]),
      ec, os.map addResult)

end Indexer

def taskAt {τ : Type} (d : τ) (tasks : List (List τ)) (i j : Nat) : τ :=
  (tasks.getD i []).getD j d

/-- The type and the size a removed location is accounted by. -/
def removedSize (loc : Option CacheLocation) : DataStorageType × Nat :=
  loc.elim (.unknown, 0) fun l => (l.type, getLocationSpecsSize l.locationSpecs)

abbrev LocationResults := Indexer × ErrorCode × List (List ErrorCode)

def locationResults {π : Type} (n : Nat) (r : Indexer × List (Nat × Outcome π)) :
    LocationResults :=
  (r.1, aggregateEc (outcomes n r.2), (outcomes n r.2).map (·.codes))

namespace Indexer

end Indexer

/-! ## `BatchDeleteLocations` -/

/-- `expected = none` when the caller checks no values. -/
def deleteSlot (expected : Option CacheLocation.Json) (id : LocationId) (read : LocationRead) :
    Slot (DataStorageType × Nat) :=
  if read.1 = .noent ∨ id = "" then
    ⟨if read.1 ≠ .ok then read.1 else .noent, read.2, removedSize none⟩
  else if read.1 ≠ .ok then ⟨read.1, read.2, removedSize none⟩
  else if ∃ e ∈ expected, ∀ l ∈ read.2, l.toJsonString ≠ e then
    ⟨.mismatch, read.2, removedSize none⟩
  else ⟨.ok, read.2, removedSize read.2⟩

structure DeleteFlags where
  adjustStorageUsage : Bool := true
  adjustReclaimedKeyCount : Bool := true
  maintenanceNoTouch : Bool := false

namespace Indexer

/-- `BatchDeleteLocations`; an empty list of expected values is no check. -/
def batchDeleteLocations (ix : Indexer) (env : Nat → BatchFaults) (keys : List KeyType)
    (ids : List (List LocationId)) (expected : List (List CacheLocation.Json))
    (fl : DeleteFlags) : LocationResults :=
  if keys.length ≠ ids.length
      ∨ (expected ≠ [] ∧ expected.map length ≠ ids.map length) then (ix, .badargs, [])
  else
    let modifier : LocationModifier (List (DataStorageType × Nat)) :=
      slotModifier .delete fun i j => deleteSlot ((expected.getD i [])[j]?)
    let r :=
      if fl.maintenanceNoTouch then
        ix.readModifyWriteLocationsForMaintenance env keys ids modifier fl.adjustReclaimedKeyCount
      else ix.readModifyWriteLocation env keys ids modifier fl.adjustReclaimedKeyCount false
    let u := if fl.adjustStorageUsage then
        r.1.adjustUsage (usageOf keys.length r.2 fun i j c =>
          if taskAt "" ids i j = "" then [] else [usageSub c.1 c.2])
      else r.1
    locationResults keys.length (u, r.2)

end Indexer

/-! ## `BatchReplaceLocationSpecs` and `BatchMergeLocationSpecs` -/

structure ReplaceTask where
  locationId : LocationId
  internedLocationId : Option LocationId := none
  type : DataStorageType
  status : CacheLocationStatus
  specs : List LocationSpec
deriving DecidableEq

def ReplaceTask.resolvedLocationId (task : ReplaceTask) : LocationId :=
  task.internedLocationId.getD task.locationId

def mergeSlot (now : Int) (task : MergeTask) (incoming : Nat) (read : LocationRead) :
    Slot StorageUsageChange :=
  match mergeOneLocation task incoming now read with
  | .ok (l, ch) => ⟨.ok, some l, ch⟩
  | .error ec => ⟨ec, read.2, {}⟩

/-- The request checks both operations make before any read: distinct keys,
distinct nonempty ids under each key, acceptable specs. -/
def specsRequestOk {τ : Type} (id : τ → LocationId) (size : τ → Option Nat)
    (keys : List KeyType) (tasks : List (List τ)) : Bool :=
  keys.Nodup && tasks.all fun ts =>
    (ts.map id).Nodup && ts.all fun t => id t ≠ "" && (size t).isSome

structure SpecsEnv where
  now : Int := 0
  leaseEc : ErrorCode := .ok
  batch : Nat → BatchFaults := fun _ => {}

def noMergeTask : MergeTask :=
  { locationId := "", type := .unknown, status := .new, specs := [] }

namespace Indexer

def mergeModifier (env : SpecsEnv) (tasks : List (List MergeTask)) :
    LocationModifier (List StorageUsageChange) :=
  fun i reads =>
    if reads.isEmpty then { action := .skip, slots := [], captured := [] }
    else leased env.leaseEc (slotModifier .ok fun i j _ read =>
      let task := taskAt noMergeTask tasks i j
      mergeSlot env.now task (task.incomingSize.getD 0) read) i reads

def singleMergeModifier (env : SpecsEnv) (tasks : List (List MergeTask)) :
    SingleModifier (List StorageUsageChange) :=
  fun i _ read =>
    if env.leaseEc ≠ .ok then ⟨.fail, env.leaseEc, none, []⟩
    else
      let task := taskAt noMergeTask tasks i 0
      match mergeOneLocation task (task.incomingSize.getD 0) env.now read with
      | .ok (l, ch) => ⟨.ok, .ok, some l, [ch]⟩
      | .error ec => ⟨.skip, ec, none, []⟩

end Indexer

end TairKvCache
