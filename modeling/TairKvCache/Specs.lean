import TairKvCache.Types

/-!
# Spec lists

The spec-level helpers of `manager/meta_searcher.cc` and
`data_storage/snapshot_uri_utils.h`: the validation of an incoming spec list,
the merge by name, and the computation of the new value of a location with
the sizes its usage is adjusted by (`mergeOneLocation`).

The sizes are not recomputed from the stored value: a merge derives the new
total from the old one by subtracting what it replaces and adding what comes
in.
-/

namespace TairKvCache

/-! ## Snapshot versions -/

def snapshotVersionParam : String := "s_version"

/-- `CountUriParam`: occurrences of the key among the query segments. -/
def countUriParam (uri key : String) : Nat :=
  match StandardUri.splitAt? '?' uri.toList with
  | none => 0
  | some (_, query) =>
    (query.splitOn '&').countP fun seg => seg.takeWhile (· ≠ '=') = key.toList

def isAsciiHexDigit (c : Char) : Bool :=
  ('0' ≤ c && c ≤ '9') || ('a' ≤ c && c ≤ 'f') || ('A' ≤ c && c ≤ 'F')

def isValidSnapshotVersionToken (version : String) : Bool :=
  version.length = 32 && version.toList.all isAsciiHexDigit

def parseSnapshotUriInfo (uri : StandardUri) : Option String :=
  let version := uri.getParam snapshotVersionParam
  if uri.valid ∧ isValidSnapshotVersionToken version then some version else none

/-- The locals of `ValidateConsistentSnapshotVersion`. -/
structure SnapshotScan where
  version : Option String := none
  unversioned : Bool := false
  total : Nat := 0
  names : List String := []

/-- The version rule: all specs carry one version, or none carries any. -/
def SnapshotScan.seeVersion (s : SnapshotScan) (spec : LocationSpec) : Option SnapshotScan :=
  let count := countUriParam spec.uri snapshotVersionParam
  if count = 0 then
    if s.version.isSome then none else some { s with unversioned := true }
  else if s.unversioned ∨ count ≠ 1 then none
  else match parseSnapshotUriInfo (StandardUri.parse spec.uri), s.version with
    | none, _ => none
    | some v, none => some { s with version := some v }
    | some v, some v' => if v = v' then some s else none

def SnapshotScan.step (s : SnapshotScan) (spec : LocationSpec) : Option SnapshotScan :=
  let uri := StandardUri.parse spec.uri
  if spec.name = "" ∨ spec.name ∈ s.names ∨ ¬uri.valid then none
  else if 2 ^ 64 - 1 - s.total < uri.getParamAs "size" 0 then none
  else SnapshotScan.seeVersion
    { s with total := s.total + uri.getParamAs "size" 0, names := spec.name :: s.names } spec

/-- `ValidateConsistentSnapshotVersion`: the total size, or `none` for
`EC_BADARGS`. -/
def validateConsistentSnapshotVersion (specs : List LocationSpec) : Option Nat :=
  if specs.isEmpty then none
  else (specs.foldlM SnapshotScan.step {}).map (·.total)

structure SpecsValid (specs : List LocationSpec) (total : Nat) : Prop where
  total_eq : total = specsTotal specs
  total_lt : total < 2 ^ 64
  nodup : (specs.map (·.name)).Nodup

/-! ## Merging by name -/

/-- Overwrite the spec of the same name, or append. -/
def setSpec : List LocationSpec → LocationSpec → List LocationSpec
  | [], s => [s]
  | x :: xs, s => if x.name = s.name then s :: xs else x :: setSpec xs s

/-- `MergeLocationSpecsByName`: stored duplicates collapse to their last
value, incoming specs overwrite, and the result is ordered by name. -/
def mergeLocationSpecsByName (old incoming : List LocationSpec) : List LocationSpec :=
  ((old ++ incoming).foldl setSpec []).insertionSort fun a b => ¬b.name < a.name

def namedIn (names : List String) (l : List LocationSpec) : List LocationSpec :=
  l.filter fun s => s.name ∈ names

/-! ## The new value of a location -/

/-- `StorageUsageChange`: what the caller adjusts the storage usage by. -/
structure StorageUsageChange where
  oldSize : Nat := 0
  newSize : Nat := 0
  hasOld : Bool := false
deriving DecidableEq

/-- `MergeLocationSpecsTask`; an inline spec is one more element of `specs`.
Only the cache manager can construct a `PrevalidatedTotalSize`, and it has
validated the specs by then: that is the last field. -/
structure MergeTask where
  locationId : LocationId
  internedLocationId : Option LocationId := none
  type : DataStorageType
  status : CacheLocationStatus
  specs : List LocationSpec
  prevalidatedTotalSize : Option Nat := none
  prevalidated : ∀ n, prevalidatedTotalSize = some n → SpecsValid specs n := by nofun

def MergeTask.resolvedLocationId (task : MergeTask) : LocationId :=
  task.internedLocationId.getD task.locationId

/-- The size of the incoming specs; `none` rejects the request. -/
def MergeTask.incomingSize (task : MergeTask) : Option Nat :=
  match task.prevalidatedTotalSize with
  | some v => if task.specs.isEmpty then none else some v
  | none => validateConsistentSnapshotVersion task.specs

/-- The value both merge and replace store: every field is assigned. -/
def storedLocation (id : LocationId) (type : DataStorageType) (status : CacheLocationStatus)
    (createTime : Int) (specs : List LocationSpec) (validated : Option Nat) : CacheLocation :=
  let l : CacheLocation :=
    { id, status, type, specSize := specs.length, createTime, locationSpecs := specs }
  validated.elim l l.setValidatedTotalSize

/-- Size of a stored spec, and whether its URI is known to be valid. The cached
total of a location with one spec saves parsing it again. -/
def storedSpecSize (l : CacheLocation) (spec : LocationSpec) : Bool × Nat :=
  match l.locationSpecs, l.validatedTotalSize with
  | [_], some v => (true, v)
  | _, _ => tryGetLocationSpecSize spec

/-- `merge_one_location` over a stored location. The source's shortcut for
replacing the only spec builds the same value. -/
def mergeExisting (task : MergeTask) (incoming : Nat) (createTime : Int)
    (l : CacheLocation) : Except ErrorCode (CacheLocation × StorageUsageChange) :=
  let names := task.specs.map (·.name)
  let sizeOf := fun specs => (specs.map fun spec => (storedSpecSize l spec).2).sum
  let oldSize := sizeOf l.locationSpecs
  let merged := mergeLocationSpecsByName l.locationSpecs task.specs
  let store (newSize : Nat) (validated : Bool) :
      Except ErrorCode (CacheLocation × StorageUsageChange) :=
    if 2 ^ 64 ≤ newSize then .error .badargs
    else .ok (storedLocation (task.internedLocationId.getD l.id) task.type task.status createTime
      merged (if validated then some newSize else none), ⟨oldSize, newSize, true⟩)
  if l.type ≠ task.type ∨ 2 ^ 64 ≤ oldSize then .error .badargs
  else if (l.locationSpecs.map (·.name)).Nodup then
    store (oldSize - sizeOf (namedIn names l.locationSpecs) + incoming)
      (l.locationSpecs.all fun spec => spec.name ∈ names || (storedSpecSize l spec).1)
  else
    -- names stored twice collapse, so the new total is summed up afresh
    store (specsTotal merged) (merged.all fun spec => (tryGetLocationSpecSize spec).1)

def mergeOneLocation (task : MergeTask) (incoming : Nat) (createTime : Int)
    (read : ErrorCode × Option CacheLocation) :
    Except ErrorCode (CacheLocation × StorageUsageChange) :=
  match read with
  | (.ok, some l) => mergeExisting task incoming createTime l
  | (.ok, none) => .error .mismatch
  | (.noent, _) =>
    .ok (storedLocation task.resolvedLocationId task.type task.status createTime task.specs
      (some incoming), ⟨0, incoming, false⟩)
  | (ec, _) => .error ec

end TairKvCache
