import TairKvCache.StandardUri

/-!
# The data model of the metadata manager

Error codes, storage types, cache locations and block masks, as declared in
`common/error_code.h`, `data_storage/storage_config.h`,
`meta/cache_location.h` and `meta/types.h`.

The one representation invariant of a `CacheLocation` is about its cached
`validated_total_size_`: unknown, or the exact sum of the `size` parameters
of its specs (`CacheLocation.SizeCached`). Every specs mutator clears the
cache, and the merge/replace/delete paths restore it from sizes they have
just computed, so it is those computations that have to be right.
-/

namespace TairKvCache

/-! ## Error codes -/

/-- `ErrorCode`, the codes the modelled functions produce or test. -/
inductive ErrorCode where
  | ok | error | noent | timeout | exist | ioError | badargs | unimplemented
  | corruption | nospc | partialOk | instanceNotExist | duplicateEntity
  | configError | outOfLimit | outOfRange | mismatch | unknown
  | nodeNotRegistered | snapshotRequired | snapshotInProgress | snapshotRateLimited
deriving DecidableEq, Repr, Inhabited

/-- `ModifierAction`: what a read-modify-write callback asks for. -/
inductive ModifierAction where
  | ok | fail | skip | delete
deriving DecidableEq, Repr

/-! ## Storage types -/

inductive DataStorageType where
  | unknown | hf3fs | mooncake | tairMempool | nfs | vcnsHf3fs | dummy
  | eventReportL1p5 | eventReportL2 | tairMempoolSsd
deriving DecidableEq, Repr

/-- `ToBaseType`: a sub storage type is accounted under its base type. -/
def toBaseType : DataStorageType → DataStorageType
  | .vcnsHf3fs => .hf3fs
  | t => t

def isEventReportStorageType (t : DataStorageType) : Bool :=
  t = .eventReportL1p5 || t = .eventReportL2

/-! ## Location specs -/

structure LocationSpec where
  name : String
  uri : String
deriving DecidableEq, Repr

/-- `TryGetLocationSpecSize`: validity of the URI, and its `size` (0 when it
is invalid or carries none). -/
def tryGetLocationSpecSize (spec : LocationSpec) : Bool × Nat :=
  let uri := StandardUri.parse spec.uri
  if uri.valid then (true, uri.getParamAs "size" 0) else (false, 0)

def getLocationSpecSize (spec : LocationSpec) : Nat :=
  (tryGetLocationSpecSize spec).2

/-- The exact sum of the `size` parameters, before any `uint64_t` wrap. -/
def specsTotal (specs : List LocationSpec) : Nat :=
  (specs.map getLocationSpecSize).sum

/-- `GetLocationSpecsSize`: the `uint64_t` sum. -/
def getLocationSpecsSize (specs : List LocationSpec) : Nat :=
  specs.foldl (fun total s => (total + getLocationSpecSize s) % 2 ^ 64) 0

/-! ## Cache locations -/

inductive CacheLocationStatus where
  | notFound | new | writing | serving | deleting
deriving DecidableEq, Repr

abbrev KeyType := Int

abbrev LocationId := String

/-- `CacheLocation`. `validatedTotalSize = none` is the source's
`kUnknownValidatedTotalSize` sentinel. -/
structure CacheLocation where
  id : LocationId := ""
  status : CacheLocationStatus := .new
  type : DataStorageType := .unknown
  specSize : Nat := 0
  createTime : Int := 0
  locationSpecs : List LocationSpec := []
  validatedTotalSize : Option Nat := none
deriving DecidableEq, Repr

namespace CacheLocation

def setId (l : CacheLocation) (id : LocationId) : CacheLocation := { l with id }

def setStatus (l : CacheLocation) (status : CacheLocationStatus) : CacheLocation :=
  { l with status }

def setCreateTime (l : CacheLocation) (t : Int) : CacheLocation :=
  { l with createTime := t }

/-- `set_validated_total_size`; the largest `uint64_t` is the sentinel. -/
def setValidatedTotalSize (l : CacheLocation) (size : Nat) : CacheLocation :=
  { l with validatedTotalSize := if size = 2 ^ 64 - 1 then none else some size }

/-- What `ToJsonString` serialises: every field but the cached total. -/
structure Json where
  id : LocationId
  status : CacheLocationStatus
  type : DataStorageType
  specSize : Nat
  createTime : Int
  locationSpecs : List LocationSpec
deriving DecidableEq, Repr

def toJsonString (l : CacheLocation) : Json :=
  { id := l.id, status := l.status, type := l.type, specSize := l.specSize
    createTime := l.createTime, locationSpecs := l.locationSpecs }

end CacheLocation

/-! ## Keys and their entries -/

abbrev CacheLocationMap := AList (fun _ : LocationId => CacheLocation)

abbrev PropertyMap := AList (fun _ : String => String)

/-- The value stored under one block key. -/
structure KeyEntry where
  locations : CacheLocationMap
  properties : PropertyMap
deriving DecidableEq

/-- `PendingLocationKey`, as the reclaimer and the garbage collector both
declare it: one location of one block of an instance. -/
structure PendingLocationKey where
  instanceId : String
  blockKey : KeyType
  locationId : LocationId
deriving DecidableEq, Repr

/-! ## Block masks -/

/-- `BlockMask = variant<vector<bool>, size_t>`. -/
inductive BlockMask where
  | vector (bits : List Bool)
  | offset (n : Nat)
deriving DecidableEq, Repr

def isIndexInMaskRange : BlockMask → Nat → Bool
  | .vector bits, i => bits.getD i false
  | .offset n, i => i < n

def isBlockMaskValid : BlockMask → Nat → Bool
  | .vector bits, size => bits.length = size
  | .offset n, size => n ≤ size

end TairKvCache
