import TairKvCache.Searcher
import TairKvCache.EventReport.SpecUri

/-!
# Folding the deltas of a request

How `ReportEvent` (`manager/cache_manager.cc`) turns the ADD and DELETE items
of a request into two metadata calls, and how it spreads the results of the
calls back over the items.

The items are folded per block and location: a location has one mutation per
spec name, the last one recorded, and the list of the items that belong to
it. Then all added specs go out in one merge call and all deleted names in
one delete call. A failed key marks the items that take part in it, and in
the end a location of which one item failed fails as a whole.

The items' results are a function of their index, `EC_OK` to begin with. The
linked lists of the source are lists here, and its open-addressing table over
the recorded locations is a search in their list; when it is built, and when
it is passed by, is as in the source.
-/

namespace TairKvCache.EventReport

/-! ## Item results -/

/-- `per_item_ec`. -/
abbrev ItemCodes := Nat → ErrorCode

namespace ItemCodes

def set (codes : ItemCodes) (index : Nat) (ec : ErrorCode) : ItemCodes :=
  fun j => if j = index then ec else codes j

/-- A result that is already an error stays. -/
def fail (codes : ItemCodes) (index : Nat) (ec : ErrorCode) : ItemCodes :=
  if codes index = .ok then codes.set index ec else codes

end ItemCodes

/-! ## The fold -/

structure DeltaSpecMutation where
  isAdd : Bool
  spec : LocationSpec
  size : Nat := 0
deriving DecidableEq, Repr

/-- One item of a location; `materialized` once its mutations are recorded. -/
structure DeltaEvent where
  index : Nat
  materialized : Bool := false
deriving DecidableEq, Repr

structure DeltaLocation where
  blockKey : KeyType
  locationId : LocationId
  specs : List DeltaSpecMutation := []
  events : List DeltaEvent := []
deriving DecidableEq, Repr

namespace DeltaLocation

/-- The order of the tasks: by block, then by location id. -/
def before (a b : DeltaLocation) : Bool :=
  a.blockKey < b.blockKey || (a.blockKey = b.blockKey && decide (a.locationId < b.locationId))

def isAt (l : DeltaLocation) (blockKey : KeyType) (locationId : LocationId) : Bool :=
  l.blockKey = blockKey && l.locationId = locationId

/-- `apply_delta_spec`: overwrite the mutation of the same name, or append. -/
def setMutation : List DeltaSpecMutation → DeltaSpecMutation → List DeltaSpecMutation
  | [], m => [m]
  | x :: xs, m => if x.spec.name = m.spec.name then m :: xs else x :: setMutation xs m

/-- The mutations of one item, which is then materialized. -/
def materialize (l : DeltaLocation) (index : Nat) (ms : List DeltaSpecMutation) : DeltaLocation :=
  { l with
    specs := ms.foldl setMutation l.specs
    events := l.events.map fun e => if e.index = index then { e with materialized := true } else e }

def addEvent (l : DeltaLocation) (index : Nat) : DeltaLocation :=
  { l with events := l.events ++ [{ index }] }

end DeltaLocation

/-- `delta_locations`; `sorted` is `delta_locations_sorted`, `indexed` says
that the lookup table has been built. -/
structure DeltaFold where
  locations : List DeltaLocation := []
  sorted : Bool := true
  indexed : Bool := false
deriving DecidableEq, Repr

namespace DeltaFold

/-- `append_delta_location`. -/
def append (f : DeltaFold) (blockKey : KeyType) (locationId : LocationId) : DeltaFold :=
  let new : DeltaLocation := { blockKey, locationId }
  { f with
    locations := f.locations ++ [new]
    sorted := f.sorted && !(f.locations.getLast?.any fun previous => new.before previous) }

/-- The location of the item, found or appended: `record_delta_event` up to
the event list. Ascending input is appended without a search. -/
def locate (f : DeltaFold) (blockKey : KeyType) (locationId : LocationId) : DeltaFold × Nat :=
  match f.locations.getLast? with
  | none => (f.append blockKey locationId, f.locations.length)
  | some last =>
    if last.isAt blockKey locationId then (f, f.locations.length - 1)
    else if !f.indexed && last.before { blockKey, locationId } then
      (f.append blockKey locationId, f.locations.length)
    else
      let f := { f with indexed := true }
      match f.locations.findIdx? (·.isAt blockKey locationId) with
      | some i => (f, i)
      | none => (f.append blockKey locationId, f.locations.length)

def modify (f : DeltaFold) (position : Nat) (g : DeltaLocation → DeltaLocation) : DeltaFold :=
  { f with locations := f.locations.modify position g }

/-- `record_delta_event`: the position of the item's location. -/
def record (f : DeltaFold) (blockKey : KeyType) (locationId : LocationId) (index : Nat) :
    DeltaFold × Nat :=
  let (f, position) := f.locate blockKey locationId
  (f.modify position (·.addEvent index), position)

def ordered (f : DeltaFold) : List DeltaLocation :=
  if f.sorted then f.locations
  else f.locations.insertionSort fun a b => !b.before a

/-- The locations in task order, one list per block. -/
def blocks (f : DeltaFold) : List (List DeltaLocation) :=
  f.ordered.splitBy fun a b => a.blockKey == b.blockKey

end DeltaFold

/-! ## The calls -/

/-- `MergeLocationSpecsTask` as `ReportEvent` fills it in; the total is left
out when it overflows. -/
structure AddTask where
  locationId : LocationId
  type : DataStorageType
  status : CacheLocationStatus
  specs : List LocationSpec
  prevalidatedTotalSize : Option Nat
deriving DecidableEq, Repr

structure DeleteTask where
  locationId : LocationId
  specNames : List String
deriving DecidableEq, Repr

namespace DeltaLocation

def added (l : DeltaLocation) : List DeltaSpecMutation := l.specs.filter (·.isAdd)

def deleted (l : DeltaLocation) : List DeltaSpecMutation := l.specs.filter fun m => !m.isAdd

/-- The merge task of the location, its specs ordered by name. -/
def addTask (type : DataStorageType) (l : DeltaLocation) : Option AddTask :=
  if l.added.isEmpty then none
  else
    let total := (l.added.map (·.size)).sum
    some
      { locationId := l.locationId, type, status := .serving
        specs := (l.added.map (·.spec)).insertionSort fun a b => ¬b.name < a.name
        prevalidatedTotalSize := if total < 2 ^ 64 then some total else none }

/-- The delete task of the location, its names in order. -/
def deleteTask (l : DeltaLocation) : Option DeleteTask :=
  if l.deleted.isEmpty then none
  else some
    { locationId := l.locationId
      specNames := (l.deleted.map (·.spec.name)).insertionSort fun a b => ¬b < a }

end DeltaLocation

/-- The tasks of the blocks that have some, under their block key. -/
def tasksPerBlock {τ : Type} (task : DeltaLocation → Option τ) (blocks : List (List DeltaLocation)) :
    List (KeyType × List τ) :=
  blocks.filterMap fun block =>
    match block, block.filterMap task with
    | l :: _, t :: ts => some (l.blockKey, t :: ts)
    | _, _ => none

namespace DeltaFold

def addTasks (f : DeltaFold) (type : DataStorageType) : List (KeyType × List AddTask) :=
  tasksPerBlock (·.addTask type) f.blocks

def deleteTasks (f : DeltaFold) : List (KeyType × List DeleteTask) :=
  tasksPerBlock (·.deleteTask) f.blocks

end DeltaFold

/-! ## Spreading the results -/

abbrev ItemNames := Nat → List String

/-- `mark_delta_phase_failure` over one location: the items that have reached
the mutation stage and mention a participating spec. -/
def markLocation (names : ItemNames) (ec : ErrorCode) (participates : LocationId → String → Bool)
    (codes : ItemCodes) (l : DeltaLocation) : ItemCodes :=
  l.events.foldl
    (fun codes e =>
      if e.materialized && (names e.index).any (participates l.locationId) then
        codes.fail e.index ec
      else codes)
    codes

/-- `mark_delta_phase_failure` over the locations of one block. -/
def markBlock (f : DeltaFold) (names : ItemNames) (blockKey : KeyType) (ec : ErrorCode)
    (participates : LocationId → String → Bool) (codes : ItemCodes) : ItemCodes :=
  (f.ordered.filter (·.blockKey = blockKey)).foldl (markLocation names ec participates) codes

def addParticipates (tasks : List AddTask) (locationId : LocationId) (name : String) : Bool :=
  (tasks.find? (·.locationId = locationId)).any fun t => t.specs.any (·.name = name)

def deleteParticipates (tasks : List DeleteTask) (locationId : LocationId) (name : String) : Bool :=
  (tasks.find? (·.locationId = locationId)).any fun t => name ∈ t.specNames

/-- The code of the `k`-th key, `EC_ERROR` when there is none. -/
def keyCode (codes : List ErrorCode) (k : Nat) : ErrorCode := codes.getD k .error

/-- The add phase, after the merge call answered `answer`. -/
def markAdds (f : DeltaFold) (names : ItemNames) (tasks : List (KeyType × List AddTask))
    (answer : List ErrorCode) (codes : ItemCodes) : ItemCodes :=
  tasks.zipIdx.foldl
    (fun codes p =>
      if keyCode answer p.2 = .ok then codes
      else markBlock f names p.1.1 (keyCode answer p.2) (addParticipates p.1.2) codes)
    codes

/-- The code of a deleted key: its first location that neither succeeded nor
was missing. -/
def deleteKeyCode (answer : List (List ErrorCode)) (k : Nat) (taskCount : Nat) : ErrorCode :=
  match answer[k]? with
  | none => .error
  | some row =>
    if row.length = taskCount then (row.find? fun ec => ec ≠ .ok ∧ ec ≠ .noent).getD .ok
    else .error

/-- The delete phase, after the delete call answered `answer`. -/
def markDeletes (f : DeltaFold) (names : ItemNames) (tasks : List (KeyType × List DeleteTask))
    (answer : List (List ErrorCode)) (codes : ItemCodes) : ItemCodes :=
  tasks.zipIdx.foldl
    (fun codes p =>
      let ec := deleteKeyCode answer p.2 p.1.2.length
      if ec = .ok then codes
      else markBlock f names p.1.1 ec (deleteParticipates p.1.2) codes)
    codes

/-- The closure over one location: its first error goes to its other items. -/
def closeLocation (codes : ItemCodes) (l : DeltaLocation) : ItemCodes :=
  match l.events.find? (fun e => codes e.index ≠ .ok) with
  | none => codes
  | some failed => l.events.foldl (fun codes' e => codes'.fail e.index (codes failed.index)) codes

def closeLocations (f : DeltaFold) (codes : ItemCodes) : ItemCodes :=
  f.locations.foldl closeLocation codes

end TairKvCache.EventReport
