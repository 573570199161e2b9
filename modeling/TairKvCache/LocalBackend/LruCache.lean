import TairKvCache.Indexer

/-!
# The local metadata backend over its LRU cache

`MetaLocalBackend` (`meta/meta_local_backend.cc`) keeps every key in an LRU
cache created with `strict_capacity_limit` and `no_evict_on_insert`
(`common/cache/lru_cache.cc`). Under these two flags an insert that would
exceed the capacity of its shard is refused with `EC_NOSPC`, a charge may grow
in place past the capacity, and neither an insert nor a release evicts. The
order of the LRU list and the access times are left out: no function here reads
them.

A handle pins an entry: `refs` counts the references held outside the cache.
The batch writes differ in how they look their keys up and for how long they
hold the handles. None of this shows in the end. The results of this file say
so: `upsert` and `upsertSingleLocationsUsingRetainedHandlesInto` are the same
loop over the keys, `upsertSlot`, in request order.
-/

namespace TairKvCache

open Function Lib List

/-! ## Charges -/

/-- The `sizeof` constants of the charge estimate, and the metadata charge of
one LRU handle. -/
structure MemLayout where
  pointer : Nat
  item : Nat
  locationPtr : Nat
  location : Nat
  spec : Nat
  handle : Nat

namespace MemLayout

variable (ly : MemLayout)

/-- `CacheLocation::EstimateMemUsage`. -/
def estimateMemUsage (l : CacheLocation) : Nat :=
  ly.location + l.id.utf8ByteSize
    + (l.locationSpecs.map fun s => ly.spec + s.name.utf8ByteSize + s.uri.utf8ByteSize).sum

def estimateLocationEntryUsage (id : LocationId) (l : CacheLocation) : Nat :=
  ly.pointer * 4 + id.utf8ByteSize + ly.locationPtr + ly.estimateMemUsage l

def propertyUsage (name value : String) : Nat :=
  ly.pointer * 4 + name.utf8ByteSize + value.utf8ByteSize

/-- `MetaMemCacheItem::Size`. -/
def size (e : KeyEntry) : Nat :=
  ly.item + (e.locations.entries.map fun p => ly.estimateLocationEntryUsage p.1 p.2).sum
    + (e.properties.entries.map fun p => ly.propertyUsage p.1 p.2).sum

/-- What writing one location adds to the charge of its entry. -/
def locationDelta (m : CacheLocationMap) (id : LocationId) (l : CacheLocation) : Int :=
  match m.lookup id with
  | some old => (ly.estimateMemUsage l : Int) - ly.estimateMemUsage old
  | none => ly.estimateLocationEntryUsage id l

def propertyDelta (m : PropertyMap) (name value : String) : Int :=
  match m.lookup name with
  | some old => (value.utf8ByteSize : Int) - old.utf8ByteSize
  | none => ly.propertyUsage name value

/-- Write every location of `upd`, adding up the deltas. -/
def updateLocations (m upd : CacheLocationMap) : CacheLocationMap × Int :=
  upd.entries.foldl (fun acc p =>
    (acc.1.insert p.1 p.2, acc.2 + ly.locationDelta acc.1 p.1 p.2)) (m, 0)

def updateProperties (m upd : PropertyMap) : PropertyMap × Int :=
  upd.entries.foldl (fun acc p =>
    (acc.1.insert p.1 p.2, acc.2 + ly.propertyDelta acc.1 p.1 p.2)) (m, 0)

theorem updateLocations_single (m : CacheLocationMap) (id : LocationId) (l : CacheLocation) :
    ly.updateLocations m ((∅ : CacheLocationMap).insert id l)
      = (m.insert id l, ly.locationDelta m id l) := by
  simp [updateLocations]

theorem updateProperties_empty (m : PropertyMap) : ly.updateProperties m ∅ = (m, 0) := rfl

end MemLayout

/-! ## The cache -/

structure LruItem where
  entry : KeyEntry
  totalCharge : Nat

/-- `capacity` is that of one shard; `usage` is kept by shard. -/
structure LruCache where
  layout : MemLayout
  shardOf : KeyType → Nat
  capacity : Nat
  table : AList (fun _ : KeyType => LruItem)
  refs : KeyType → Nat
  usage : Nat → Nat

/-- A `Cache::Handle`; a null handle is `none`. -/
abbrev LruHandle := Option KeyType

variable {f : KeyType → Nat} {hs : List LruHandle} {c : LruCache} {k : KeyType}
    {keys : List KeyType}

namespace LruCache

def has (c : LruCache) (k : KeyType) : Bool := (c.table.lookup k).isSome

/-- `Lookup`: a hit takes a reference. -/
def lookup (c : LruCache) (k : KeyType) : LruCache × LruHandle :=
  if c.has k then ({ c with refs := update c.refs k (c.refs k + 1) }, some k)
  else (c, none)

/-- `Release`. Without eviction on insert the last reference only puts the
entry back on the LRU list. -/
def release (c : LruCache) : LruHandle → LruCache
  | none => c
  | some k => { c with refs := update c.refs k (c.refs k - 1) }

def lookupBatch (c : LruCache) (keys : List KeyType) : LruCache × List LruHandle :=
  runSlots lookup c keys

def releaseBatch (c : LruCache) (hs : List LruHandle) : LruCache := hs.foldl release c

/-- The charge an insert frees: that of an unreferenced entry it replaces. -/
def freedCharge (c : LruCache) (k : KeyType) : Nat :=
  match c.table.lookup k with
  | some old => if c.refs k = 0 then old.totalCharge else 0
  | none => 0

/-- `Insert` with a handle for the caller, who holds the only reference. -/
def insert (c : LruCache) (k : KeyType) (e : KeyEntry) (charge : Nat) :
    LruCache × ErrorCode :=
  let total := charge + c.layout.handle
  let shard := c.shardOf k
  if c.capacity < c.usage shard + total then (c, .nospc)
  else
    ({ c with
        table := c.table.insert k ⟨e, total⟩
        refs := update c.refs k 1
        usage := update c.usage shard (c.usage shard + total - c.freedCharge k) }, .ok)

/-- `AdjustCharge` of the entry `it` stored under `k`. -/
def adjustCharge (c : LruCache) (k : KeyType) (it : LruItem) (delta : Int) : LruCache :=
  let shard := c.shardOf k
  if 0 < delta then
    { c with
        table := c.table.insert k { it with totalCharge := it.totalCharge + delta.toNat }
        usage := update c.usage shard (c.usage shard + delta.toNat) }
  else
    let decrease := min (min (-delta).toNat it.totalCharge) (c.usage shard)
    { c with
        table := c.table.insert k { it with totalCharge := it.totalCharge - decrease }
        usage := update c.usage shard (c.usage shard - decrease) }

/-! ## The backend's writes of one key -/

def createAndInsert (c : LruCache) (k : KeyType) (locs : CacheLocationMap) (props : PropertyMap) :
    LruCache × ErrorCode :=
  let r := c.insert k ⟨locs, props⟩ (c.layout.size ⟨locs, props⟩)
  if r.2 = .ok then (r.1.release (some k), .ok) else r

def createAndInsertSingleLocation (c : LruCache) (k : KeyType) (id : LocationId)
    (l : CacheLocation) : LruCache × ErrorCode :=
  let e : KeyEntry := ⟨(∅ : CacheLocationMap).insert id l, ∅⟩
  let r := c.insert k e (c.layout.size e)
  if r.2 = .ok then (r.1.release (some k), .ok) else r

/-- A handle keeps its entry in the table, so the last case does not occur. -/
def updateHandleInPlace (c : LruCache) (k : KeyType) (locs : CacheLocationMap)
    (props : PropertyMap) : LruCache :=
  match c.table.lookup k with
  | some it =>
    let ls := c.layout.updateLocations it.entry.locations locs
    let ps := c.layout.updateProperties it.entry.properties props
    c.adjustCharge k { it with entry := ⟨ls.1, ps.1⟩ } (ls.2 + ps.2)
  | none => c

/-- `UpdateHandleInPlaceSingleLocation`: an entry with one location is
compared directly, any other is searched. -/
def updateHandleInPlaceSingleLocation (c : LruCache) (k : KeyType) (id : LocationId)
    (l : CacheLocation) : LruCache :=
  match c.table.lookup k with
  | some it =>
    c.adjustCharge k { it with entry := { it.entry with
      locations := it.entry.locations.insert id l } }
      (c.layout.locationDelta it.entry.locations id l)
  | none => c

def upsertForOneKey (c : LruCache) (it : UpsertItem) : LruCache × ErrorCode :=
  match c.lookup it.key with
  | (c', some k) =>
    ((c'.updateHandleInPlace k it.locations it.properties).release (some k), .ok)
  | (_, none) => c.createAndInsert it.key it.locations it.properties

/-- One key of a batch whose handles were looked up before. -/
def writeWithHandle (c : LruCache) (p : UpsertItem × LruHandle) : LruCache × ErrorCode :=
  match p.2 with
  | some k => (c.updateHandleInPlace k p.1.locations p.1.properties, .ok)
  | none => c.createAndInsert p.1.key p.1.locations p.1.properties

/-! ## `Upsert` -/

/-- `Upsert`. Keys that repeat are merged one by one. Distinct keys are looked
up together; when some are there and some are not, each handle is released at
its own place in the request. -/
def upsert (c : LruCache) (items : List UpsertItem) : LruCache × List ErrorCode :=
  if (items.map (·.key)).Nodup then
    let found := c.lookupBatch (items.map (·.key))
    let missing := found.2.count none
    if 0 < missing ∧ missing < found.2.length then
      runSlots (fun c p => (((c.writeWithHandle p).1.release p.2), (c.writeWithHandle p).2))
        found.1 (items.zip found.2)
    else if missing = 0 then
      let r := runSlots writeWithHandle found.1 (items.zip found.2)
      (r.1.releaseBatch found.2, r.2)
    else
      runSlots (fun c it => c.createAndInsert it.key it.locations it.properties) found.1 items
  else runSlots upsertForOneKey c items

/-! ## The single-location reads and writes -/

/-- `SingleLocationRmwScratch` between the read and the write. -/
structure Scratch where
  keyViews : List KeyType
  handles : List LruHandle

/-- The location stored under `k` and `id`, as both reads find it. -/
def locationOf (c : LruCache) (k : KeyType) (id : LocationId) : Option CacheLocation :=
  (c.table.lookup k).bind fun it => it.entry.locations.lookup id

def readLocation (c : LruCache) (k : KeyType) (id : LocationId) : LocationRead :=
  match c.locationOf k id with
  | some l => (.ok, some l)
  | none => (.noent, none)

/-- The key status both reads report, from the handle. -/
def keyStatus (h : LruHandle) : ErrorCode := if h.isSome then .ok else .noent

/-- `GetLocationsWithKeyStatus`: the handles are released before it returns. -/
def getLocationsWithKeyStatus (c : LruCache) (keys : List KeyType)
    (ids : List (List LocationId)) : LruCache × List (ErrorCode × List LocationRead) :=
  let found := c.lookupBatch keys
  (found.1.releaseBatch found.2,
    List.zipWith (fun (p : KeyType × List LocationId) h =>
      (keyStatus h, p.2.map (found.1.readLocation p.1))) (keys.zip ids) found.2)

/-- `GetSingleLocationViewsWithKeyStatusInto`: the handles are retained. -/
def getSingleLocationViewsWithKeyStatusInto (c : LruCache) (keys : List KeyType)
    (ids : List LocationId) : LruCache × Scratch × List (ErrorCode × LocationRead) :=
  let found := c.lookupBatch keys
  (found.1, ⟨keys, found.2⟩,
    List.zipWith (fun (p : KeyType × LocationId) h =>
      (keyStatus h, found.1.readLocation p.1 p.2)) (keys.zip ids) found.2)

structure SingleUpsert where
  key : KeyType
  locationId : LocationId
  location : CacheLocation
  readIndex : Nat

/-- The argument checks: read indices that grow and point at the key, and
locations that carry their id. -/
def retainedOk (s : Scratch) (qs : List SingleUpsert) : Bool :=
  (qs.map (·.readIndex)).Pairwise (· < ·) &&
    qs.all fun q => s.keyViews[q.readIndex]? = some q.key && q.readIndex < s.handles.length
      && q.location.id = q.locationId

/-- Release the handles that no request selects. `sel` are the selected
positions still to come, `i` is the position of the first handle. -/
def releaseUnselected : List Nat → Nat → LruCache → List LruHandle → LruCache × List LruHandle
  | _, _, c, [] => (c, [])
  | sel, i, c, h :: hs =>
    if sel.head? = some i then
      let r := releaseUnselected sel.tail (i + 1) c hs
      (r.1, h :: r.2)
    else
      let r := releaseUnselected sel (i + 1) (c.release h) hs
      (r.1, none :: r.2)

def writeRetained (hs : List LruHandle) (c : LruCache) (q : SingleUpsert) :
    LruCache × ErrorCode :=
  match hs.getD q.readIndex none with
  | some k => (c.updateHandleInPlaceSingleLocation k q.locationId q.location, .ok)
  | none => c.createAndInsertSingleLocation q.key q.locationId q.location

def upsertSingleLocationsUsingRetainedHandlesInto (c : LruCache) (s : Scratch)
    (qs : List SingleUpsert) : LruCache × List ErrorCode :=
  if qs.isEmpty then (c.releaseBatch s.handles, [])
  else if !retainedOk s qs then (c.releaseBatch s.handles, qs.map fun _ => .badargs)
  else
    let kept := releaseUnselected (qs.map (·.readIndex)) 0 c s.handles
    let r := runSlots (writeRetained kept.2) kept.1 qs
    (r.1.releaseBatch kept.2, r.2)

/-! ## References

`c.addRefs f` is `c` with `f k` more references to each key `k`. -/

def addRefs (c : LruCache) (f : KeyType → Nat) : LruCache :=
  { c with refs := fun k => c.refs k + f k }

@[simp] theorem addRefs_zero (c : LruCache) : c.addRefs (fun _ => 0) = c := rfl

@[simp] theorem has_addRefs (c : LruCache) (f : KeyType → Nat) (k : KeyType) :
    (c.addRefs f).has k = c.has k := rfl

def held (hs : List LruHandle) (k : KeyType) : Nat := hs.count (some k)

def hits (c : LruCache) (keys : List KeyType) : List LruHandle :=
  keys.map fun k => if c.has k then some k else none

theorem lookup_addRefs (c : LruCache) (f : KeyType → Nat) (k : KeyType) : (c.addRefs f).lookup k
      = (c.addRefs (fun k' => f k' + held [if c.has k then some k else none] k'),
        if c.has k then some k else none) := by
  unfold lookup
  rw [has_addRefs]
  by_cases h : c.has k
  · rw [if_pos h, if_pos h]
    refine Prod.ext (congrArg (fun r => ({ c with refs := r } : LruCache)) (funext fun k' => ?_)) rfl
    rcases eq_or_ne k' k with rfl | hk
    · simp [addRefs, held, Nat.add_assoc]
    · simp [addRefs, held, update_of_ne hk, Ne.symm hk]
  · rw [if_neg h, if_neg h]
    rfl

theorem lookupBatch_addRefs (c : LruCache) (f : KeyType → Nat) (keys : List KeyType) :
    (c.addRefs f).lookupBatch keys
      = (c.addRefs (fun k => f k + held (c.hits keys) k), c.hits keys) := by
  induction keys generalizing f with
  | nil => simp [lookupBatch, hits, held]
  | cons k keys ih =>
    have hrest := ih fun k' => f k' + held [if c.has k then some k else none] k'
    rw [lookupBatch] at hrest ⊢
    rw [runSlots_cons, lookup_addRefs, hrest]
    refine Prod.ext ?_ rfl
    simp only [hits, map_cons, held, count_cons, count_nil]
    congr 1
    funext k'
    omega

theorem lookupBatch_eq (c : LruCache) (keys : List KeyType) :
    c.lookupBatch keys = (c.addRefs (held (c.hits keys)), c.hits keys) := by
  have h := c.lookupBatch_addRefs (fun _ => 0) keys
  simpa using h

theorem release_addRefs (c : LruCache) {h : LruHandle} (hf : ∀ k, held [h] k ≤ f k) :
    (c.addRefs f).release h = c.addRefs (fun k => f k - held [h] k) := by
  cases h with
  | none => simp [release, held]
  | some k =>
    simp only [release, addRefs, LruCache.mk.injEq, true_and, and_true]
    funext k'
    rcases eq_or_ne k' k with rfl | hk
    · have hpos := hf k'
      simp only [held, count_cons_self, count_nil, Nat.zero_add] at hpos ⊢
      rw [update_self]
      omega
    · simp [update_of_ne hk, held, Ne.symm hk]

theorem held_cons (h : LruHandle) (hs : List LruHandle) (k : KeyType) :
    held (h :: hs) k = held [h] k + held hs k := by
  simp only [held, count_cons, count_nil]
  omega

theorem releaseBatch_addRefs (c : LruCache) (hf : ∀ k, held hs k ≤ f k) :
    (c.addRefs f).releaseBatch hs = c.addRefs (fun k => f k - held hs k) := by
  induction hs generalizing f with
  | nil => simp [releaseBatch, held]
  | cons h hs ih =>
    have hsplit := held_cons h hs
    rw [releaseBatch, foldl_cons, release_addRefs c fun k => by
      have := hf k; rw [hsplit] at this; omega]
    have hrest := ih (f := fun k => f k - held [h] k) fun k => by
      have := hf k; rw [hsplit] at this; omega
    rw [releaseBatch] at hrest
    rw [hrest]
    congr 1
    funext k
    rw [hsplit, Nat.sub_sub]

theorem releaseBatch_held (c : LruCache) (hs : List LruHandle) :
    (c.addRefs (held hs)).releaseBatch hs = c := by
  rw [releaseBatch_addRefs c fun _ => le_rfl]
  simp

theorem held_hits_of_missing (h : c.has k = false) (keys : List KeyType) :
    held (c.hits keys) k = 0 := by
  refine count_eq_zero.mpr fun hmem => ?_
  obtain ⟨k', -, heq⟩ := mem_map.mp hmem
  split at heq
  · rename_i hhas
    obtain rfl : k' = k := Option.some.inj heq
    rw [hhas] at h
    cases h
  · cases heq

/-! ## One key, whoever holds references -/

/-- The write of one key: in place when it is there, an insert when not. -/
def upsertSlot (c : LruCache) (it : UpsertItem) : LruCache × ErrorCode :=
  if c.has it.key then (c.updateHandleInPlace it.key it.locations it.properties, .ok)
  else c.createAndInsert it.key it.locations it.properties

theorem adjustCharge_addRefs (c : LruCache) (f : KeyType → Nat) (k : KeyType) (it : LruItem)
    (delta : Int) : (c.addRefs f).adjustCharge k it delta
      = (c.adjustCharge k it delta).addRefs f := by
  unfold adjustCharge
  by_cases h : 0 < delta
  · rw [if_pos h, if_pos h]
    rfl
  · rw [if_neg h, if_neg h]
    rfl

theorem updateHandleInPlace_addRefs (c : LruCache) (f : KeyType → Nat) (k : KeyType)
    (locs : CacheLocationMap) (props : PropertyMap) : (c.addRefs f).updateHandleInPlace k locs props
      = (c.updateHandleInPlace k locs props).addRefs f := by
  have htable : (c.addRefs f).table = c.table := rfl
  unfold updateHandleInPlace
  rw [htable]
  cases c.table.lookup k with
  | none => rfl
  | some it => exact adjustCharge_addRefs c f k _ _

/-- An insert takes no notice of references to other keys. -/
theorem createAndInsert_addRefs (habs : c.has k = false) (hf : f k = 0) (locs : CacheLocationMap)
    (props : PropertyMap) : (c.addRefs f).createAndInsert k locs props
      = ((c.createAndInsert k locs props).1.addRefs f, (c.createAndInsert k locs props).2) := by
  have hnone : c.table.lookup k = none := by simpa [has] using habs
  have hfreed : c.freedCharge k = 0 := by simp [freedCharge, hnone]
  have hfreed' : (c.addRefs f).freedCharge k = 0 := by
    unfold freedCharge
    rw [show (c.addRefs f).table = c.table from rfl, hnone]
  simp only [createAndInsert, insert, hfreed, hfreed']
  by_cases hcap : c.capacity < c.usage (c.shardOf k) + (c.layout.size ⟨locs, props⟩ + c.layout.handle)
  · simp [addRefs, hcap]
  · simp only [addRefs, hcap, if_false, if_true, release, Prod.mk.injEq, and_true,
      LruCache.mk.injEq, true_and]
    funext k'
    rcases eq_or_ne k' k with rfl | hk
    · simp [hf]
    · simp [update_of_ne hk]

theorem has_updateHandleInPlace (c : LruCache) (k k' : KeyType) (locs : CacheLocationMap)
    (props : PropertyMap) : (c.updateHandleInPlace k locs props).has k' = c.has k' := by
  unfold updateHandleInPlace
  cases hk : c.table.lookup k with
  | none => rfl
  | some it =>
    simp only [adjustCharge]
    rcases eq_or_ne k' k with rfl | heq
    · split <;> simp [has, hk]
    · split <;> simp [has, AList.lookup_insert_ne heq]

theorem has_createAndInsert_ne (c : LruCache) {k' : KeyType} (hne : k' ≠ k)
    (locs : CacheLocationMap) (props : PropertyMap) :
    (c.createAndInsert k locs props).1.has k' = c.has k' := by
  simp only [createAndInsert, insert]
  split_ifs with hcap hok hok
  · cases hok
  · rfl
  · simp [release, has, AList.lookup_insert_ne hne]
  · exact absurd rfl hok

theorem has_upsertSlot_ne (c : LruCache) (it : UpsertItem) (hne : k ≠ it.key) :
    (c.upsertSlot it).1.has k = c.has k := by
  unfold upsertSlot
  split
  · exact has_updateHandleInPlace c _ _ _ _
  · exact has_createAndInsert_ne c hne _ _

/-- With the handle its key has, a write is the write of one key, beside all
the references. -/
theorem writeWithHandle_addRefs {it : UpsertItem} (hf : c.has it.key = false → f it.key = 0) :
    (c.addRefs f).writeWithHandle (it, if c.has it.key then some it.key else none)
      = ((c.upsertSlot it).1.addRefs f, (c.upsertSlot it).2) := by
  unfold writeWithHandle upsertSlot
  cases hhas : c.has it.key with
  | true => simp [updateHandleInPlace_addRefs]
  | false => simpa using createAndInsert_addRefs hhas (hf hhas) it.locations it.properties

/-! ## The batches are loops over the keys -/

variable {p : UpsertItem × LruHandle} {ps : List (UpsertItem × LruHandle)}

/-- The keys are distinct, and each handle is the one its key has. -/
def Handled (c : LruCache) (ps : List (UpsertItem × LruHandle)) : Prop :=
  (ps.map (·.1.key)).Nodup ∧ ∀ p ∈ ps, p.2 = if c.has p.1.key then some p.1.key else none

theorem Handled.has_eq (h : Handled c (p :: ps)) :
    ∀ q ∈ ps, (c.upsertSlot p.1).1.has q.1.key = c.has q.1.key := by
  intro q hq
  refine has_upsertSlot_ne c p.1 fun heq => (nodup_cons.mp h.1).1 ?_
  exact mem_map.mpr ⟨q, hq, heq⟩

theorem Handled.tail (h : Handled c (p :: ps)) : Handled (c.upsertSlot p.1).1 ps := by
  refine ⟨(nodup_cons.mp h.1).2, fun q hq => ?_⟩
  rw [h.has_eq q hq]
  exact h.2 q (mem_cons_of_mem _ hq)

theorem Handled.head (h : Handled c (p :: ps)) (hf : c.has p.1.key = false → f p.1.key = 0) :
    (c.addRefs f).writeWithHandle p = ((c.upsertSlot p.1).1.addRefs f, (c.upsertSlot p.1).2) := by
  have hhead := writeWithHandle_addRefs hf
  rwa [← h.2 p mem_cons_self] at hhead

theorem Handled.holding (h : Handled c ps)
    (hf : ∀ p ∈ ps, c.has p.1.key = false → f p.1.key = 0) :
    runSlots writeWithHandle (c.addRefs f) ps
      = ((runSlots upsertSlot c (ps.map (·.1))).1.addRefs f,
        (runSlots upsertSlot c (ps.map (·.1))).2) := by
  induction ps generalizing c with
  | nil => rfl
  | cons p ps ih =>
    have hrest := ih h.tail fun q hq habs =>
      hf q (mem_cons_of_mem _ hq) (h.has_eq q hq ▸ habs)
    rw [runSlots_cons, h.head (hf p mem_cons_self), map_cons, runSlots_cons]
    simp only [hrest]

theorem Handled.releasing (h : Handled c ps) :
    runSlots (fun c p => (((c.writeWithHandle p).1.release p.2), (c.writeWithHandle p).2))
        (c.addRefs (held (ps.map (·.2)))) ps
      = runSlots upsertSlot c (ps.map (·.1)) := by
  induction ps generalizing c with
  | nil => rfl
  | cons p ps ih =>
    have hfree : c.has p.1.key = false → held (p.2 :: ps.map (·.2)) p.1.key = 0 := by
      refine fun habs => count_eq_zero.mpr fun hmem => ?_
      obtain ⟨q, hq, hkey⟩ := mem_map.mp (show _ ∈ (p :: ps).map (·.2) from hmem)
      have hown := (h.2 q hq).symm.trans hkey
      split_ifs at hown with hhas
      rw [Option.some.inj hown, habs] at hhas
      cases hhas
    have hrel := (c.upsertSlot p.1).1.release_addRefs (h := p.2)
      (f := held (p.2 :: ps.map (·.2))) fun k => by
        rw [held_cons p.2 (ps.map _)]; exact Nat.le_add_right ..
    have hcount : (fun k => held (p.2 :: ps.map (·.2)) k - held [p.2] k)
        = held (ps.map (·.2)) := by
      funext k
      rw [held_cons, Nat.add_sub_cancel_left]
    rw [map_cons, map_cons, runSlots_cons, h.head hfree, runSlots_cons]
    simp only [hrel, hcount, ih h.tail]

theorem upsertForOneKey_eq (c : LruCache) (it : UpsertItem) :
    c.upsertForOneKey it = c.upsertSlot it := by
  have hlook := c.lookup_addRefs (fun _ => 0) it.key
  rw [addRefs_zero] at hlook
  unfold upsertForOneKey upsertSlot
  rw [hlook]
  cases hhas : c.has it.key with
  | false => simp
  | true =>
    simp only [if_true, updateHandleInPlace_addRefs, Nat.zero_add]
    rw [release_addRefs _ fun _ => le_rfl]
    simp

theorem upsert_eq (c : LruCache) (items : List UpsertItem) :
    c.upsert items = runSlots upsertSlot c items := by
  have hzip : items.zip (c.hits (items.map (·.key)))
      = items.map fun it => (it, if c.has it.key then some it.key else none) := by
    rw [hits, map_map]
    exact map_prod_left_eq_zip.symm
  unfold upsert
  split
  · rename_i hnd
    have hh : Handled c (items.zip (c.hits (items.map (·.key)))) := by
      rw [hzip, Handled, map_map]
      exact ⟨hnd, forall_mem_map.mpr fun _ _ => rfl⟩
    have hitems : (items.zip (c.hits (items.map (·.key)))).map (·.1) = items :=
      map_fst_zip (by simp [hits])
    have hhits : (items.zip (c.hits (items.map (·.key)))).map (·.2) = c.hits (items.map (·.key)) :=
      map_snd_zip (by simp [hits])
    rw [lookupBatch_eq]
    dsimp only
    split
    · have hloop := hh.releasing
      rwa [hhits, hitems] at hloop
    · split
      · rw [hh.holding fun p _ habs => held_hits_of_missing habs _, hitems, releaseBatch_held]
      · -- every handle is null, so nothing is held
        rename_i hmixed hmiss
        have hall : ∀ h ∈ c.hits (items.map (·.key)), none = h := by
          refine count_eq_length.mp ?_
          have hle := count_le_length (a := none) (l := c.hits (items.map (·.key)))
          omega
        have hheld : held (c.hits (items.map (·.key))) = fun _ => 0 := by
          funext k
          refine count_eq_zero.mpr fun hmem => ?_
          cases hall _ hmem
        have hloop := hh.holding (f := fun _ => 0) fun _ _ _ => rfl
        have hnull : items.zip (c.hits (items.map (·.key))) = items.map (·, none) := by
          rw [hzip]
          refine map_congr_left fun it hit => Prod.ext rfl (hall _ ?_).symm
          exact mem_map.mpr ⟨it.key, mem_map_of_mem hit, rfl⟩
        rw [hitems, hnull, runSlots_map] at hloop
        rw [hheld]
        exact hloop
  · congr 1
    funext c it
    exact c.upsertForOneKey_eq it

/-! ## The write with retained handles -/

/-- The handles that stay are those the requests select. -/
theorem releaseUnselected_addRefs (c : LruCache) {sel : List Nat} (hsel : sel.Pairwise (· < ·))
    {i : Nat} (hi : ∀ x ∈ sel, i ≤ x) (hs : List LruHandle) (g : KeyType → Nat) :
    ∃ kept, releaseUnselected sel i (c.addRefs fun k => held hs k + g k) hs
        = (c.addRefs fun k => held kept k + g k, kept) ∧
      (∀ k, held kept k ≤ held hs k) ∧
      ∀ x ∈ sel, kept.getD (x - i) none = hs.getD (x - i) none := by
  induction hs generalizing sel i g with
  | nil => exact ⟨[], rfl, fun _ => le_rfl, fun _ _ => rfl⟩
  | cons h hs ih =>
    have hshift : ∀ {x : Nat}, i + 1 ≤ x → ∀ {h' : LruHandle} {kept : List LruHandle},
        kept.getD (x - (i + 1)) none = hs.getD (x - (i + 1)) none →
        (h' :: kept).getD (x - i) none = (h :: hs).getD (x - i) none := by
      intro x hx h' kept hget
      rwa [show x - i = x - (i + 1) + 1 by omega, getD_cons_succ, getD_cons_succ]
    unfold releaseUnselected
    split
    · -- the reference of a selected handle joins those of the others
      rename_i hhead
      obtain ⟨rest, rfl⟩ := head?_eq_some_iff.mp hhead
      obtain ⟨hlt, hrest⟩ := pairwise_cons.mp hsel
      have hsum : (fun k => held (h :: hs) k + g k)
          = fun k => held hs k + (held [h] k + g k) := by
        funext k
        rw [held_cons]
        omega
      obtain ⟨kept, heq, hle, hget⟩ := ih hrest hlt fun k => held [h] k + g k
      refine ⟨h :: kept, ?_, fun k => ?_, fun x hx => ?_⟩
      · rw [hsum, tail_cons, heq]
        refine Prod.ext (congrArg c.addRefs (funext fun k => ?_)) rfl
        rw [held_cons h kept]
        omega
      · rw [held_cons h kept, held_cons h hs]
        exact Nat.add_le_add_left (hle k) _
      · rcases mem_cons.mp hx with rfl | hx
        · rw [Nat.sub_self]
          rfl
        · exact hshift (hlt x hx) (hget x hx)
    · rename_i hhead
      have hi' : ∀ x ∈ sel, i + 1 ≤ x := by
        intro x hx
        cases sel with
        | nil => cases hx
        | cons a rest =>
          have hne : a ≠ i := fun heq => hhead (congrArg some heq)
          have hai := hi a mem_cons_self
          rcases mem_cons.mp hx with rfl | hx
          · omega
          · have := (pairwise_cons.mp hsel).1 x hx
            omega
      have hrel := c.release_addRefs (h := h) (f := fun k => held (h :: hs) k + g k) fun k => by
        rw [held_cons h hs]; omega
      have hrest : (fun k => held (h :: hs) k + g k - held [h] k) = fun k => held hs k + g k := by
        funext k
        rw [held_cons h hs]
        omega
      obtain ⟨kept, heq, hle, hget⟩ := ih hsel hi' g
      have hnone : ∀ k, held (none :: kept) k = held kept k := fun k => by simp [held]
      refine ⟨none :: kept, ?_, fun k => ?_, fun x hx => hshift (hi' x hx) (hget x hx)⟩
      · rw [hrel, hrest, heq]
        simp only [hnone]
      · rw [hnone, held_cons h hs]
        exact (hle k).trans (Nat.le_add_left ..)

/-- A single-location write is the write of a map with that one location. -/
def SingleUpsert.item (q : SingleUpsert) : UpsertItem :=
  ⟨q.key, (∅ : CacheLocationMap).insert q.locationId q.location, ∅⟩

theorem updateHandleInPlaceSingleLocation_eq (c : LruCache) (k : KeyType) (id : LocationId)
    (l : CacheLocation) : c.updateHandleInPlaceSingleLocation k id l
      = c.updateHandleInPlace k ((∅ : CacheLocationMap).insert id l) ∅ := by
  unfold updateHandleInPlaceSingleLocation updateHandleInPlace
  cases c.table.lookup k with
  | none => rfl
  | some it =>
    dsimp only
    rw [MemLayout.updateLocations_single, MemLayout.updateProperties_empty, Int.add_zero]

theorem writeRetained_eq (hs : List LruHandle) : writeRetained hs
      = fun c q => c.writeWithHandle (q.item, hs.getD q.readIndex none) := by
  funext c q
  unfold writeRetained writeWithHandle
  cases hs.getD q.readIndex none with
  | none => rfl
  | some k => exact Prod.ext (updateHandleInPlaceSingleLocation_eq c k _ _) rfl

theorem hits_getD {i : Nat} (h : keys[i]? = some k) :
    (c.hits keys).getD i none = if c.has k then some k else none := by
  rw [hits, getD_eq_getElem?_getD, getElem?_map, h]
  rfl

/-- The write with the handles its read retained is the loop over the keys,
and leaves no reference behind. -/
theorem upsertSingleLocationsUsingRetainedHandlesInto_eq (c : LruCache) {qs : List SingleUpsert}
    (hok : retainedOk ⟨keys, c.hits keys⟩ qs = true) (hnd : (qs.map (·.key)).Nodup) :
    (c.addRefs (held (c.hits keys))).upsertSingleLocationsUsingRetainedHandlesInto
        ⟨keys, c.hits keys⟩ qs
      = runSlots upsertSlot c (qs.map (·.item)) := by
  unfold upsertSingleLocationsUsingRetainedHandlesInto
  cases qs with
  | nil => exact Prod.ext (releaseBatch_held c _) rfl
  | cons q qs =>
    have hvalid := hok
    simp only [retainedOk, Bool.and_eq_true, decide_eq_true_eq, all_eq_true] at hvalid
    obtain ⟨kept, hkept, hle, hsel⟩ :=
      releaseUnselected_addRefs c hvalid.1 (fun _ _ => Nat.zero_le _) (c.hits keys) fun _ => 0
    simp only [Nat.add_zero] at hkept
    have hh : Handled c ((q :: qs).map fun q => (q.item, kept.getD q.readIndex none)) := by
      rw [Handled, map_map]
      refine ⟨hnd, forall_mem_map.mpr fun q' hq' => ?_⟩
      have hown := hsel q'.readIndex (mem_map_of_mem hq')
      rw [Nat.sub_zero, hits_getD (hvalid.2 q' hq').1.1] at hown
      exact hown
    have hloop := hh.holding (f := held kept) fun p _ habs =>
      Nat.le_zero.mp ((hle _).trans (held_hits_of_missing habs keys).le)
    rw [runSlots_map, ← writeRetained_eq, map_map] at hloop
    simp only [isEmpty_cons, Bool.false_eq_true, if_false, hok, Bool.not_true, hkept]
    rw [hloop, releaseBatch_held]
    rfl

end LruCache

end TairKvCache
