import TairKvCache.Types
import TairKvCache.Lib.FinMap

/-!
# One metadata backend

The per-key operations of the metadata backends (`meta_local_backend.cc`,
`meta_dummy_backend.cc`, `meta_redis_backend.cc`) over a finite map from
block keys to entries.

The three backends differ in one thing. The local and the dummy backend keep
a key whose last location was deleted, and report `EC_NOENT` for a location
delete under a missing key. A Redis hash without fields does not exist, so
there the key disappears with its last field, and `HDEL` under a missing key
is a success. Both differences are in `putEntry` and
`deleteLocationsForOneKey`.

What later proofs use is the *cell* view: `cell b k id` is the location
stored under key `k` and id `id`. Each operation has one lemma saying which
cells it changes, and the total weight of a store is a sum over its cells.
-/

namespace TairKvCache

open Lib

abbrev Store := AList (fun _ : KeyType => KeyEntry)

namespace Store

def cell (s : Store) (k : KeyType) (id : LocationId) : Option CacheLocation :=
  (s.lookup k).bind fun e => e.locations.lookup id

theorem cell_insert (s : Store) (k k' : KeyType) (e : KeyEntry) (id : LocationId) :
    cell (s.insert k e) k' id = if k' = k then e.locations.lookup id else s.cell k' id := by
  by_cases h : k' = k
  · subst h; simp [cell]
  · simp [cell, AList.lookup_insert_ne h, h]

theorem cell_erase (s : Store) (k k' : KeyType) (id : LocationId) :
    cell (s.erase k) k' id = if k' = k then none else s.cell k' id := by
  by_cases h : k' = k
  · subst h; simp [cell]
  · simp [cell, AList.lookup_erase_ne h, h]

theorem cell_of_lookup {s : Store} {k : KeyType} {e : KeyEntry}
    (h : s.lookup k = some e) (id : LocationId) : s.cell k id = e.locations.lookup id := by
  simp [cell, h]

theorem cell_of_none {s : Store} {k : KeyType} (h : s.lookup k = none)
    (id : LocationId) : s.cell k id = none := by
  simp [cell, h]

end Store

/-! ## Entries -/

namespace KeyEntry

def empty : KeyEntry := { locations := ∅, properties := ∅ }

def isEmpty (e : KeyEntry) : Bool :=
  e.locations.entries.isEmpty && e.properties.entries.isEmpty

def hasLocations (e : KeyEntry) : Bool := !e.locations.entries.isEmpty

/-- `UpdateHandleInPlace`: the named locations and properties are
overwritten, the others kept. -/
def update (e : KeyEntry) (locs : CacheLocationMap) (props : PropertyMap) : KeyEntry :=
  { locations := FinMap.insertAll e.locations locs
    properties := FinMap.insertAll e.properties props }

def eraseLocations (e : KeyEntry) (ids : List LocationId) : KeyEntry :=
  { e with locations := FinMap.eraseAll e.locations ids }

theorem locations_eq_empty {e : KeyEntry} (h : e.hasLocations = false) : e.locations = ∅ := by
  refine AList.ext ?_
  simpa [hasLocations] using h

theorem hasLocations_iff {e : KeyEntry} :
    e.hasLocations = true ↔ ∃ id l, e.locations.lookup id = some l := by
  constructor
  · intro h
    cases hl : e.locations.entries with
    | nil => simp [hasLocations, hl] at h
    | cons b rest =>
      refine ⟨b.1, b.2, ?_⟩
      rw [AList.lookup, hl]
      exact List.dlookup_cons_eq ..
  · rintro ⟨id, l, h⟩
    by_contra hne
    rw [locations_eq_empty (by simpa using hne)] at h
    cases h

theorem lookup_of_isEmpty {e : KeyEntry} (h : e.isEmpty = true) (id : LocationId) :
    e.locations.lookup id = none := by
  have hl : e.hasLocations = false := by
    simp only [isEmpty, Bool.and_eq_true] at h
    simp [hasLocations, h.1]
  rw [locations_eq_empty hl, AList.lookup_empty]

end KeyEntry

/-! ## The backend -/

inductive BackendKind where
  | localMem | dummy | redis
deriving DecidableEq, Repr

structure Backend where
  kind : BackendKind
  store : Store

namespace Backend

variable (b : Backend)

def cell (k : KeyType) (id : LocationId) : Option CacheLocation := b.store.cell k id

def has (k : KeyType) : Bool := (b.store.lookup k).isSome

/-- Store `e` under `k`. A Redis hash without fields is no key. -/
def putEntry (k : KeyType) (e : KeyEntry) : Backend :=
  if b.kind = .redis ∧ e.isEmpty then { b with store := b.store.erase k }
  else { b with store := b.store.insert k e }

/-- `CreateAndInsert`: the whole value of the key is replaced. -/
def putForOneKey (k : KeyType) (e : KeyEntry) : Backend × ErrorCode :=
  (b.putEntry k e, .ok)

/-- `UpsertForOneKey`: merge into the entry, creating it when absent. -/
def upsertForOneKey (k : KeyType) (locs : CacheLocationMap) (props : PropertyMap) :
    Backend × ErrorCode :=
  (b.putEntry k (((b.store.lookup k).getD KeyEntry.empty).update locs props), .ok)

def deleteForOneKey (k : KeyType) : Backend × ErrorCode :=
  if b.has k then ({ b with store := b.store.erase k }, .ok) else (b, .noent)

/-- `DeleteLocationsForOneKey`, and the empty list of ids that
`DeleteLocations` skips. A location that is not there is not an error. -/
def deleteLocationsForOneKey (k : KeyType) (ids : List LocationId) :
    Backend × ErrorCode :=
  if ids.isEmpty then (b, .ok)
  else match b.store.lookup k with
    | none => (b, if b.kind = .redis then .ok else .noent)
    | some e => (b.putEntry k (e.eraseLocations ids), .ok)

/-- `GetForOneKey` for the whole entry. -/
def getForOneKey (k : KeyType) : Option KeyEntry := b.store.lookup k

def getLocation (k : KeyType) (id : LocationId) : ErrorCode × Option CacheLocation :=
  match b.cell k id with
  | some l => (.ok, some l)
  | none => (.noent, none)

def getLocationIds (k : KeyType) : ErrorCode × List LocationId :=
  match b.store.lookup k with
  | some e => (.ok, e.locations.keys)
  | none => (.noent, [])

def existsLocation (k : KeyType) : ErrorCode × Bool :=
  match b.store.lookup k with
  | some e => (.ok, e.hasLocations)
  | none => (.noent, false)

/-! ## What the operations do to the cells -/

variable {b}

theorem cell_putEntry (k k' : KeyType) (e : KeyEntry) (id : LocationId) :
    (b.putEntry k e).cell k' id = if k' = k then e.locations.lookup id else b.cell k' id := by
  unfold putEntry
  split
  · rename_i h
    show Store.cell (b.store.erase k) k' id = _
    rw [Store.cell_erase, KeyEntry.lookup_of_isEmpty h.2]
    rfl
  · exact Store.cell_insert b.store k k' e id

theorem putEntry_kind (k : KeyType) (e : KeyEntry) : (b.putEntry k e).kind = b.kind := by
  unfold putEntry
  split <;> rfl

theorem lookup_putEntry_ne {k k' : KeyType} (h : k' ≠ k) (e : KeyEntry) :
    (b.putEntry k e).store.lookup k' = b.store.lookup k' := by
  unfold putEntry
  split
  · exact AList.lookup_erase_ne h
  · exact AList.lookup_insert_ne h

theorem cell_entry (k : KeyType) (id : LocationId) :
    ((b.store.lookup k).getD KeyEntry.empty).locations.lookup id = b.cell k id := by
  cases h : b.store.lookup k with
  | none => rw [cell, Store.cell_of_none h]; exact AList.lookup_empty id
  | some e => rw [cell, Store.cell_of_lookup h]; rfl

theorem cell_upsert (k k' : KeyType) (locs : CacheLocationMap) (props : PropertyMap)
    (id : LocationId) : (b.upsertForOneKey k locs props).1.cell k' id
      = if k' = k then (locs.lookup id).or (b.cell k id) else b.cell k' id := by
  rw [upsertForOneKey, cell_putEntry]
  simp only [KeyEntry.update, FinMap.lookup_insertAll, cell_entry]

theorem cell_deleteLocations (k k' : KeyType) (ids : List LocationId) (id : LocationId) :
    (b.deleteLocationsForOneKey k ids).1.cell k' id
      = if k' = k ∧ id ∈ ids then none else b.cell k' id := by
  unfold deleteLocationsForOneKey
  split
  · rename_i h
    obtain rfl : ids = [] := by simpa using h
    simp
  · split
    · rename_i h
      by_cases hk : k' = k ∧ id ∈ ids
      · rw [if_pos hk, hk.1]; exact Store.cell_of_none h id
      · rw [if_neg hk]
    · rename_i e h
      rw [cell_putEntry]
      rcases eq_or_ne k' k with rfl | hk
      · simp only [if_true, true_and, KeyEntry.eraseLocations, FinMap.lookup_eraseAll]
        rw [cell, Store.cell_of_lookup h]
      · simp [hk]

theorem cell_delete (k k' : KeyType) (id : LocationId) :
    (b.deleteForOneKey k).1.cell k' id = if k' = k then none else b.cell k' id := by
  unfold deleteForOneKey
  split
  · exact Store.cell_erase b.store k k' id
  · rename_i h
    have hnone : b.store.lookup k = none := by simpa [has] using h
    by_cases hk : k' = k
    · subst hk; rw [if_pos rfl]; exact Store.cell_of_none hnone id
    · rw [if_neg hk]

end Backend

end TairKvCache
