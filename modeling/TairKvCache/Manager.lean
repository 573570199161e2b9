import TairKvCache.Backend
import TairKvCache.Lib.Slots

/-!
# The two-layer backend manager

`MetaStorageBackendManager` (`meta/meta_storage_backend_manager.cc`): an
optional local hot cache over a persistent backend. Writes go to the
persistent layer first; the cache then repeats the slots the persistent layer
accepted. While the manager recovers (`kRecover`) the cache is incomplete:
field-level writes hydrate their keys first (`ensureKeyInCache`) and
whole-key deletes leave tombstones for the backfill.

The environment of a call is a `WriteFaults`: which slot of which backend call
fails, and how. A backend call that fails with `unacked` has been applied
although it reports an error; a `rejected` one has not. The codes `EC_OK` and
`EC_NOENT` are answers, not failures, so a `FaultCode` excludes them. The hot
cache is always a local backend, so its content is a plain `Store`. It fails
in one way only: an insert under the strict capacity limit (`EC_NOSPC`).

The size-mismatch branches of the source guard against a backend that returns
a result list of the wrong length. The modelled backends return one result
per slot, so these branches do not occur here.
-/

namespace TairKvCache

open Lib

/-! ## Faults -/

structure FaultCode where
  ec : ErrorCode
  ne_ok : ec ≠ .ok
  ne_noent : ec ≠ .noent

inductive Fault where
  | rejected (c : FaultCode)
  | unacked (c : FaultCode)

/-- The outcome of a backend write under a fault. -/
def Fault.apply (b : Backend) (r : Backend × ErrorCode) : Option Fault → Backend × ErrorCode
  | none => r
  | some (.rejected c) => (b, c.ec)
  | some (.unacked c) => (r.1, c.ec)

/-- The environment of one manager call. -/
structure WriteFaults where
  getEntry : Nat → Option FaultCode := fun _ => none
  put : Nat → Option Fault := fun _ => none
  upsert : Nat → Option Fault := fun _ => none
  deleteLocations : Nat → Option Fault := fun _ => none
  delete : Nat → Option Fault := fun _ => none
  existsLocation : Nat → Option FaultCode := fun _ => none
  getLocationIds : Nat → Option FaultCode := fun _ => none
  hydrateNospc : Nat → Bool := fun _ => false
  cacheNospc : Nat → Bool := fun _ => false

/-! ## Batches against one backend -/

structure PutItem where
  key : KeyType
  entry : KeyEntry

structure UpsertItem where
  key : KeyType
  locations : CacheLocationMap
  properties : PropertyMap

structure DeleteItem where
  key : KeyType
  ids : List LocationId
deriving DecidableEq

variable {α : Type} {op : Backend → α → Backend × ErrorCode} {P : Backend → Prop} {items : List α}
    {b : Backend} {i : Nat} {s : Store} (f : WriteFaults)

namespace Backend

/-- One batch call: slot `i` runs `op` under `faults i`. -/
def batch {α : Type} (op : Backend → α → Backend × ErrorCode) (faults : Nat → Option Fault)
    (b : Backend) (items : List α) : Backend × List ErrorCode :=
  runSlots (fun b p => Fault.apply b (op b p.1) (faults p.2)) b items.zipIdx

def putItem (b : Backend) (it : PutItem) : Backend × ErrorCode :=
  b.putForOneKey it.key it.entry

def upsertItem (b : Backend) (it : UpsertItem) : Backend × ErrorCode :=
  b.upsertForOneKey it.key it.locations it.properties

def deleteItem (b : Backend) (it : DeleteItem) : Backend × ErrorCode :=
  b.deleteLocationsForOneKey it.key it.ids

/-- A failed call either did nothing or did what the operation does. -/
theorem slot_inv (hop : ∀ b, ∀ it ∈ items, P b → P (op b it).1) (faults : Nat → Option Fault)
    (b : Backend) (p : α × Nat) (hp : p ∈ items.zipIdx) (hb : P b) :
    P (Fault.apply b (op b p.1) (faults p.2)).1 := by
  have hit : p.1 ∈ items := List.fst_mem_of_mem_zipIdx hp
  cases faults p.2 with
  | none => exact hop b p.1 hit hb
  | some f =>
    cases f with
    | rejected c => exact hb
    | unacked c => exact hop b p.1 hit hb

/-- A property every slot's operation keeps is kept under any faults. -/
theorem batch_inv (hop : ∀ b, ∀ it ∈ items, P b → P (op b it).1) (faults : Nat → Option Fault)
    (hb : P b) : P (batch op faults b items).1 :=
  runSlots_inv (slot_inv hop faults) hb

@[simp] theorem batch_length (op : Backend → α → Backend × ErrorCode) (faults : Nat → Option Fault)
    (b : Backend) (items : List α) : (batch op faults b items).2.length = items.length := by
  simp [batch]

/-- A slot that met no fault: its code is its operation's, run in a state
that still satisfies the invariant, and what the operation established there
survives the rest of the batch when every operation keeps it. -/
theorem batch_slot (op : Backend → α → Backend × ErrorCode)
    (hop : ∀ b, ∀ it ∈ items, P b → P (op b it).1) (faults : Nat → Option Fault) (hb : P b) {it : α}
    (hit : items[i]? = some it) (hfault : faults i = none) :
    ∃ t, P t ∧ (batch op faults b items).2[i]? = some (op t it).2
      ∧ ∀ Q : Backend → Prop, (∀ b, ∀ it ∈ items, Q b → Q (op b it).1) →
          Q (op t it).1 → Q (batch op faults b items).1 := by
  have hslot : items.zipIdx[i]? = some (it, i) := by simp [hit]
  obtain ⟨t, ht, hcode, hrest⟩ := runSlots_slot (slot_inv hop faults) hb hslot
  have happly : Fault.apply t (op t it) (faults i) = op t it := by rw [hfault]; rfl
  rw [happly] at hcode hrest
  refine ⟨t, ht, hcode, fun Q hQ h => ?_⟩
  rw [batch, hrest]
  exact runSlots_inv (fun s p hp => slot_inv hQ faults s p (List.mem_of_mem_drop hp)) h

theorem batch_faulted {faults : Nat → Option Fault} {fl : Fault} {e : ErrorCode}
    (hfault : faults i = some fl) (he : (batch op faults b items).2[i]? = some e) :
    e ≠ .ok ∧ e ≠ .noent := by
  have hlt : i < items.length := by simpa using (List.getElem?_eq_some_iff.mp he).1
  have hslot : items.zipIdx[i]? = some (items[i], i) := by simp [hlt]
  obtain ⟨t, -, hcode, -⟩ := runSlots_slot (P := fun _ => True) (fun _ _ _ _ => trivial)
    trivial hslot
  obtain rfl := Option.some.inj (hcode.symm.trans he)
  simp only [hfault]
  cases fl with
  | rejected c | unacked c => exact ⟨c.ne_ok, c.ne_noent⟩

end Backend

/-! ## The hot cache

A conditional write runs a slot only when the layer below accepted it, and
otherwise repeats that layer's code. -/

namespace Hot

def backend (s : Store) : Backend := { kind := .localMem, store := s }

def conditional {α : Type} (op : Store → α → Store × ErrorCode) (s : Store)
    (items : List α) (prev : List ErrorCode) : Store × List ErrorCode :=
  runSlots (fun s p => if p.2 = .ok then op s p.1 else (s, p.2)) s (items.zip prev)

def put (nospc : Nat → Bool) (s : Store) (p : PutItem × Nat) : Store × ErrorCode :=
  if nospc p.2 then (s, .nospc) else (s.insert p.1.key p.1.entry, .ok)

/-- `CreateAndInsertIfAbsent`. -/
def putIfAbsent (nospc : Nat → Bool) (s : Store) (p : PutItem × Nat) : Store × ErrorCode :=
  if (s.lookup p.1.key).isSome then (s, .exist) else put nospc s p

/-- An update of a cached key happens in place and cannot run out of space. -/
def upsert (nospc : Nat → Bool) (s : Store) (p : UpsertItem × Nat) : Store × ErrorCode :=
  if nospc p.2 ∧ s.lookup p.1.key = none then (s, .nospc)
  else
    let r := (backend s).upsertItem p.1
    (r.1.store, r.2)

def delete (s : Store) (k : KeyType) : Store × ErrorCode :=
  let r := (backend s).deleteForOneKey k
  (r.1.store, r.2)

def deleteLocations (s : Store) (it : DeleteItem) : Store × ErrorCode :=
  let r := (backend s).deleteItem it
  (r.1.store, r.2)

/-- `DeleteLocationsForMaintenance`: unlike the conditional writes, it also
runs the slots whose key the layer below no longer has. -/
def deleteLocationsForMaintenance (s : Store) (items : List DeleteItem)
    (prev : List ErrorCode) : Store × List ErrorCode :=
  runSlots (fun s p => if p.2 = .ok ∨ p.2 = .noent then deleteLocations s p.1 else (s, p.2))
    s (items.zip prev)

theorem conditional_step {op : Store → α → Store × ErrorCode} {P : Store → Prop}
    (hop : ∀ s, ∀ it ∈ items, P s → P (op s it).1) {prev : List ErrorCode} (s : Store)
    (p : α × ErrorCode) (hp : p ∈ items.zip prev) (hs : P s) :
    P (if p.2 = ErrorCode.ok then op s p.1 else (s, p.2)).1 := by
  split
  · exact hop s p.1 (List.of_mem_zip hp).1 hs
  · exact hs

theorem conditional_inv {op : Store → α → Store × ErrorCode} {P : Store → Prop}
    (hop : ∀ s, ∀ it ∈ items, P s → P (op s it).1) (prev : List ErrorCode) (hs : P s) :
    P (conditional op s items prev).1 :=
  runSlots_inv (conditional_step hop) hs

theorem conditional_slot (op : Store → α → Store × ErrorCode) {P : Store → Prop}
    (hop : ∀ s, ∀ it ∈ items, P s → P (op s it).1) {prev : List ErrorCode} (hs : P s) {it : α}
    (hit : items[i]? = some it) (hprev : prev[i]? = some .ok) :
    ∃ t, P t ∧ (conditional op s items prev).2[i]? = some (op t it).2
      ∧ ∀ Q : Store → Prop, (∀ s, ∀ it ∈ items, Q s → Q (op s it).1) →
          Q (op t it).1 → Q (conditional op s items prev).1 := by
  have hslot : (items.zip prev)[i]? = some (it, .ok) :=
    List.getElem?_zip_eq_some.mpr ⟨hit, hprev⟩
  obtain ⟨t, ht, hcode, hrest⟩ := runSlots_slot (conditional_step hop) hs hslot
  simp only [if_true] at hcode hrest
  refine ⟨t, ht, hcode, fun Q hQ h => ?_⟩
  rw [conditional, hrest]
  exact runSlots_inv (fun s p hp => conditional_step hQ s p (List.mem_of_mem_drop hp)) h

theorem conditional_skipped {op : Store → α → Store × ErrorCode} {prev : List ErrorCode} {it : α}
    {e : ErrorCode} (hit : items[i]? = some it) (he : prev[i]? = some e) (hne : e ≠ .ok) :
    (conditional op s items prev).2[i]? = some e := by
  have hslot : (items.zip prev)[i]? = some (it, e) := List.getElem?_zip_eq_some.mpr ⟨hit, he⟩
  obtain ⟨t, -, hcode, -⟩ := runSlots_slot (P := fun _ => True) (fun _ _ _ _ => trivial)
    trivial hslot
  exact hcode.trans (by rw [if_neg hne])

theorem cell_delete (s : Store) (k k' : KeyType) (id : LocationId) :
    (delete s k).1.cell k' id = if k' = k then none else s.cell k' id :=
  Backend.cell_delete (b := backend s) k k' id

theorem cell_deleteLocations (s : Store) (it : DeleteItem) (k : KeyType) (id : LocationId) :
    (deleteLocations s it).1.cell k id
      = if k = it.key ∧ id ∈ it.ids then none else s.cell k id :=
  Backend.cell_deleteLocations (b := backend s) it.key k it.ids id

/-- The local backend keeps a key whose last location is gone. -/
theorem isSome_deleteLocations (s : Store) (it : DeleteItem) (k : KeyType) :
    ((deleteLocations s it).1.lookup k).isSome = (s.lookup k).isSome := by
  unfold deleteLocations Backend.deleteItem Backend.deleteLocationsForOneKey
  simp only [backend]
  split
  · rfl
  · cases hl : s.lookup it.key with
    | none => rfl
    | some e =>
      by_cases hk : k = it.key
      · subst hk; simp [Backend.putEntry, hl]
      · simp [Backend.putEntry, AList.lookup_insert_ne hk]

theorem deleteLocations_code {it : DeleteItem} (h : (s.lookup it.key).isSome = true) :
    (deleteLocations s it).2 = .ok := by
  obtain ⟨e, he⟩ := Option.isSome_iff_exists.mp h
  unfold deleteLocations Backend.deleteItem Backend.deleteLocationsForOneKey
  simp only [backend, he]
  split <;> rfl

end Hot

/-! ## The manager -/

inductive RecoverState where
  | recover | running
deriving DecidableEq, Repr

structure Manager where
  persistent : Backend
  cache : Option Store
  recoverState : RecoverState
  deletedKeys : List KeyType

namespace Manager

/-- A single backend: no hot cache. -/
def single (b : Backend) : Manager :=
  { persistent := b, cache := none, recoverState := .running, deletedKeys := [] }

variable (m : Manager)

/-- `EnsureKeyInCache`: load the keys the cache misses from the persistent
layer, never over an entry that is already there. -/
def ensureKeyInCache (f : WriteFaults) (c : Store) (keys : List KeyType) : Store × Bool :=
  let missing := (keys.filter fun k => (c.lookup k).isNone).zipIdx
  let r := runSlots (fun c (p : KeyType × Nat) =>
    match f.getEntry p.2, m.persistent.getForOneKey p.1 with
    | some _, _ => (c, false)
    -- a key missing from both layers is new; the write itself creates it
    | none, none => (c, true)
    | none, some e =>
      let put := Hot.putIfAbsent f.hydrateNospc c (⟨p.1, e⟩, p.2)
      (put.1, put.2 = .ok ∨ put.2 = .exist)) c missing
  (r.1, r.2.all id)

/-- What a field-level write finds in the cache: hydrated in `kRecover`. -/
def hydrate (f : WriteFaults) (c : Store) (keys : List KeyType) : Store × Bool :=
  if m.recoverState = .recover then m.ensureKeyInCache f c keys else (c, true)

theorem ensureKeyInCache_lookup (c : Store) (keys : List KeyType) (k : KeyType) :
    (m.ensureKeyInCache f c keys).1.lookup k = c.lookup k
      ∨ (c.lookup k = none
          ∧ (m.ensureKeyInCache f c keys).1.lookup k = m.persistent.store.lookup k) := by
  unfold ensureKeyInCache
  refine runSlots_inv (P := fun s : Store => s.lookup k = c.lookup k
    ∨ (c.lookup k = none ∧ s.lookup k = m.persistent.store.lookup k)) ?_ (Or.inl rfl)
  rintro s ⟨k', i⟩ - hs
  simp only [Backend.getForOneKey]
  split
  · exact hs
  · exact hs
  · rename_i e he
    simp only [Hot.putIfAbsent, Hot.put]
    split
    · exact hs
    · split
      · exact hs
      · -- an insert: the key was in neither the old nor the current cache
        rename_i habs _
        rcases eq_or_ne k k' with rfl | hk
        · have hnone : s.lookup k = none := by simpa using habs
          rw [AList.lookup_insert]
          rcases hs with h | ⟨h, -⟩
          · exact Or.inr ⟨h ▸ hnone, he.symm⟩
          · exact Or.inr ⟨h, he.symm⟩
        · rw [AList.lookup_insert_ne hk]
          exact hs

/-- A hydrated cache holds, for each key, what it held before or else what
the persistent layer holds. -/
theorem hydrate_lookup (c : Store) (keys : List KeyType) (k : KeyType) :
    (m.hydrate f c keys).1.lookup k = c.lookup k
      ∨ (c.lookup k = none ∧ (m.hydrate f c keys).1.lookup k = m.persistent.store.lookup k) := by
  unfold hydrate
  split
  · exact m.ensureKeyInCache_lookup f c keys k
  · exact Or.inl rfl

theorem hydrate_of_some {c : Store} (keys : List KeyType) {k : KeyType} {e : KeyEntry}
    (h : c.lookup k = some e) : (m.hydrate f c keys).1.lookup k = some e := by
  rcases m.hydrate_lookup f c keys k with heq | ⟨hnone, -⟩
  · rw [heq, h]
  · rw [hnone] at h; cases h

theorem hydrate_noFault (c : Store) (keys : List KeyType) : (m.hydrate {} c keys).2 = true := by
  unfold hydrate ensureKeyInCache
  split
  · rw [List.all_eq_true]
    refine runSlots_forall (P := (· = true)) (fun s p _ => ?_) c
    simp only [Backend.getForOneKey, Hot.putIfAbsent, Hot.put]
    split
    · rename_i h; cases h
    · rfl
    · split <;> simp
  · rfl

def put (f : WriteFaults) (items : List PutItem) : Manager × List ErrorCode :=
  let r := Backend.batch Backend.putItem f.put m.persistent items
  match m.cache with
  | none => ({ m with persistent := r.1 }, r.2)
  | some c =>
    let rc := Hot.conditional (Hot.put f.cacheNospc) c items.zipIdx r.2
    ({ m with persistent := r.1, cache := some rc.1 }, rc.2)

def upsert (f : WriteFaults) (items : List UpsertItem) : Manager × List ErrorCode :=
  match m.cache with
  | none =>
    let r := Backend.batch Backend.upsertItem f.upsert m.persistent items
    ({ m with persistent := r.1 }, r.2)
  | some c =>
    let h := m.hydrate f c (items.map (·.key))
    if h.2 then
      let r := Backend.batch Backend.upsertItem f.upsert m.persistent items
      let rc := Hot.conditional (Hot.upsert f.cacheNospc) h.1 items.zipIdx r.2
      ({ m with persistent := r.1, cache := some rc.1 }, rc.2)
    else ({ m with cache := some h.1 }, items.map fun _ => .error)

/-- `Delete(keys)`. A key the persistent layer no longer has is tombstoned,
but the conditional delete leaves a cached copy of it alone. -/
def delete (f : WriteFaults) (keys : List KeyType) : Manager × List ErrorCode :=
  let r := Backend.batch Backend.deleteForOneKey f.delete m.persistent keys
  match m.cache with
  | none => ({ m with persistent := r.1 }, r.2)
  | some c =>
    let gone := ((keys.zip r.2).filter fun p => p.2 = .ok ∨ p.2 = .noent).map (·.1)
    let rc := Hot.conditional Hot.delete c keys r.2
    ({ m with
        persistent := r.1
        cache := some rc.1
        deletedKeys :=
          if m.recoverState = .recover then gone ++ m.deletedKeys else m.deletedKeys },
      rc.2)

/-- The layer `MaybeReclaimEmptyKeys` asks whether a key is empty: the cache
when there is one. -/
def existsLocation (f : WriteFaults) (k : KeyType) (i : Nat) : ErrorCode × Bool :=
  match m.cache, f.existsLocation i with
  | some c, _ => (Hot.backend c).existsLocation k
  | none, some fc => (fc.ec, false)
  | none, none => m.persistent.existsLocation k

/-- The keys `MaybeReclaimEmptyKeys` deletes: those with a successful slot,
each once, that have no location left. -/
def reclaimKeys (f : WriteFaults) (keys : List KeyType) (codes : List ErrorCode) :
    List KeyType :=
  let candidates := (((keys.zip codes).filter fun p => p.2 = .ok).map (·.1)).eraseDups
  (candidates.zipIdx.filter fun p => m.existsLocation f p.1 p.2 = (.ok, false)).map (·.1)

/-- `MaybeReclaimEmptyKeys`: the number of keys removed. -/
def maybeReclaimEmptyKeys (f : WriteFaults) (keys : List KeyType)
    (codes : List ErrorCode) : Manager × Nat :=
  let r := m.delete f (m.reclaimKeys f keys codes)
  (r.1, r.2.countP fun ec => ec = .ok ∨ ec = .noent)

/-- `Delete(keys, location_ids)` up to the reclaim. -/
def deleteTargets (f : WriteFaults) (items : List DeleteItem) : Manager × List ErrorCode :=
  match m.cache with
  | none =>
    let r := Backend.batch Backend.deleteItem f.deleteLocations m.persistent items
    ({ m with persistent := r.1 }, r.2)
  | some c =>
    let h := m.hydrate f c (items.map (·.key))
    if h.2 then
      let r := Backend.batch Backend.deleteItem f.deleteLocations m.persistent items
      let rc := Hot.conditional Hot.deleteLocations h.1 items r.2
      ({ m with persistent := r.1, cache := some rc.1 }, rc.2)
    else ({ m with cache := some h.1 }, items.map fun _ => .error)

/-- `Delete(keys, location_ids)`. -/
def deleteLocations (f : WriteFaults) (items : List DeleteItem) :
    Manager × List ErrorCode × Nat :=
  let r := m.deleteTargets f items
  let rr := r.1.maybeReclaimEmptyKeys f (items.map (·.key)) r.2
  (rr.1, r.2, rr.2)

/-! ## The maintenance delete

It decides between a target-only and a whole-key delete from the id lists of
both layers, before it changes either of them. -/

inductive MaintenancePlan where
  | failed (ec : ErrorCode)
  | skip
  | wholeKey
  | targetOnly
deriving DecidableEq

def onlyTargets (ids : List LocationId) (r : ErrorCode × List LocationId) : Bool :=
  r.1 = .noent || r.2.all (· ∈ ids)

def maintenancePlan (f : WriteFaults) (it : DeleteItem) (i : Nat) : MaintenancePlan :=
  match f.getLocationIds i with
  | some fc => .failed fc.ec
  | none =>
    if it.ids.isEmpty then .skip
    else if onlyTargets it.ids (m.persistent.getLocationIds it.key)
        && m.cache.all fun c => onlyTargets it.ids ((Hot.backend c).getLocationIds it.key)
      then .wholeKey
    else .targetOnly

def planned (f : WriteFaults) (items : List DeleteItem) (p : MaintenancePlan) :
    List DeleteItem :=
  (items.zipIdx.filter fun x => m.maintenancePlan f x.1 x.2 = p).map (·.1)

/-- The code of a target-only slot: success when either layer removed it. -/
def targetCode (persistentEc hotEc : ErrorCode) : ErrorCode :=
  if persistentEc ≠ .ok ∧ persistentEc ≠ .noent then persistentEc
  else if hotEc ≠ .ok ∧ hotEc ≠ .noent then hotEc
  else if persistentEc = .ok ∨ hotEc = .ok then .ok
  else .noent

def wholeCode (ec : ErrorCode) : ErrorCode :=
  if ec ≠ .ok ∧ ec ≠ .noent then ec else .ok

/-- Put the codes of the two sub-batches back into request order. -/
def maintenanceCodes : List MaintenancePlan → List ErrorCode → List ErrorCode →
    List ErrorCode
  | [], _, _ => []
  | .failed ec :: ps, ts, ws => ec :: maintenanceCodes ps ts ws
  | .skip :: ps, ts, ws => .ok :: maintenanceCodes ps ts ws
  | .targetOnly :: ps, ts, ws => ts.headD .error :: maintenanceCodes ps ts.tail ws
  | .wholeKey :: ps, ts, ws => ws.headD .error :: maintenanceCodes ps ts ws.tail

def maintenanceTargets (f : WriteFaults) (items : List DeleteItem) :
    Manager × List ErrorCode :=
  let r := Backend.batch Backend.deleteItem f.deleteLocations m.persistent items
  match m.cache with
  | none => ({ m with persistent := r.1 }, (r.2.zip r.2).map fun p => targetCode p.1 p.2)
  | some c =>
    let rc := Hot.deleteLocationsForMaintenance c items r.2
    ({ m with persistent := r.1, cache := some rc.1 },
      (r.2.zip rc.2).map fun p => targetCode p.1 p.2)

/-- The whole-key half. A key already absent from the persistent layer still
has its cached copy removed. -/
def maintenanceWholeKeys (f : WriteFaults) (keys : List KeyType) :
    Manager × List ErrorCode :=
  let r := Backend.batch Backend.deleteForOneKey f.delete m.persistent keys
  match m.cache with
  | none => ({ m with persistent := r.1 }, r.2.map wholeCode)
  | some c =>
    let gate := r.2.map fun ec => if ec = .noent then .ok else ec
    let rc := Hot.conditional Hot.delete c keys gate
    ({ m with persistent := r.1, cache := some rc.1 }, rc.2.map wholeCode)

def deleteLocationsForMaintenance (f : WriteFaults) (items : List DeleteItem) :
    Manager × List ErrorCode × Nat :=
  if m.cache.isSome ∧ m.recoverState = .recover then
    (m, items.map fun _ => .outOfLimit, 0)
  else
    let plans := items.zipIdx.map fun x => m.maintenancePlan f x.1 x.2
    let wholeKeys := (m.planned f items .wholeKey).map (·.key)
    let t := m.maintenanceTargets f (m.planned f items .targetOnly)
    let w := t.1.maintenanceWholeKeys f wholeKeys
    (w.1, maintenanceCodes plans t.2 w.2,
      (((wholeKeys.zip w.2).filter fun p => p.2 = .ok).map (·.1)).eraseDups.length)

/-- `RefreshCacheFromPersistent`: replace the cached copy of each key by the
persistent one, and drop a cached key the persistent layer does not have. -/
def refreshCacheFromPersistent (f : WriteFaults) (keys : List KeyType) :
    Manager × List ErrorCode :=
  match m.cache with
  | none => (m, keys.map fun _ => .ok)
  | some c =>
    let r := runSlots (fun c (p : KeyType × Nat) =>
      match f.getEntry p.2, m.persistent.getForOneKey p.1 with
      | some fc, _ => (c, fc.ec)
      | none, none => (c, .noent)
      | none, some e => Hot.put f.cacheNospc c (⟨p.1, e⟩, p.2)) c keys.zipIdx
    let missing := ((keys.zip r.2).filter fun p => p.2 = .noent).map (·.1)
    ({ m with cache := some (missing.foldl (fun c k => (Hot.delete c k).1) r.1) }, r.2)

/-! ## Reads

The cache answers, and only in `kRecover` does a key it misses fall back to
the persistent layer. A fault can hit a persistent read only. -/

/-- The targeted read of one key, straight from the persistent layer. -/
def readPersistent (rf : Nat → Option FaultCode) (k : KeyType) (ids : List LocationId) :
    List (ErrorCode × Option CacheLocation) :=
  ids.zipIdx.map fun p =>
    match rf p.2 with
    | some fc => (fc.ec, none)
    | none => m.persistent.getLocation k p.1

/-- `GetLocations(keys, location_ids)` for one key. Only a cache that misses
the whole key falls back. -/
def getLocations (rf : Nat → Option FaultCode) (k : KeyType) (ids : List LocationId) :
    List (ErrorCode × Option CacheLocation) :=
  match m.cache with
  | none => m.readPersistent rf k ids
  | some c =>
    let hot := ids.map fun id => (Hot.backend c).getLocation k id
    if m.recoverState = .recover ∧ hot.all (·.1 = .noent) ∧ c.lookup k = none then
      m.readPersistent rf k ids
    else hot

/-- `GetLocationsForMaintenance` of one location: the layers are compared, and
two different copies are a mismatch. -/
def mergeMaintenance (id : LocationId) (hot persistent : ErrorCode × Option CacheLocation) :
    ErrorCode × Option CacheLocation :=
  let validate := fun (r : ErrorCode × Option CacheLocation) =>
    match r.1, r.2 with
    | .noent, some _ => .error
    | .ok, some l => if l.id = id then ErrorCode.ok else .error
    | .ok, none => .error
    | ec, _ => ec
  let hotEc := validate hot
  let persistentEc := validate persistent
  if hotEc ≠ .ok ∧ hotEc ≠ .noent then (hotEc, none)
  else if persistentEc ≠ .ok ∧ persistentEc ≠ .noent then (persistentEc, none)
  else if hotEc = .noent ∧ persistentEc = .noent then (.noent, none)
  else if hotEc = .ok ∧ persistentEc = .ok
      ∧ hot.2.map CacheLocation.toJsonString ≠ persistent.2.map CacheLocation.toJsonString then
    (.mismatch, none)
  else (.ok, if hotEc = .ok then hot.2 else persistent.2)

def getLocationsForMaintenance (rf : Nat → Option FaultCode) (k : KeyType)
    (ids : List LocationId) : List (ErrorCode × Option CacheLocation) :=
  match m.cache with
  | none => m.readPersistent rf k ids
  | some c =>
    (ids.zip (m.readPersistent rf k ids)).map fun p =>
      mergeMaintenance p.1 ((Hot.backend c).getLocation k p.1) p.2

/-- The key's own status beside the targeted read: known from a location that
was found, else from the first failed read, else from an existence probe. -/
def keyStatus (b : Backend) (probe : Option FaultCode) (k : KeyType)
    (reads : List (ErrorCode × Option CacheLocation)) : ErrorCode :=
  if reads.any (·.1 = .ok) then .ok
  else match reads.find? (·.1 ≠ .noent) with
    | some r => r.1
    | none =>
      match probe with
      | some fc => fc.ec
      | none => if b.has k then .ok else .noent

def getLocationsWithKeyStatus (rf : Nat → Option FaultCode) (probe : Option FaultCode)
    (k : KeyType) (ids : List LocationId) :
    ErrorCode × List (ErrorCode × Option CacheLocation) :=
  let persistentReads := m.readPersistent rf k ids
  match m.cache with
  | none => (keyStatus m.persistent probe k persistentReads, persistentReads)
  | some c =>
    if m.recoverState = .recover ∧ c.lookup k = none then
      (keyStatus m.persistent probe k persistentReads, persistentReads)
    else
      let hot := ids.map fun id => (Hot.backend c).getLocation k id
      (keyStatus (Hot.backend c) none k hot, hot)

def getLocationIds (rf : Option FaultCode) (k : KeyType) : ErrorCode × List LocationId :=
  let persistentRead := match rf with
    | some fc => (fc.ec, [])
    | none => m.persistent.getLocationIds k
  match m.cache with
  | none => persistentRead
  | some c =>
    if m.recoverState = .recover ∧ c.lookup k = none then persistentRead
    else (Hot.backend c).getLocationIds k

end Manager

end TairKvCache
