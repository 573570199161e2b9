import TairKvCache.Manager
import TairKvCache.Lib.Machine

/-!
# Recovery of the hot cache under concurrent writes

`AsyncRecoverTask` fills the cache from the persistent layer while calls keep
writing both. Calls hold the shard lock of their key from start to end; the
task holds no shard lock, only the tombstone mutex during a backfill. The
model therefore interleaves single accesses:

* the task reads one key at a time, computes the batch to backfill under the
  mutex, and inserts one key at a time;
* a call probes the cache, reads the persistent entry, hydrates, writes the
  persistent layer, leaves its tombstone and mirrors the write, each in a step
  of its own.

A call of the model works on one key. The slots of a batch call on different
keys do not touch each other's state, so a batch is an interleaving of these
calls. The keys a scan returns are up to the environment: nothing below
depends on them. No backend call fails.

`advance_alone` ties the steps to the manager: a call that nothing interrupts
does what the manager's own function does.
-/

namespace TairKvCache.Recovery

open Function Lib Manager List

inductive WriteOp where
  | put (e : KeyEntry)
  | upsert (locs : CacheLocationMap) (props : PropertyMap)
  | delete
  | deleteLocations (ids : List LocationId)

namespace WriteOp

/-- The writes that touch a part of the fields, and so hydrate first. -/
def fieldLevel : WriteOp → Bool
  | put _ => false
  | upsert _ _ => true
  | delete => false
  | deleteLocations _ => true

def persist (b : Backend) (k : KeyType) : WriteOp → Backend × ErrorCode
  | put e => b.putForOneKey k e
  | upsert locs props => b.upsertForOneKey k locs props
  | delete => b.deleteForOneKey k
  | deleteLocations ids => b.deleteLocationsForOneKey k ids

/-- The conditional write of the cache, after the persistent layer answered
`code`. -/
def mirror (c : Store) (k : KeyType) (code : ErrorCode) (op : WriteOp) : Store × ErrorCode :=
  if code = .ok then
    match op with
    | put e => Hot.put (fun _ => false) c (⟨k, e⟩, 0)
    | upsert locs props => Hot.upsert (fun _ => false) c (⟨k, locs, props⟩, 0)
    | delete => Hot.delete c k
    | deleteLocations ids => Hot.deleteLocations c ⟨k, ids⟩
  else (c, code)

end WriteOp

/-- Where a call stands. `marking` waits for the tombstone mutex. -/
inductive Stage where
  | start
  | probed
  | fetched (e : Option KeyEntry)
  | ready
  | persisted (code : ErrorCode)
  | marking (code : ErrorCode)
  | mirroring (code : ErrorCode)
  | mirrored (code : ErrorCode)

structure Call where
  op : WriteOp
  stage : Stage

/-- Where the recover task stands; `last` is whether the scan cursor has come
back to its base. -/
inductive Task where
  | scanning
  | reading (todo : List KeyType) (got : List (KeyType × KeyEntry)) (last : Bool)
  | backfilling (todo : List (KeyType × KeyEntry)) (last : Bool)
  | complete
  | finished

namespace Task

/-- What has been read and not yet put into the cache. -/
def pending : Task → List (KeyType × KeyEntry)
  | reading _ got _ => got
  | backfilling todo _ => todo
  | _ => []

def afterBatch (last : Bool) : Task := if last then complete else scanning

end Task

/-- `lastWrite` records the write of each key acknowledged last; it is read by
no step. -/
structure State where
  persistent : Backend
  cache : Store
  recoverState : RecoverState
  deletedKeys : List KeyType
  task : Task
  calls : KeyType → Option Call
  lastWrite : KeyType → Option WriteOp

inductive Action where
  | scan (keys : List KeyType) (last : Bool)
  | get
  | beginBackfill
  | backfill
  | endBackfill
  | finish
  | clearTombstones
  | call (k : KeyType) (op : WriteOp)
  | advance (k : KeyType)

namespace State

variable (s : State)

def setStage (k : KeyType) (op : WriteOp) (st : Stage) : State :=
  { s with calls := update s.calls k (some ⟨op, st⟩) }

def acknowledge (k : KeyType) (op : WriteOp) : State :=
  { s with
    calls := update s.calls k none
    lastWrite := update s.lastWrite k (some op) }

/-- The next access of the call on `k`. -/
def advance (k : KeyType) (op : WriteOp) : Stage → Option State
  | .start =>
    if op.fieldLevel ∧ s.recoverState = .recover ∧ s.cache.lookup k = none then
      some (s.setStage k op .probed)
    else some (s.setStage k op .ready)
  | .probed => some (s.setStage k op (.fetched (s.persistent.getForOneKey k)))
  | .fetched none => some (s.setStage k op .ready)
  | .fetched (some e) =>
    let c := (Hot.putIfAbsent (fun _ => false) s.cache (⟨k, e⟩, 0)).1
    some ({ s with cache := c }.setStage k op .ready)
  | .ready =>
    let r := op.persist s.persistent k
    some ({ s with persistent := r.1 }.setStage k op (.persisted r.2))
  | .persisted code =>
    match op with
    | .delete =>
      if s.recoverState = .recover then some (s.setStage k op (.marking code))
      else some (s.setStage k op (.mirroring code))
    | _ =>
      let r := op.mirror s.cache k code
      some ({ s with cache := r.1 }.setStage k op (.mirrored r.2))
  | .marking code =>
    match s.task with
    | .backfilling _ _ => none
    | _ =>
      let gone := if code = .ok ∨ code = .noent then [k] else []
      some ({ s with deletedKeys := gone ++ s.deletedKeys }.setStage k op (.mirroring code))
  | .mirroring code =>
    let r := op.mirror s.cache k code
    some ({ s with cache := r.1 }.setStage k op (.mirrored r.2))
  | .mirrored code =>
    match op with
    | .deleteLocations _ =>
      -- `MaybeReclaimEmptyKeys`
      if code = .ok ∧ (Hot.backend s.cache).existsLocation k = (.ok, false) then
        some (s.setStage k .delete .ready)
      else some (s.acknowledge k op)
    | _ => some (s.acknowledge k op)

def step (s : State) : Action → Option State
  | .scan keys last =>
    match s.task with
    | .scanning =>
      some { s with task := if keys.isEmpty then .afterBatch last else .reading keys [] last }
    | _ => none
  | .get =>
    match s.task with
    | .reading (k :: todo) got last =>
      let read := match s.persistent.getForOneKey k with
        | some e => [(k, e)]
        | none => []
      some { s with task := .reading todo (got ++ read) last }
    | _ => none
  | .beginBackfill =>
    match s.task with
    | .reading [] got last =>
      some { s with task := .backfilling (got.filter fun p => p.1 ∉ s.deletedKeys) last }
    | _ => none
  | .backfill =>
    match s.task with
    | .backfilling (p :: todo) last =>
      let c := (Hot.putIfAbsent (fun _ => false) s.cache (⟨p.1, p.2⟩, 0)).1
      some { s with cache := c, task := .backfilling todo last }
    | _ => none
  | .endBackfill =>
    match s.task with
    | .backfilling [] last => some { s with task := .afterBatch last }
    | _ => none
  | .finish =>
    match s.task with
    | .complete => some { s with recoverState := .running, task := .finished }
    | _ => none
  | .clearTombstones =>
    match s.task with
    | .finished => some { s with deletedKeys := [] }
    | _ => none
  | .call k op =>
    match s.calls k with
    | none => some (s.setStage k op .start)
    | some _ => none
  | .advance k =>
    match s.calls k with
    | some c => s.advance k c.op c.stage
    | none => none

end State

/-- `Open` in the cached mode: an arbitrary persistent store, an empty cache. -/
def start (b : Backend) : State :=
  { persistent := b, cache := ∅, recoverState := .recover, deletedKeys := []
    task := .scanning, calls := fun _ => none, lastWrite := fun _ => none }

def machine : Machine State Action where
  init s := ∃ b, s = start b
  step := State.step

/-! ## A call on its own -/

def State.manager (s : State) : Manager :=
  { persistent := s.persistent, cache := some s.cache
    recoverState := s.recoverState, deletedKeys := s.deletedKeys }

/-- The manager's function for a write of one key, without faults. -/
def WriteOp.run (m : Manager) (k : KeyType) : WriteOp → Manager
  | put e => (m.put {} [⟨k, e⟩]).1
  | upsert locs props => (m.upsert {} [⟨k, locs, props⟩]).1
  | delete => (m.delete {} [k]).1
  | deleteLocations ids => (m.deleteLocations {} [⟨k, ids⟩]).1

theorem run_delete (s : State) (k : KeyType) : WriteOp.delete.run s.manager k =
      let r := WriteOp.delete.persist s.persistent k
      let gone := if r.2 = .ok ∨ r.2 = .noent then [k] else []
      { persistent := r.1
        cache := some (WriteOp.delete.mirror s.cache k r.2).1
        recoverState := s.recoverState
        deletedKeys :=
          if s.recoverState = .recover then gone ++ s.deletedKeys else s.deletedKeys } := by
  have hgone : ∀ code : ErrorCode,
      (([k].zip [code]).filter fun p => p.2 = .ok ∨ p.2 = .noent).map (·.1)
        = if code = .ok ∨ code = .noent then [k] else [] := fun code => by
    by_cases h : code = .ok ∨ code = .noent <;> simp [h]
  show mk _ _ _ _ = mk _ _ _ _
  congr 1
  show (if s.recoverState = .recover then _ ++ s.deletedKeys else s.deletedKeys) = _
  rw [← hgone]
  rfl

/-- No backfill holds the tombstone mutex. -/
def State.MutexFree (s : State) : Prop := ∀ todo last, s.task ≠ .backfilling todo last

/-- The call on `k` runs with nothing in between. -/
def Alone (k : KeyType) : State → State → Prop :=
  machine.Steps fun _ a => a = .advance k

variable {k : KeyType} {op : WriteOp} {m : Manager} {c : Store} {s : State}

theorem alone_step {s' t : State} {p : Stage} (hc : s.calls k = some ⟨op, p⟩)
    (hs : s.advance k op p = some s') (ht : Alone k s' t) : Alone k s t := by
  refine Relation.ReflTransGen.head ⟨.advance k, rfl, ?_⟩ ht
  show s.step (.advance k) = some s'
  simp only [State.step, hc, hs]

theorem advance_marking (h : s.MutexFree) (k : KeyType) (op : WriteOp) (code : ErrorCode) :
    s.advance k op (.marking code)
      = some ({ s with
          deletedKeys := (if code = ErrorCode.ok ∨ code = ErrorCode.noent then [k] else [])
            ++ s.deletedKeys }.setStage k op (.mirroring code)) := by
  simp only [State.advance]
  split
  · rename_i ht; exact absurd ht (h _ _)
  · rfl

theorem alone_delete (hm : s.MutexFree) (hc : s.calls k = some ⟨.delete, .ready⟩) :
    ∃ s', Alone k s s' ∧ s'.manager = WriteOp.delete.run s.manager k ∧ s'.calls k = none := by
  rw [run_delete]
  by_cases hrec : s.recoverState = .recover
  · refine ⟨_, alone_step hc rfl <| alone_step (update_self ..) (if_pos hrec) <|
      alone_step (update_self ..) (advance_marking ?_ ..) <|
      alone_step (update_self ..) rfl <| alone_step (update_self ..) rfl <|
      .refl, ?_, update_self ..⟩
    · exact hm
    · simp only [if_pos hrec]
      rfl
  · refine ⟨_, alone_step hc rfl <| alone_step (update_self ..) (if_neg hrec) <|
      alone_step (update_self ..) rfl <| alone_step (update_self ..) rfl <|
      .refl, ?_, update_self ..⟩
    simp only [if_neg hrec]
    rfl

/-- Hydration brings a field-level call to its persistent write. -/
theorem alone_hydrate (hf : op.fieldLevel = true) (hc : s.calls k = some ⟨op, .start⟩) :
    ∃ s', Alone k s s' ∧ s'.calls k = some ⟨op, .ready⟩ ∧ s'.task = s.task
      ∧ s'.manager
        = { s.manager with cache := some (s.manager.hydrate {} s.cache [k]).1 } := by
  by_cases hrec : s.recoverState = .recover
  · cases hl : s.cache.lookup k with
    | some e =>
      refine ⟨_, alone_step hc (if_neg fun h => ?_) .refl, update_self .., rfl, ?_⟩
      · rw [hl] at h; cases h.2.2
      · simp [State.manager, hydrate, ensureKeyInCache, State.setStage, hl]
    | none =>
      have hprobe : s.advance k op .start = some (s.setStage k op .probed) :=
        if_pos ⟨hf, hrec, hl⟩
      cases hp : s.persistent.store.lookup k with
      | none =>
        refine ⟨_, alone_step hc hprobe <| alone_step (update_self ..) rfl <|
          alone_step (p := .fetched none) ?_ rfl .refl,
          update_self .., rfl, ?_⟩
        · simp [State.setStage, Backend.getForOneKey, hp]
        · simp [State.manager, hydrate, ensureKeyInCache, State.setStage, hl,
            Backend.getForOneKey, hp]
      | some e =>
        refine ⟨_, alone_step hc hprobe <| alone_step (update_self ..) rfl <|
          alone_step (p := .fetched (some e)) ?_ rfl .refl,
          update_self .., rfl, ?_⟩
        · simp [State.setStage, Backend.getForOneKey, hp]
        · simp [State.manager, hydrate, ensureKeyInCache, State.setStage, hl,
            Backend.getForOneKey, hp, hrec]
  · refine ⟨_, alone_step hc (if_neg fun h => hrec h.2.1) .refl, update_self .., rfl, ?_⟩
    simp [State.manager, hydrate, State.setStage, hrec]

theorem run_upsert (hc : m.cache = some c) (k : KeyType) (locs : CacheLocationMap)
    (props : PropertyMap) : (WriteOp.upsert locs props).run m k =
      let op := WriteOp.upsert locs props
      let r := op.persist m.persistent k
      { m with
        persistent := r.1
        cache := some (op.mirror (m.hydrate {} c [k]).1 k r.2).1 } := by
  simp only [WriteOp.run, upsert, hc, map_cons, map_nil,
    m.hydrate_noFault c [k], if_true]
  rfl

theorem deleteTargets_singleton (hc : m.cache = some c) (k : KeyType) (ids : List LocationId) :
    m.deleteTargets {} [⟨k, ids⟩] =
      let op := WriteOp.deleteLocations ids
      let r := op.persist m.persistent k
      let rc := op.mirror (m.hydrate {} c [k]).1 k r.2
      ({ m with persistent := r.1, cache := some rc.1 }, [rc.2]) := by
  simp only [deleteTargets, hc, map_cons, map_nil,
    m.hydrate_noFault c [k], if_true]
  rfl

theorem reclaimKeys_singleton (hc : m.cache = some c) (k : KeyType) (code : ErrorCode) :
    m.reclaimKeys {} [k] [code]
      = if code = .ok ∧ (Hot.backend c).existsLocation k = (.ok, false) then [k] else [] := by
  by_cases hcode : code = .ok
  · by_cases hex : (Hot.backend c).existsLocation k = (.ok, false) <;>
      simp [reclaimKeys, existsLocation, hc, hcode, hex, eraseDups_cons]
  · simp [reclaimKeys, hcode]

theorem alone_put {e : KeyEntry} (hc : s.calls k = some ⟨.put e, .start⟩) :
    ∃ s', Alone k s s' ∧ s'.manager = (WriteOp.put e).run s.manager k ∧ s'.calls k = none :=
  ⟨_, alone_step hc rfl <| alone_step (update_self ..) rfl <|
    alone_step (update_self ..) rfl <| alone_step (update_self ..) rfl .refl,
    rfl, update_self ..⟩

theorem advance_persisted (s : State) (k : KeyType) (hop : op ≠ .delete) (code : ErrorCode) :
    s.advance k op (.persisted code)
      = some ({ s with cache := (op.mirror s.cache k code).1 }.setStage k op
          (.mirrored (op.mirror s.cache k code).2)) := by
  cases op with
  | delete => exact absurd rfl hop
  | _ => rfl

/-- From the hydrated state on, through the persistent write and its mirror. -/
theorem alone_mirror (hc : s.calls k = some ⟨op, .ready⟩) (hop : op ≠ .delete) :
    let r := op.persist s.persistent k
    let rc := op.mirror s.cache k r.2
    ∃ s', Alone k s s' ∧ s'.calls k = some ⟨op, .mirrored rc.2⟩ ∧ s'.task = s.task
      ∧ s'.manager = { s.manager with persistent := r.1, cache := some rc.1 } :=
  ⟨_, alone_step hc rfl <| alone_step (update_self ..) (advance_persisted _ _ hop _) .refl,
    update_self .., rfl, rfl⟩

theorem alone_upsert {locs : CacheLocationMap} {props : PropertyMap}
    (hc : s.calls k = some ⟨.upsert locs props, .start⟩) :
    ∃ s', Alone k s s' ∧ s'.manager = (WriteOp.upsert locs props).run s.manager k
      ∧ s'.calls k = none := by
  obtain ⟨t, halone, hready, -, hman⟩ := alone_hydrate rfl hc
  obtain ⟨u, halone', hmirrored, -, hman'⟩ := alone_mirror hready nofun
  refine ⟨_, halone.trans <| halone'.trans <| alone_step hmirrored rfl .refl, ?_,
    update_self ..⟩
  rw [run_upsert rfl]
  refine hman'.trans ?_
  rw [show t.persistent = s.persistent from congrArg persistent hman,
    Option.some.inj (congrArg cache hman), hman]
  rfl

theorem alone_deleteLocations {ids : List LocationId} (hm : s.MutexFree)
    (hc : s.calls k = some ⟨.deleteLocations ids, .start⟩) :
    ∃ s', Alone k s s' ∧ s'.manager = (WriteOp.deleteLocations ids).run s.manager k
      ∧ s'.calls k = none := by
  obtain ⟨t, halone, hready, htask, hman⟩ := alone_hydrate rfl hc
  obtain ⟨u, halone', hmirrored, htask', hman'⟩ := alone_mirror hready nofun
  have hrun : (WriteOp.deleteLocations ids).run s.manager k
      = (u.manager.delete {} (u.manager.reclaimKeys {} [k]
          [(WriteOp.mirror t.cache k (WriteOp.persist t.persistent k (.deleteLocations ids)).2
            (.deleteLocations ids)).2])).1 := by
    rw [hman', show t.persistent = s.persistent from congrArg persistent hman,
      Option.some.inj (congrArg cache hman), hman]
    simp only [WriteOp.run, deleteLocations, maybeReclaimEmptyKeys,
      map_cons, map_nil]
    rw [deleteTargets_singleton rfl]
    rfl
  rw [hrun, reclaimKeys_singleton rfl]
  split
  · rename_i hempty
    obtain ⟨w, halone'', hman'', hfree⟩ := alone_delete
      (s := u.setStage k .delete .ready) (fun a b => htask'.trans htask ▸ hm a b)
      (update_self ..)
    refine ⟨w, halone.trans <| halone'.trans <| alone_step hmirrored (if_pos hempty) halone'',
      hman''.trans rfl, hfree⟩
  · rename_i hempty
    refine ⟨_, halone.trans <| halone'.trans <| alone_step hmirrored (if_neg hempty) .refl, ?_,
      update_self ..⟩
    simp [delete, State.manager, State.acknowledge, Backend.batch, Hot.conditional]

/-- A call that nothing interrupts does what the manager's function does. -/
theorem advance_alone (hm : s.MutexFree) (hc : s.calls k = some ⟨op, .start⟩) :
    ∃ s', Alone k s s' ∧ s'.manager = op.run s.manager k ∧ s'.calls k = none := by
  cases op with
  | put e => exact alone_put hc
  | upsert locs props => exact alone_upsert hc
  | delete =>
    obtain ⟨s', halone, hman, hfree⟩ := alone_delete
      (s := s.setStage k .delete .ready) hm (update_self ..)
    exact ⟨s', alone_step hc rfl halone, hman, hfree⟩
  | deleteLocations ids => exact alone_deleteLocations hm hc

/-- A whole-key delete during the recovery leaves a tombstone. -/
theorem advance_alone_delete : ∃ s s' : State, s.recoverState = .recover ∧ Alone 1 s s' ∧
    s'.deletedKeys = [1] ∧ s'.calls 1 = none := by
  let s := (start ⟨.redis, (∅ : Store).insert 1 .empty⟩).setStage 1 .delete .start
  have hc : s.calls 1 = some ⟨.delete, .start⟩ := rfl
  obtain ⟨s', halone, hman, hfree⟩ := advance_alone (fun _ _ h => by cases h) hc
  exact ⟨s, s', rfl, halone, congrArg deletedKeys hman, hfree⟩

end TairKvCache.Recovery
