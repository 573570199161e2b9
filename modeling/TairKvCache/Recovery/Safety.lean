import TairKvCache.Recovery.Model

/-!
# Recovery keeps the layers together

The argument is per key. What the task holds for a key (`pending`) may be
stale, but then the key is in the cache already, or it is tombstoned, or a
call is in the middle of rewriting it. `View.StageOk` says what each stage of
a call may rely on; `Inv` collects it over all keys, together with the one
global fact that a batch being backfilled names no tombstoned key, which is
what the mutex is for.
-/

namespace TairKvCache.Recovery

open Function Lib Backend Option Machine List

/-! ## One key at a time -/

def cellOf (o : Option KeyEntry) (id : LocationId) : Option CacheLocation :=
  o.bind fun e => e.locations.lookup id

structure View where
  persistent : Option KeyEntry
  cache : Option KeyEntry
  pending : KeyEntry → Prop
  tomb : Prop
  lastWrite : Option WriteOp

def State.view (s : State) (k : KeyType) : View :=
  { persistent := s.persistent.store.lookup k
    cache := s.cache.lookup k
    pending := fun e => (k, e) ∈ s.task.pending
    tomb := k ∈ s.deletedKeys
    lastWrite := s.lastWrite k }

namespace View

variable (v : View)

def Synced : Prop :=
  v.cache.isSome = true → ∀ id, cellOf v.cache id = cellOf v.persistent id

/-- A pending entry is current, or will not be inserted. -/
def PendingOk : Prop :=
  ∀ e, v.pending e → v.persistent = some e ∨ v.cache.isSome = true ∨ v.tomb

/-- Between the persistent write and its mirror: mirroring will restore
`Synced`. A `put` or a successful `delete` does so whatever the cache holds. -/
def PersistedOk (code : ErrorCode) : WriteOp → Prop
  | .put e => code = .ok ∧ ∀ id, cellOf v.persistent id = e.locations.lookup id
  | .upsert locs _ => code = .ok ∧ v.PendingOk
      ∧ ∀ id, cellOf v.persistent id = (locs.lookup id).or (cellOf v.cache id)
  | .delete => v.persistent = none
      ∧ (code = .ok ∨ (code = .noent ∧ v.Synced ∧ v.PendingOk))
  | .deleteLocations ids => v.PendingOk ∧ (v.cache = none → v.persistent = none)
      ∧ (code = .ok → v.cache.isSome = true →
          ∀ id, cellOf v.persistent id = if id ∈ ids then none else cellOf v.cache id)
      ∧ (code ≠ .ok → v.Synced)

def StageOk (op : WriteOp) : Stage → Prop
  | .start => v.Synced ∧ v.PendingOk
  | .probed => v.Synced ∧ v.PendingOk
  | .fetched e => v.Synced ∧ v.PendingOk ∧ e = v.persistent
  | .ready => v.Synced ∧ v.PendingOk
      ∧ (op.fieldLevel = true → v.cache = none → v.persistent = none)
  | .persisted code => v.PersistedOk code op
  | .marking code => op = .delete ∧ v.PersistedOk code op
  | .mirroring code => op = .delete ∧ v.persistent = none ∧ v.tomb ∧ (code = .ok ∨ v.Synced)
  | .mirrored _ => v.Synced ∧ v.PendingOk ∧ (op = .delete → v.persistent = none)

def CallOk : Option Call → Prop
  | none => v.Synced ∧ v.PendingOk ∧ (v.lastWrite = some .delete → v.persistent = none)
  | some c => v.StageOk c.op c.stage

/-! ### The task's steps, seen from one key -/

variable {v}

/-- The conditions depend on what is pending through `PendingOk` only. -/
theorem CallOk.pending {c : Option Call} {q : KeyEntry → Prop} (h : v.CallOk c)
    (hpok : v.PendingOk → PendingOk { v with pending := q }) :
    CallOk { v with pending := q } c := by
  have hpers : ∀ op code, v.PersistedOk code op →
      PersistedOk { v with pending := q } code op := by
    intro op code h
    cases op with
    | put e => exact h
    | upsert locs props => exact ⟨h.1, hpok h.2.1, h.2.2⟩
    | delete => exact ⟨h.1, h.2.imp_right fun h => ⟨h.1, h.2.1, hpok h.2.2⟩⟩
    | deleteLocations ids => exact ⟨hpok h.1, h.2⟩
  cases c with
  | none => exact ⟨h.1, hpok h.2.1, h.2.2⟩
  | some c =>
    obtain ⟨op, stage⟩ := c
    cases stage with
    | start | probed => exact ⟨h.1, hpok h.2⟩
    | fetched e | ready | mirrored code => exact ⟨h.1, hpok h.2.1, h.2.2⟩
    | persisted code => exact hpers op code h
    | marking code => exact ⟨h.1, hpers op code h.2⟩
    | mirroring code => exact h

/-- The task inserts a pending entry that the mutex kept free of a tombstone. -/
theorem CallOk.backfill {c : Option Call} {e : KeyEntry} (h : v.CallOk c) (hnone : v.cache = none)
    (he : v.pending e) (ht : ¬ v.tomb) : CallOk { v with cache := some e } c := by
  have hcurrent : v.PendingOk → v.persistent = some e := by
    intro hp
    rcases hp e he with h | h | h
    · exact h
    · rw [hnone] at h; cases h
    · exact absurd h ht
  have hpok : PendingOk { v with cache := some e } := fun _ _ => .inr (.inl rfl)
  have hsync : v.PendingOk → Synced { v with cache := some e } := fun hp _ id => by
    simp only [hcurrent hp]
  have hpers : ∀ op code, v.PersistedOk code op →
      PersistedOk { v with cache := some e } code op := by
    intro op code h
    cases op with
    | put e' => exact h
    | upsert locs props =>
      refine ⟨h.1, hpok, fun id => ?_⟩
      have hcell := h.2.2 id
      rw [hnone, hcurrent h.2.1] at hcell
      simp only [hcurrent h.2.1]
      rw [hcell]
      simp [cellOf]
    | delete =>
      refine ⟨h.1, h.2.imp_right fun h' => ?_⟩
      exact ⟨h'.1, hsync h'.2.2, hpok⟩
    | deleteLocations ids =>
      -- the cache misses the key only when the persistent layer does
      have habs := h.2.1 hnone
      rw [hcurrent h.1] at habs
      cases habs
  cases c with
  | none => exact ⟨hsync h.2.1, hpok, h.2.2⟩
  | some c =>
    obtain ⟨op, stage⟩ := c
    cases stage with
    | start | probed => exact ⟨hsync h.2, hpok⟩
    | fetched e' | mirrored code => exact ⟨hsync h.2.1, hpok, h.2.2⟩
    | ready => exact ⟨hsync h.2.1, hpok, nofun⟩
    | persisted code => exact hpers op code h
    | marking code => exact ⟨h.1, hpers op code h.2⟩
    | mirroring code => exact absurd h.2.2.1 ht

end View

/-! ### A call's steps, seen from its key -/

variable {k k' : KeyType} {b : Backend} {s s' : State} {st : Stage} {a : Action}
    {todo : List (KeyType × KeyEntry)}

namespace WriteOp

theorem persist_lookup_ne (op : WriteOp) (b : Backend) (h : k' ≠ k) :
    (op.persist b k).1.store.lookup k' = b.store.lookup k' := by
  cases op with
  | put e | upsert locs props => exact lookup_putEntry_ne h _
  | delete =>
    simp only [persist, deleteForOneKey]
    split
    · exact AList.lookup_erase_ne h
    · rfl
  | deleteLocations ids =>
    simp only [persist, deleteLocationsForOneKey]
    split
    · rfl
    · split
      · rfl
      · exact lookup_putEntry_ne h _

theorem mirror_lookup_ne (op : WriteOp) (c : Store) (code : ErrorCode) (h : k' ≠ k) :
    (op.mirror c k code).1.lookup k' = c.lookup k' := by
  unfold mirror
  split
  · cases op with
    | put e => exact AList.lookup_insert_ne h
    | upsert locs props =>
      simp only [Hot.upsert, Bool.false_eq_true, false_and, if_false]
      exact persist_lookup_ne (.upsert locs props) (Hot.backend c) h
    | delete => exact persist_lookup_ne .delete (Hot.backend c) h
    | deleteLocations ids => exact persist_lookup_ne (.deleteLocations ids) (Hot.backend c) h
  · rfl

end WriteOp

theorem delete_cases (b : Backend) (k : KeyType) :
    ((b.deleteForOneKey k).1.store.lookup k = none ∧ (b.deleteForOneKey k).2 = .ok)
      ∨ (b.store.lookup k = none ∧ b.deleteForOneKey k = (b, .noent)) := by
  unfold deleteForOneKey
  split
  · exact .inl ⟨AList.lookup_erase .., rfl⟩
  · rename_i h
    exact .inr ⟨by simpa [has] using h, rfl⟩

theorem deleteLocations_of_none (h : b.store.lookup k = none) (ids : List LocationId) :
    (b.deleteLocationsForOneKey k ids).1 = b := by
  unfold deleteLocationsForOneKey
  split
  · rfl
  · rw [h]

theorem deleteLocations_code_ne {ids : List LocationId}
    (h : (b.deleteLocationsForOneKey k ids).2 ≠ .ok) : b.store.lookup k = none := by
  unfold deleteLocationsForOneKey at h
  split at h
  · exact absurd rfl h
  · split at h
    · assumption
    · exact absurd rfl h

namespace View

variable {v : View} {op : WriteOp}

/-- The persistent write turns the `ready` condition into `PersistedOk`. -/
theorem StageOk.persist (h : v.StageOk op .ready) (hb : v.persistent = b.store.lookup k) :
    PersistedOk { v with persistent := (op.persist b k).1.store.lookup k }
      (op.persist b k).2 op := by
  obtain ⟨hsync, hpend, hhyd⟩ := h
  have hcell : ∀ id, cellOf v.persistent id = b.cell k id := fun id => by rw [hb]; rfl
  -- a hydrated key that the cache misses is new, so nothing pending is current
  have hpend' : op.fieldLevel = true → v.cache = none → ∀ e, v.pending e → v.tomb := by
    intro hf hc e he
    rcases hpend e he with h | h | h
    · rw [hhyd hf hc] at h; cases h
    · rw [hc] at h; cases h
    · exact h
  have hpok : op.fieldLevel = true →
      PendingOk { v with persistent := (op.persist b k).1.store.lookup k } := by
    intro hf e he
    cases hc : v.cache with
    | none => exact .inr (.inr (hpend' hf hc e he))
    | some e' => exact .inr (.inl rfl)
  cases op with
  | put e =>
    refine ⟨rfl, fun id => ?_⟩
    have := cell_putEntry (b := b) k k e id
    rwa [if_pos rfl] at this
  | upsert locs props =>
    refine ⟨rfl, hpok rfl, fun id => ?_⟩
    have hput := cell_upsert (b := b) k k locs props id
    rw [if_pos rfl] at hput
    refine hput.trans ?_
    cases hc : v.cache with
    | none => rw [← hcell, hhyd rfl hc]
    | some e => rw [← hcell, ← hsync (by rw [hc]; rfl), hc]
  | delete =>
    rcases delete_cases b k with ⟨hgone, hok⟩ | ⟨hnone, heq⟩
    · exact ⟨hgone, .inl hok⟩
    · simp only [WriteOp.persist, heq, ← hb]
      exact ⟨hb.trans hnone, .inr ⟨rfl, hsync, hpend⟩⟩
  | deleteLocations ids =>
    refine ⟨hpok rfl, fun hc => ?_, fun _ hc id => ?_, fun hne => ?_⟩
    · have hnone := hb.symm.trans (hhyd rfl hc)
      simp only [WriteOp.persist, deleteLocations_of_none hnone ids]
      exact hnone
    · have hdel := cell_deleteLocations (b := b) k k ids id
      simp only [true_and] at hdel
      refine hdel.trans ?_
      simp only [hsync hc id, hcell id]
    · have hnone := deleteLocations_code_ne hne
      simp only [WriteOp.persist, deleteLocations_of_none hnone ids, ← hb]
      exact hsync

/-- Mirroring a write other than a whole-key delete brings the layers back
together. -/
theorem StageOk.mirror {c : Store} {code : ErrorCode} (h : v.StageOk op (.persisted code))
    (hop : op ≠ .delete) (hc : v.cache = c.lookup k) :
    StageOk { v with cache := (op.mirror c k code).1.lookup k } op
      (.mirrored (op.mirror c k code).2) := by
  cases op with
  | put e =>
    obtain ⟨rfl, hcell⟩ := h
    have hnew : ((WriteOp.put e).mirror c k .ok).1.lookup k = some e :=
      AList.lookup_insert ..
    refine ⟨fun _ id => ?_, fun e' _ => .inr (.inl ?_), fun h => by cases h⟩
    · simp only [hnew, hcell id]; rfl
    · simp only [hnew]; rfl
  | upsert locs props =>
    obtain ⟨rfl, hpend, hcell⟩ := h
    have hmir : ∀ id, cellOf (((WriteOp.upsert locs props).mirror c k .ok).1.lookup k) id
        = (locs.lookup id).or (cellOf v.cache id) := fun id => by
      have := cell_upsert (b := Hot.backend c) k k locs props id
      rw [if_pos rfl] at this
      rw [hc]
      exact this
    have hsome : (((WriteOp.upsert locs props).mirror c k .ok).1.lookup k).isSome = true := by
      simp [WriteOp.mirror, Hot.upsert, upsertItem, upsertForOneKey,
        putEntry, Hot.backend]
    refine ⟨fun _ id => ?_, fun e' _ => .inr (.inl hsome), fun h => by cases h⟩
    simp only [hmir id, hcell id]
  | delete => exact absurd rfl hop
  | deleteLocations ids =>
    obtain ⟨hpend, -, hok, hne⟩ := h
    rcases eq_or_ne code .ok with rfl | hcode
    · have hsome : (((WriteOp.deleteLocations ids).mirror c k .ok).1.lookup k).isSome
          = v.cache.isSome := by
        rw [hc]; exact Hot.isSome_deleteLocations c ⟨k, ids⟩ k
      refine ⟨fun h id => ?_, fun e' he' => ?_, fun h => by cases h⟩
      · have hmir := Hot.cell_deleteLocations c ⟨k, ids⟩ k id
        simp only [true_and] at hmir
        simp only [hok rfl (hsome ▸ h) id, hc]
        exact hmir
      · simp only [hsome]
        exact hpend e' he'
    · simp only [WriteOp.mirror, if_neg hcode, ← hc]
      exact ⟨hne hcode, hpend, fun h => by cases h⟩

theorem StageOk.mirrorDelete {c : Store} {code : ErrorCode} (h : v.StageOk op (.mirroring code))
    (hc : v.cache = c.lookup k) : StageOk { v with cache := (op.mirror c k code).1.lookup k } op
      (.mirrored (op.mirror c k code).2) := by
  obtain ⟨rfl, hp, ht, hcode⟩ := h
  refine ⟨?_, fun e _ => .inr (.inr ht), fun _ => hp⟩
  rcases eq_or_ne code .ok with rfl | hok
  · intro hsome
    have hgone : (WriteOp.delete.mirror c k .ok).1.lookup k = none := by
      rcases delete_cases (Hot.backend c) k with ⟨hgone, -⟩ | ⟨hnone, heq⟩
      · exact hgone
      · simp only [WriteOp.mirror, if_true, Hot.delete, heq]
        exact hnone
    simp only [hgone] at hsome
    cases hsome
  · simp only [WriteOp.mirror, if_neg hok, ← hc]
    exact hcode.resolve_left hok

end View

/-! ## The invariant -/

/-- Holds as long as the task has not finished. -/
structure Inv (s : State) : Prop where
  calls : ∀ k, (s.view k).CallOk (s.calls k)
  todo : ∀ todo last, s.task = .backfilling todo last → ∀ p ∈ todo, p.1 ∉ s.deletedKeys
  unfinished : s.task ≠ .finished

theorem inv_start (b : Backend) : Inv (start b) where
  calls k := by
    refine ⟨fun h => ?_, fun e he => ?_, fun h => ?_⟩
    · cases h
    · cases he
    · cases h
  todo todo last h := by cases h
  unfinished h := by cases h

/-- What a call's step leaves alone: the task, the state of recovery, every
other key, and the tombstones while a backfill runs. -/
structure Aside (k : KeyType) (s s' : State) : Prop where
  task : s'.task = s.task
  recoverState : s'.recoverState = s.recoverState
  tombstones : s'.deletedKeys = s.deletedKeys ∨ ∀ todo last, s.task ≠ .backfilling todo last
  other : ∀ k', k' ≠ k → s'.view k' = s.view k' ∧ s'.calls k' = s.calls k'

theorem Aside.setStage (op : WriteOp) (st : Stage) : Aside k s (s.setStage k op st) :=
  ⟨rfl, rfl, .inl rfl, fun _ hne => ⟨rfl, update_of_ne hne _ _⟩⟩

open State

theorem Aside.cache {c : Store} (hc : ∀ k', k' ≠ k → c.lookup k' = s.cache.lookup k')
    (op : WriteOp) (st : Stage) : Aside k s ({ s with cache := c }.setStage k op st) := by
  refine ⟨rfl, rfl, .inl rfl, fun k' hne => ⟨?_, update_of_ne hne _ _⟩⟩
  simp only [view, State.setStage, hc k' hne]

theorem Aside.acknowledge (op : WriteOp) : Aside k s (s.acknowledge k op) := by
  refine ⟨rfl, rfl, .inl rfl, fun k' hne => ⟨?_, update_of_ne hne _ _⟩⟩
  simp [view, State.acknowledge, update_of_ne hne]

theorem advance_aside {op : WriteOp} (h : s.advance k op st = some s') : Aside k s s' := by
  cases st with
  | start =>
    simp only [advance] at h
    split at h <;> obtain rfl := some.inj h <;> exact .setStage ..
  | probed =>
    obtain rfl := some.inj h
    exact .setStage ..
  | fetched e =>
    cases e with
    | none =>
      obtain rfl := some.inj h
      exact .setStage ..
    | some e =>
      obtain rfl := some.inj h
      refine .cache (fun k' hne => ?_) ..
      simp only [Hot.putIfAbsent, Hot.put]
      split
      · rfl
      · exact AList.lookup_insert_ne hne
  | ready =>
    obtain rfl := some.inj h
    refine ⟨rfl, rfl, .inl rfl, fun k' hne => ⟨?_, update_of_ne hne _ _⟩⟩
    simp only [view, setStage, op.persist_lookup_ne s.persistent hne]
  | persisted code =>
    cases op with
    | delete =>
      simp only [advance] at h
      split at h <;> obtain rfl := some.inj h <;> exact .setStage ..
    | _ =>
      obtain rfl := some.inj h
      exact .cache (fun k' hne => WriteOp.mirror_lookup_ne _ s.cache code hne) ..
  | marking code =>
    simp only [advance] at h
    split at h
    · cases h
    · rename_i hnot
      obtain rfl := some.inj h
      refine ⟨rfl, rfl, .inr hnot, fun k' hne => ⟨?_, update_of_ne hne _ _⟩⟩
      simp only [view, setStage]
      split <;> simp [hne]
  | mirroring code =>
    obtain rfl := some.inj h
    exact .cache (fun k' hne => op.mirror_lookup_ne s.cache code hne) ..
  | mirrored code =>
    cases op with
    | deleteLocations ids =>
      simp only [advance] at h
      split at h
      · obtain rfl := some.inj h
        exact .setStage ..
      · obtain rfl := some.inj h
        exact .acknowledge _
    | _ =>
      obtain rfl := some.inj h
      exact .acknowledge _

theorem callOk_setStage {op : WriteOp} (h : (s.view k).StageOk op st) :
    ((s.setStage k op st).view k).CallOk ((s.setStage k op st).calls k) := by
  simp only [setStage, update_self]
  exact h

theorem advance_callOk {op : WriteOp} (hrec : s.recoverState = .recover)
    (h : s.advance k op st = some s') (hok : (s.view k).StageOk op st) :
    (s'.view k).CallOk (s'.calls k) := by
  cases st with
  | start =>
    simp only [advance] at h
    split at h
    · obtain rfl := some.inj h
      exact callOk_setStage hok
    · rename_i hnot
      obtain rfl := some.inj h
      exact callOk_setStage ⟨hok.1, hok.2, fun hf hc => absurd ⟨hf, hrec, hc⟩ hnot⟩
  | probed =>
    obtain rfl := some.inj h
    exact callOk_setStage ⟨hok.1, hok.2, rfl⟩
  | fetched e =>
    cases e with
    | none =>
      obtain rfl := some.inj h
      exact callOk_setStage ⟨hok.1, hok.2.1, fun _ _ => hok.2.2.symm⟩
    | some e =>
      obtain rfl := some.inj h
      refine callOk_setStage ?_
      obtain ⟨hsync, hpend, he⟩ := hok
      simp only [Hot.putIfAbsent, Hot.put]
      split
      · rename_i hsome
        refine ⟨hsync, hpend, fun _ hc => ?_⟩
        rw [show s.cache.lookup k = none from hc] at hsome
        cases hsome
      · have hnew : (s.cache.insert k e).lookup k = some e := AList.lookup_insert ..
        refine ⟨fun _ id => ?_, fun e' _ => .inr (.inl ?_), fun _ hc => ?_⟩
        · show cellOf ((s.cache.insert k e).lookup k) id = _
          rw [hnew, he]
          rfl
        · show ((s.cache.insert k e).lookup k).isSome = true
          rw [hnew]
          rfl
        · rw [show (s.cache.insert k e).lookup k = none from hc] at hnew
          cases hnew
  | ready =>
    obtain rfl := some.inj h
    exact callOk_setStage (hok.persist rfl)
  | persisted code =>
    cases op with
    | delete =>
      simp only [advance, if_pos hrec] at h
      obtain rfl := some.inj h
      exact callOk_setStage ⟨rfl, hok⟩
    | _ =>
      obtain rfl := some.inj h
      exact callOk_setStage (hok.mirror (by simp) rfl)
  | marking code =>
    obtain ⟨rfl, hnone, hcode⟩ := hok
    simp only [advance] at h
    split at h
    · cases h
    · obtain rfl := some.inj h
      have hgone : code = .ok ∨ code = .noent := hcode.imp_right (·.1)
      refine callOk_setStage ⟨rfl, hnone, ?_, hcode.imp_right (·.2.1)⟩
      simp [view, hgone]
  | mirroring code =>
    obtain rfl := some.inj h
    exact callOk_setStage (hok.mirrorDelete rfl)
  | mirrored code =>
    have hack : ((s.acknowledge k op).view k).CallOk ((s.acknowledge k op).calls k) := by
      simp only [acknowledge, view, update_self]
      exact ⟨hok.1, hok.2.1, fun h => hok.2.2 (some.inj h)⟩
    cases op with
    | deleteLocations ids =>
      simp only [advance] at h
      split at h
      · obtain rfl := some.inj h
        exact callOk_setStage ⟨hok.1, hok.2.1, fun h => by cases h⟩
      · obtain rfl := some.inj h
        exact hack
    | _ =>
      obtain rfl := some.inj h
      exact hack

theorem inv_advance {c : Call} (hinv : Inv s) (hrec : s.recoverState = .recover)
    (hc : s.calls k = some c) (h : s.advance k c.op c.stage = some s') : Inv s' := by
  obtain ⟨htask, -, htomb, hother⟩ := advance_aside h
  refine ⟨fun k' => ?_, fun todo last htodo p hp => ?_, htask ▸ hinv.unfinished⟩
  · rcases eq_or_ne k' k with rfl | hk
    · have hok := hinv.calls k'
      rw [hc] at hok
      exact advance_callOk hrec h hok
    · obtain ⟨hview, hcalls⟩ := hother k' hk
      rw [hview, hcalls]
      exact hinv.calls k'
  · rw [htask] at htodo
    rcases htomb with heq | hnot
    · rw [heq]; exact hinv.todo todo last htodo p hp
    · exact absurd htodo (hnot todo last)

/-- A step of the task that touches neither layer, and after which every
pending entry was pending before or is current. -/
theorem Inv.task (hinv : Inv s) {t : Task}
    (hpend : ∀ k e, (k, e) ∈ t.pending → (k, e) ∈ s.task.pending ∨
      s.persistent.store.lookup k = some e)
    (htodo : ∀ todo last, t = .backfilling todo last → ∀ p ∈ todo, p.1 ∉ s.deletedKeys)
    (hfin : t ≠ .finished) : Inv { s with task := t } where
  calls k := by
    refine (hinv.calls k).pending fun hok e he => ?_
    rcases hpend k e he with h | h
    · exact hok e h
    · exact .inl h
  todo := htodo
  unfinished := hfin

theorem afterBatch_pending (last : Bool) : (Task.afterBatch last).pending = [] := by
  cases last <;> rfl

theorem Inv.afterBatch (hinv : Inv s) (last : Bool) : Inv { s with task := .afterBatch last } := by
  refine hinv.task (fun k e he => ?_) (fun todo l h => ?_) (fun h => ?_)
  · rw [afterBatch_pending] at he; cases he
  · cases last <;> cases h
  · cases last <;> cases h

theorem Inv.backfill (hinv : Inv s) {p : KeyType × KeyEntry} {last : Bool}
    (ht : s.task = .backfilling (p :: todo) last) : Inv { s with
      cache := (Hot.putIfAbsent (fun _ => false) s.cache (⟨p.1, p.2⟩, 0)).1
      task := .backfilling todo last } := by
  have hrest := hinv.task (t := .backfilling todo last)
    (fun k e he => .inl (by rw [ht]; exact mem_cons_of_mem _ he))
    (fun todo' last' h q hq => by
      cases h; exact hinv.todo _ _ ht q (mem_cons_of_mem _ hq)) (by simp)
  refine ⟨fun k => ?_, hrest.todo, hrest.unfinished⟩
  simp only [Hot.putIfAbsent, Hot.put, Bool.false_eq_true, if_false]
  split
  · exact hrest.calls k
  · rename_i habs
    rcases eq_or_ne k p.1 with rfl | hk
    · have hnone : s.cache.lookup p.1 = none := by simpa using habs
      have hpending : (s.view p.1).pending p.2 := by
        show (p.1, p.2) ∈ s.task.pending
        rw [ht]
        exact mem_cons_self ..
      have hins := (hinv.calls p.1).backfill hnone hpending
        (hinv.todo _ _ ht p (mem_cons_self ..))
      simp only [view, AList.lookup_insert]
      exact hins.pending fun _ _ _ => .inr (.inl rfl)
    · simp only [view, AList.lookup_insert_ne hk]
      exact hrest.calls k

/-- The task publishes `kRunning` once and for all. -/
def Good (s : State) : Prop :=
  (s.recoverState = .recover ∧ Inv s) ∨ (s.recoverState = .running ∧ s.task = .finished)

/-- A step while the task is at work keeps the invariant or publishes. -/
theorem inv_step (hrec : s.recoverState = .recover) (hinv : Inv s) (h : s.step a = some s') :
    Good s' := by
  cases a with
  | scan keys last =>
    simp only [State.step] at h
    split at h
    · obtain rfl := some.inj h
      refine .inl ⟨hrec, ?_⟩
      split
      · exact hinv.afterBatch last
      · exact hinv.task (by simp [Task.pending]) (by simp) (by simp)
    · cases h
  | get =>
    simp only [State.step] at h
    split at h
    · rename_i k todo got last ht
      obtain rfl := some.inj h
      refine .inl ⟨hrec, hinv.task (fun k' e he => ?_) (by simp) (by simp)⟩
      rcases mem_append.mp he with hgot | hread
      · exact .inl (by rw [ht]; exact hgot)
      · right
        split at hread
        · rename_i e' he'
          obtain ⟨rfl, rfl⟩ := Prod.mk.injEq .. |>.mp (mem_singleton.mp hread)
          exact he'
        · cases hread
    · cases h
  | beginBackfill =>
    simp only [State.step] at h
    split at h
    · rename_i got last ht
      obtain rfl := some.inj h
      refine .inl ⟨hrec, hinv.task (fun k e he => ?_) (fun todo l heq p hp => ?_) (by simp)⟩
      · exact .inl (by rw [ht]; exact (mem_filter.mp he).1)
      · cases heq
        simpa using (mem_filter.mp hp).2
    · cases h
  | backfill =>
    simp only [State.step] at h
    split at h
    · rename_i p todo last ht
      obtain rfl := some.inj h
      exact .inl ⟨hrec, hinv.backfill ht⟩
    · cases h
  | endBackfill =>
    simp only [State.step] at h
    split at h
    · rename_i last ht
      obtain rfl := some.inj h
      exact .inl ⟨hrec, hinv.afterBatch last⟩
    · cases h
  | finish =>
    simp only [State.step] at h
    split at h
    · obtain rfl := some.inj h
      exact .inr ⟨rfl, rfl⟩
    · cases h
  | clearTombstones =>
    simp only [State.step] at h
    split at h
    · rename_i ht
      exact absurd ht hinv.unfinished
    · cases h
  | call k op =>
    simp only [State.step] at h
    split at h
    · rename_i hnone
      obtain rfl := some.inj h
      refine .inl ⟨hrec, fun k' => ?_, hinv.todo, hinv.unfinished⟩
      have hok := hinv.calls k'
      rcases eq_or_ne k' k with rfl | hk
      · rw [hnone] at hok
        simp only [setStage, update_self]
        exact ⟨hok.1, hok.2.1⟩
      · simp only [setStage, update_of_ne hk]
        exact hok
    · cases h
  | advance k =>
    simp only [State.step] at h
    split at h
    · rename_i c hc
      exact .inl ⟨(advance_aside h).recoverState.trans hrec, inv_advance hinv hrec hc h⟩
    · cases h

theorem running_step (hrun : s.recoverState = .running) (hfin : s.task = .finished)
    (h : s.step a = some s') : s'.recoverState = .running ∧ s'.task = .finished := by
  cases a with
  | clearTombstones =>
    simp only [State.step, hfin] at h
    obtain rfl := some.inj h
    exact ⟨hrun, rfl⟩
  | call k op =>
    simp only [State.step] at h
    split at h
    · obtain rfl := some.inj h
      exact ⟨hrun, hfin⟩
    · cases h
  | advance k =>
    simp only [State.step] at h
    split at h
    · have haside := advance_aside h
      exact ⟨haside.recoverState.trans hrun, haside.task.trans hfin⟩
    · cases h
  | _ => simp [State.step, hfin] at h

theorem good_of_reach (h : machine.Reach anyAction s) : Good s := by
  refine h.inv ?_ ?_
  · rintro s ⟨b, rfl⟩
    exact .inl ⟨rfl, inv_start b⟩
  · intro s a s' hs _ hstep
    rcases hs with ⟨hrec, hinv⟩ | ⟨hrun, hfin⟩
    · exact inv_step hrec hinv hstep
    · exact .inr (running_step hrun hfin hstep)

/-! ## What recovery guarantees -/

/-- The guarantees of one step `a` from `s` to `s'`. A key is free when no call
holds it. -/
structure Safe (s : State) (a : Action) (s' : State) : Prop where
  /-- At the moment `kRunning` is published the layers agree on every free key
  the cache holds. -/
  published : s.recoverState = .recover → s'.recoverState = .running →
    ∀ k, s'.calls k = none → (s'.cache.lookup k).isSome = true →
      ∀ id, s'.cache.cell k id = s'.persistent.cell k id
  /-- A backfill does not bring back a key whose last acknowledged write
  deleted it. -/
  notResurrected : a = .backfill → ∀ k, s.calls k = none → s.lastWrite k = some .delete →
    s'.cache.lookup k = s.cache.lookup k ∧ ∀ id, s'.cache.cell k id = none
  /-- A backfill overwrites no cached entry. -/
  keepsCached : a = .backfill → ∀ k e, s.cache.lookup k = some e → s'.cache.lookup k = some e
  /-- What a backfill inserts for a free key is what the acknowledged writes
  left in the persistent layer. -/
  insertsCurrent : a = .backfill → ∀ k e, s.calls k = none → s.cache.lookup k = none →
    s'.cache.lookup k = some e → s.persistent.store.lookup k = some e

/-- A backfill step inserts the head of its batch, if that is missing. -/
theorem backfill_cases (h : s.step .backfill = some s') :
    ∃ p todo last, s.task = .backfilling (p :: todo) last
      ∧ ((s.cache.lookup p.1).isSome = true ∧ s'.cache = s.cache
        ∨ s.cache.lookup p.1 = none ∧ s'.cache = s.cache.insert p.1 p.2) := by
  simp only [State.step] at h
  split at h
  · rename_i p todo last ht
    obtain rfl := some.inj h
    refine ⟨p, todo, last, ht, ?_⟩
    simp only [Hot.putIfAbsent, Hot.put]
    split
    · rename_i hsome
      exact .inl ⟨hsome, rfl⟩
    · rename_i hnone
      exact .inr ⟨by simpa using hnone, rfl⟩
  · cases h

theorem Inv.backfill_current (hinv : Inv s) {p : KeyType × KeyEntry} {last : Bool}
    (ht : s.task = .backfilling (p :: todo) last) (hfree : s.calls p.1 = none)
    (hnone : s.cache.lookup p.1 = none) :
    s.persistent.store.lookup p.1 = some p.2 := by
  have hok := hinv.calls p.1
  rw [hfree] at hok
  have hpending : (p.1, p.2) ∈ s.task.pending := by rw [ht]; exact mem_cons_self ..
  rcases hok.2.1 p.2 hpending with h | h | h
  · exact h
  · rw [show (s.view p.1).cache = none from hnone] at h; cases h
  · exact absurd h (hinv.todo _ _ ht p (mem_cons_self ..))

/-- A free key whose last acknowledged write deleted it has no location in the
cache. -/
theorem Inv.deleted_cell (hinv : Inv s) (hfree : s.calls k = none)
    (hdel : s.lastWrite k = some .delete) (id : LocationId) : s.cache.cell k id = none := by
  have hok := hinv.calls k
  rw [hfree] at hok
  have hnone : s.persistent.store.lookup k = none := hok.2.2 hdel
  cases hc : s.cache.lookup k with
  | none => exact Store.cell_of_none hc id
  | some e =>
    have hsync := hok.1 (show (s.cache.lookup k).isSome = true by rw [hc]; rfl) id
    rw [show (s.view k).persistent = none from hnone] at hsync
    exact hsync

theorem reach_running (h : machine.Reach anyAction s) (ht : s.task ≠ .finished) :
    s.recoverState = .recover ∧ Inv s := by
  rcases good_of_reach h with hgood | ⟨-, hfin⟩
  · exact hgood
  · exact absurd hfin ht

theorem published_synced (hreach : machine.Reach anyAction s) (hstep : s.step a = some s')
    (hrec : s.recoverState = .recover) (hrun : s'.recoverState = .running)
    (hfree : s'.calls k = none) (hsome : (s'.cache.lookup k).isSome = true) (id : LocationId) :
    s'.cache.cell k id = s'.persistent.cell k id := by
  have hinv : Inv s := by
    rcases good_of_reach hreach with ⟨-, hinv⟩ | ⟨hrun', -⟩
    · exact hinv
    · rw [hrec] at hrun'; cases hrun'
  -- only `finish` changes the state of recovery, and it touches neither layer
  have hfinish : s'.cache = s.cache ∧ s'.persistent = s.persistent ∧ s'.calls = s.calls := by
    cases a with
    | finish =>
      simp only [State.step] at hstep
      split at hstep
      · obtain rfl := some.inj hstep
        exact ⟨rfl, rfl, rfl⟩
      · cases hstep
    | advance k' =>
      simp only [State.step] at hstep
      split at hstep
      · rw [(advance_aside hstep).recoverState, hrec] at hrun
        cases hrun
      · cases hstep
    | _ =>
      simp only [State.step] at hstep
      split at hstep
      · obtain rfl := some.inj hstep
        rw [show s.recoverState = .running from hrun] at hrec
        cases hrec
      · cases hstep
  obtain ⟨hcache, hpers, hcalls⟩ := hfinish
  have hok := hinv.calls k
  rw [show s.calls k = none by rw [← hcalls]; exact hfree] at hok
  rw [hcache] at hsome ⊢
  rw [hpers]
  exact hok.1 hsome id

theorem recovery_safe {s s' : State} {a : Action} (hreach : machine.Reach anyAction s)
    (hstep : s.step a = some s') : Safe s a s' := by
  refine ⟨fun hrec hrun k hfree hsome id =>
    published_synced hreach hstep hrec hrun hfree hsome id, ?_, ?_, ?_⟩
  · rintro rfl k hfree hdel
    obtain ⟨p, todo, last, ht, hcases⟩ := backfill_cases hstep
    obtain ⟨-, hinv⟩ := reach_running hreach (by rw [ht]; nofun)
    have hcell := fun id => hinv.deleted_cell hfree hdel id
    rcases hcases with ⟨-, hcache⟩ | ⟨hnone, hcache⟩
    · rw [hcache]; exact ⟨rfl, hcell⟩
    · have hne : k ≠ p.1 := by
        rintro rfl
        have hok := hinv.calls p.1
        rw [hfree] at hok
        have habs : s.persistent.store.lookup p.1 = none := hok.2.2 hdel
        rw [hinv.backfill_current ht hfree hnone] at habs
        cases habs
      rw [hcache, AList.lookup_insert_ne hne]
      exact ⟨rfl, fun id => by rw [Store.cell_insert, if_neg hne]; exact hcell id⟩
  · rintro rfl k e he
    obtain ⟨p, todo, last, ht, hcases⟩ := backfill_cases hstep
    rcases hcases with ⟨-, hcache⟩ | ⟨hnone, hcache⟩
    · rw [hcache, he]
    · have hne : k ≠ p.1 := by rintro rfl; rw [hnone] at he; cases he
      rw [hcache, AList.lookup_insert_ne hne, he]
  · rintro rfl k e hfree hnone' hins
    obtain ⟨p, todo, last, ht, hcases⟩ := backfill_cases hstep
    obtain ⟨-, hinv⟩ := reach_running hreach (by rw [ht]; nofun)
    rcases hcases with ⟨-, hcache⟩ | ⟨hnone, hcache⟩
    · rw [hcache, hnone'] at hins; cases hins
    · rcases eq_or_ne k p.1 with rfl | hk
      · rw [hcache, AList.lookup_insert] at hins
        obtain rfl := some.inj hins
        exact hinv.backfill_current ht hfree hnone
      · rw [hcache, AList.lookup_insert_ne hk, hnone'] at hins
        cases hins

/-- A run in which the task has read a key that is then deleted: the tombstone
keeps the stale copy out, and the run publishes. -/
theorem recovery_safe_deleted_key : ∃ s s', s.step .finish = some s' ∧ s'.recoverState = .running
      ∧ s'.cache.lookup 1 = none ∧ Safe s .finish s' := by
  let b : Backend := { kind := .redis, store := (∅ : Store).insert 1 KeyEntry.empty }
  obtain ⟨s, hs⟩ : ∃ s, machine.run (start b)
      ([.scan [1] true, .get, .call 1 .delete] ++ replicate 6 (.advance 1)
        ++ [.beginBackfill, .endBackfill]) = some s := ⟨_, rfl⟩
  have hreach := reach_of_run (m := machine) ⟨b, rfl⟩ hs
  obtain rfl := some.inj hs
  exact ⟨_, _, rfl, rfl, rfl, recovery_safe hreach rfl⟩

end TairKvCache.Recovery
