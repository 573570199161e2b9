import TairKvCache.Lib.FinMap
import TairKvCache.Lib.Machine
import TairKvCache.Lib.OrdMap
import TairKvCache.Types

/-!
# Write sessions

`manager/write_location_manager.cc`. A write session waits in three tables
guarded by one mutex: the units ordered by their expiry point, the expiry
point of each session id, and a reference count per location id. A session
leaves the tables through `GetAndDelete`, through the expiry loop or through
`DropAll`; in the last two cases its callback runs after the mutex has been
released, so a session may be out of the tables and not yet delivered.

The machine has one action per critical section. What happens between two
of them (a `Put` that has read the clock and waits for the mutex, a loop
that has read the current point, a vector of units whose callbacks are still
to run) is part of the state, so a run is an arbitrary interleaving.

Expiry points are `int64_t` microseconds. They are integers here: the
source's additions are signed, and `StartWriteCache` caps the timeout at
1800 s before it calls `Put`.
-/

namespace TairKvCache

open Lib List OrdMap

structure WriteLocationInfo where
  keys : List KeyType
  locationIds : List LocationId
deriving DecidableEq, Repr

/-- `ExpireUnit`, without the callback: it is bound to the session id. -/
structure ExpireUnit where
  expirePoint : Int
  writeSessionId : String
  writeLocationInfo : WriteLocationInfo
deriving DecidableEq, Repr

/-- `location_id_index_`: how often each location id is held. -/
abbrev LocationIndex := AList (fun _ : LocationId => Nat)

def addToLocationIndexUnsafe (ix : LocationIndex) (ids : List LocationId) : LocationIndex :=
  ids.foldl (fun ix id => ix.insert id ((ix.lookup id).getD 0 + 1)) ix

def removeFromLocationIndexUnsafe (ix : LocationIndex) (ids : List LocationId) : LocationIndex :=
  ids.foldl (fun ix id =>
    match ix.lookup id with
    | none => ix
    | some n => if n - 1 = 0 then ix.erase id else ix.insert id (n - 1)) ix

structure SessionIdMap where
  sessionIdMapImpl : AList (fun _ : String => Int)
  unitMap : OrdMap Int ExpireUnit
  locationIdIndex : LocationIndex

namespace SessionIdMap

def empty : SessionIdMap := ⟨∅, OrdMap.empty, ∅⟩

def live (m : SessionIdMap) : List ExpireUnit := m.unitMap.entries.map (·.2)

/-- The loop of `Put` that moves the point past the taken ones; no more
rounds are needed than there are entries (`freePoint_free`). -/
def freePoint (m : OrdMap Int ExpireUnit) : Nat → Int → Int
  | 0, p => p
  | n + 1, p => if (m.find p).isSome then freePoint m n (p + 1) else p

def put (m : SessionIdMap) (unit : ExpireUnit) : SessionIdMap :=
  let point := freePoint m.unitMap m.unitMap.entries.length unit.expirePoint
  { sessionIdMapImpl := m.sessionIdMapImpl.insert unit.writeSessionId point
    unitMap := m.unitMap.insert point { unit with expirePoint := point }
    locationIdIndex :=
      addToLocationIndexUnsafe m.locationIdIndex unit.writeLocationInfo.locationIds }

/-- `GetAndDelete`: the unit handed over, if the session is known. The outer
`none` is the failed `assert` on the expiry-point table. -/
def getAndDelete (m : SessionIdMap) (writeSessionId : String) :
    Option (Option ExpireUnit × SessionIdMap) :=
  match m.sessionIdMapImpl.lookup writeSessionId with
  | none => some (none, m)
  | some point =>
    (m.unitMap.find point).map fun unit =>
      (some unit,
        { sessionIdMapImpl := m.sessionIdMapImpl.erase writeSessionId
          unitMap := m.unitMap.erase point
          locationIdIndex :=
            removeFromLocationIndexUnsafe m.locationIdIndex
              unit.writeLocationInfo.locationIds })

/-- One round of the loop of `DropByExpirePoint`, but for the erasure of the
unit itself. -/
def forget (m : AList (fun _ : String => Int) × LocationIndex) (unit : ExpireUnit) :
    AList (fun _ : String => Int) × LocationIndex :=
  (m.1.erase unit.writeSessionId,
    removeFromLocationIndexUnsafe m.2 unit.writeLocationInfo.locationIds)

/-- The locked section of `DropByExpirePoint`: the units taken out, in the
order of their points, and the table left. -/
def dropByExpirePoint (m : SessionIdMap) (curPoint : Int) : List ExpireUnit × SessionIdMap :=
  let units := (m.unitMap.upTo curPoint).map (·.2)
  let rest := units.foldl forget (m.sessionIdMapImpl, m.locationIdIndex)
  (units,
    { sessionIdMapImpl := rest.1, unitMap := m.unitMap.after curPoint, locationIdIndex := rest.2 })

/-- The locked section of `DropAll`; the index is cleared as a whole. -/
def dropAll (m : SessionIdMap) : List ExpireUnit × SessionIdMap :=
  (m.live,
    { sessionIdMapImpl := m.live.foldl (fun ids u => ids.erase u.writeSessionId) m.sessionIdMapImpl
      unitMap := OrdMap.empty
      locationIdIndex := ∅ })

def hasLocationId (m : SessionIdMap) (locationId : LocationId) : Bool :=
  (m.locationIdIndex.lookup locationId).isSome

end SessionIdMap

/-! ## The location index counts occurrences -/

/-- A count, stored only when it is not zero. -/
def stored (n : Nat) : Option Nat := if n = 0 then none else some n

theorem lookup_addToLocationIndexUnsafe (ix : LocationIndex) (ids : List LocationId)
    (id : LocationId) (n : Nat) (h : ix.lookup id = stored n) :
    (addToLocationIndexUnsafe ix ids).lookup id = stored (n + ids.count id) := by
  induction ids generalizing ix n with
  | nil => simpa [addToLocationIndexUnsafe] using h
  | cons b ids ih =>
    have hgoal : (addToLocationIndexUnsafe (ix.insert b ((ix.lookup b).getD 0 + 1)) ids).lookup id
        = stored (n + (b :: ids).count id) := by
      rcases eq_or_ne id b with rfl | hb
      · rw [ih _ (n + 1) ?_, count_cons_self, Nat.add_assoc, Nat.add_comm 1]
        rw [AList.lookup_insert, h, stored]
        by_cases hn : n = 0 <;> simp [hn, stored]
      · rw [ih _ n ?_, count_cons_of_ne (Ne.symm hb)]
        rw [AList.lookup_insert_ne hb, h]
    exact hgoal

theorem lookup_removeFromLocationIndexUnsafe (ix : LocationIndex) (ids : List LocationId)
    (id : LocationId) (n : Nat) (h : ix.lookup id = stored (n + ids.count id)) :
    (removeFromLocationIndexUnsafe ix ids).lookup id = stored n := by
  induction ids generalizing ix with
  | nil => simpa [removeFromLocationIndexUnsafe] using h
  | cons b ids ih =>
    refine ih _ ?_
    rcases eq_or_ne id b with rfl | hb
    · rw [count_cons_self] at h
      have hix : ix.lookup id = some (n + ids.count id + 1) := by
        rw [h, stored, if_neg (by omega), Nat.add_assoc]
      simp only [hix, Nat.add_sub_cancel, stored]
      split_ifs with h0
      · exact AList.lookup_erase _ _
      · exact AList.lookup_insert _
    · rw [count_cons_of_ne (Ne.symm hb)] at h
      rw [← h]
      cases hbk : ix.lookup b with
      | none => simp only [hbk]
      | some k =>
        simp only [hbk]
        split_ifs
        · exact AList.lookup_erase_ne hb
        · exact AList.lookup_insert_ne hb

variable {m m' : SessionIdMap} {id : String} {u : ExpireUnit} (us : List ExpireUnit)

namespace SessionIdMap

/-- How often the units of a list hold a location id. -/
def held (us : List ExpireUnit) (id : LocationId) : Nat :=
  (us.map fun u => u.writeLocationInfo.locationIds.count id).sum

@[simp] theorem held_nil (id : LocationId) : held [] id = 0 := rfl

@[simp] theorem held_cons (u : ExpireUnit) (us : List ExpireUnit) (id : LocationId) :
    held (u :: us) id = u.writeLocationInfo.locationIds.count id + held us id := by
  simp [held]

theorem held_append (vs : List ExpireUnit) (id : LocationId) :
    held (us ++ vs) id = held us id + held vs id := by
  simp [held]

theorem held_perm {us vs : List ExpireUnit} (h : us.Perm vs) (id : LocationId) :
    held us id = held vs id :=
  (h.map _).sum_nat

theorem held_eq_zero_iff (id : LocationId) :
    held us id = 0 ↔ ∀ u ∈ us, id ∉ u.writeLocationInfo.locationIds := by
  induction us with
  | nil => simp
  | cons u us ih => simp [ih, count_eq_zero]

/-! ## The three tables describe the same sessions -/

/-- The session, expiry-point and location tables agree. -/
structure Consistent (m : SessionIdMap) : Prop where
  point : ∀ e ∈ m.unitMap.entries, e.2.expirePoint = e.1
  session : ∀ id p, m.sessionIdMapImpl.lookup id = some p ↔
    ∃ u, m.unitMap.find p = some u ∧ u.writeSessionId = id
  index : ∀ id, m.locationIdIndex.lookup id = stored (held m.live id)

theorem Consistent.empty : empty.Consistent where
  point := by simp [SessionIdMap.empty]
  session := by simp [SessionIdMap.empty]
  index := by simp [SessionIdMap.empty, live, stored]

/-- A location id is indexed exactly when a live session holds it. -/
theorem Consistent.hasLocationId_iff (h : m.Consistent) (id : LocationId) :
    m.hasLocationId id = true ↔ ∃ u ∈ m.live, id ∈ u.writeLocationInfo.locationIds := by
  have hz := held_eq_zero_iff m.live id
  simp only [hasLocationId, h.index id, stored]
  split_ifs with h0
  · simpa using hz.mp h0
  · simpa using fun hall => h0 (hz.mpr hall)

theorem Consistent.lookup_isSome_iff (h : m.Consistent) (id : String) :
    (m.sessionIdMapImpl.lookup id).isSome = true ↔ ∃ u ∈ m.live, u.writeSessionId = id := by
  simp only [Option.isSome_iff_exists, h.session, live, mem_map]
  constructor
  · rintro ⟨p, u, hu, rfl⟩
    exact ⟨u, ⟨(p, u), (m.unitMap.find_eq_some_iff p u).mp hu, rfl⟩, rfl⟩
  · rintro ⟨u, ⟨e, he, rfl⟩, rfl⟩
    exact ⟨e.1, e.2, (m.unitMap.find_eq_some_iff _ _).mpr he, rfl⟩

/-- The `assert` of `GetAndDelete` never fires. -/
theorem Consistent.getAndDelete_isSome (h : m.Consistent) (id : String) :
    (m.getAndDelete id).isSome = true := by
  unfold getAndDelete
  cases hl : m.sessionIdMapImpl.lookup id with
  | none => rfl
  | some p =>
    obtain ⟨u, hu, -⟩ := (h.session id p).mp hl
    simp [hu]

/-! ## Put -/

theorem le_freePoint (m : OrdMap Int ExpireUnit) (n : Nat) (p : Int) : p ≤ freePoint m n p := by
  induction n generalizing p with
  | zero => exact le_refl p
  | succ n ih =>
    unfold freePoint
    split_ifs
    · have := ih (p + 1)
      omega
    · exact le_refl p

theorem countP_ge_succ (l : List (Int × ExpireUnit)) (p : Int) :
    l.countP (fun e => decide (p ≤ e.1))
      = l.countP (fun e => decide (p + 1 ≤ e.1)) + l.countP (fun e => decide (e.1 = p)) := by
  induction l with
  | nil => rfl
  | cons e l ih =>
    simp only [countP_cons, ih, decide_eq_true_eq]
    split_ifs <;> omega

/-- Each round leaves a taken point behind, so the rounds suffice. -/
theorem freePoint_free_go (m : OrdMap Int ExpireUnit) (n : Nat) (p : Int)
    (hn : m.entries.countP (fun e => decide (p ≤ e.1)) ≤ n) : m.find (freePoint m n p) = none := by
  induction n generalizing p with
  | zero =>
    rw [freePoint, m.find_eq_none_iff]
    rintro e he rfl
    have := countP_eq_zero.mp (Nat.le_zero.mp hn) e he
    simp at this
  | succ n ih =>
    unfold freePoint
    split_ifs with hp
    · refine ih _ ?_
      obtain ⟨u, hu⟩ := Option.isSome_iff_exists.mp hp
      have hpos : 0 < m.entries.countP fun e => decide (e.1 = p) :=
        countP_pos_iff.mpr ⟨(p, u), (m.find_eq_some_iff p u).mp hu, by simp⟩
      have := countP_ge_succ m.entries p
      omega
    · simpa using hp

theorem freePoint_free (m : OrdMap Int ExpireUnit) (p : Int) :
    m.find (freePoint m m.entries.length p) = none :=
  freePoint_free_go m _ p countP_le_length

def placedAt (m : SessionIdMap) (unit : ExpireUnit) : ExpireUnit :=
  { unit with expirePoint := freePoint m.unitMap m.unitMap.entries.length unit.expirePoint }

theorem put_entries_perm (m : SessionIdMap) (unit : ExpireUnit) : (m.put unit).unitMap.entries.Perm
      (((m.placedAt unit).expirePoint, m.placedAt unit) :: m.unitMap.entries) :=
  insert_perm _ (freePoint_free m.unitMap unit.expirePoint)

theorem put_live_perm (m : SessionIdMap) (unit : ExpireUnit) :
    (m.put unit).live.Perm (m.placedAt unit :: m.live) :=
  (m.put_entries_perm unit).map _

theorem Consistent.put (h : m.Consistent) {unit : ExpireUnit}
    (hfresh : ∀ u ∈ m.live, u.writeSessionId ≠ unit.writeSessionId) : (m.put unit).Consistent where
  point := by
    intro e he
    rcases mem_cons.mp ((m.put_entries_perm unit).mem_iff.mp he) with rfl | he
    · rfl
    · exact h.point e he
  session := by
    intro id p
    have hfind : ∀ u, (m.put unit).unitMap.find p = some u ↔
        ((p, u) = ((m.placedAt unit).expirePoint, m.placedAt unit) ∨ m.unitMap.find p = some u) := by
      intro u
      rw [find_eq_some_iff, (m.put_entries_perm unit).mem_iff, mem_cons,
        find_eq_some_iff]
    simp only [hfind]
    have hins : (m.put unit).sessionIdMapImpl
        = m.sessionIdMapImpl.insert unit.writeSessionId (m.placedAt unit).expirePoint := rfl
    rcases eq_or_ne id unit.writeSessionId with rfl | hid
    · rw [hins, AList.lookup_insert]
      constructor
      · rintro hp
        obtain rfl := Option.some.inj hp
        exact ⟨m.placedAt unit, .inl rfl, rfl⟩
      · rintro ⟨u, hu | hu, hidu⟩
        · rw [(Prod.mk.inj hu).1]
        · have hmem := (m.unitMap.find_eq_some_iff p u).mp hu
          exact absurd hidu (hfresh u (mem_map.mpr ⟨_, hmem, rfl⟩))
    · rw [hins, AList.lookup_insert_ne hid, h.session]
      constructor
      · rintro ⟨u, hu, rfl⟩
        exact ⟨u, .inr hu, rfl⟩
      · rintro ⟨u, hu | hu, rfl⟩
        · rw [(Prod.mk.inj hu).2] at hid
          exact absurd rfl hid
        · exact ⟨u, hu, rfl⟩
  index := by
    intro id
    rw [held_perm (m.put_live_perm unit) id, held_cons, Nat.add_comm]
    exact lookup_addToLocationIndexUnsafe _ _ id _ (h.index id)

/-! ## GetAndDelete -/

theorem getAndDelete_live {r : Option ExpireUnit} (h : m.getAndDelete id = some (r, m')) :
    m.live.Perm (r.toList ++ m'.live) := by
  unfold getAndDelete at h
  cases hl : m.sessionIdMapImpl.lookup id with
  | none =>
    simp only [hl, Option.some.injEq, Prod.mk.injEq] at h
    obtain ⟨rfl, rfl⟩ := h
    exact .refl _
  | some p =>
    simp only [hl, Option.map_eq_some_iff, Prod.mk.injEq] at h
    obtain ⟨u, hu, rfl, rfl⟩ := h
    exact (erase_perm hu).map _

theorem Consistent.getAndDelete_session (h : m.Consistent)
    (hg : m.getAndDelete id = some (some u, m')) : u.writeSessionId = id := by
  unfold SessionIdMap.getAndDelete at hg
  cases hl : m.sessionIdMapImpl.lookup id with
  | none => simp [hl] at hg
  | some p =>
    obtain ⟨v, hv, rfl⟩ := (h.session id p).mp hl
    simp only [hl, hv, Option.map_some, Option.some.injEq, Prod.mk.injEq] at hg
    rw [hg.1]

theorem Consistent.getAndDelete (h : m.Consistent) {r : Option ExpireUnit}
    (hg : m.getAndDelete id = some (r, m')) : m'.Consistent := by
  have hperm := getAndDelete_live hg
  unfold SessionIdMap.getAndDelete at hg
  cases hl : m.sessionIdMapImpl.lookup id with
  | none =>
    simp only [hl, Option.some.injEq, Prod.mk.injEq] at hg
    exact hg.2 ▸ h
  | some p =>
    simp only [hl, Option.map_eq_some_iff, Prod.mk.injEq] at hg
    obtain ⟨u, hu, rfl, rfl⟩ := hg
    have hentries := erase_perm hu
    have hkept : ∀ e, e ∈ (m.unitMap.erase p).entries ↔ e ∈ m.unitMap.entries ∧ e.1 ≠ p := by
      simp [OrdMap.erase]
    have huid : u.writeSessionId = id := by
      obtain ⟨v, hv, hvid⟩ := (h.session id p).mp hl
      rw [hu] at hv
      rw [Option.some.inj hv, hvid]
    refine ⟨fun e he => h.point e ((hkept e).mp he).1, fun id' p' => ?_, fun loc => ?_⟩
    · simp only [find_eq_some_iff, hkept]
      rcases eq_or_ne id' id with rfl | hid
      · rw [AList.lookup_erase]
        refine iff_of_false (by simp) ?_
        rintro ⟨v, ⟨hv, hne⟩, hvid⟩
        refine hne ?_
        have := (h.session id' p').mpr ⟨v, (m.unitMap.find_eq_some_iff _ _).mpr hv, hvid⟩
        exact Option.some.inj (this.symm.trans hl)
      · rw [AList.lookup_erase_ne hid, h.session]
        simp only [find_eq_some_iff]
        constructor
        · rintro ⟨v, hv, rfl⟩
          refine ⟨v, ⟨hv, ?_⟩, rfl⟩
          rintro rfl
          have := (m.unitMap.find_eq_some_iff p' v).mpr hv
          rw [hu] at this
          exact hid (by rw [← Option.some.inj this, huid])
        · rintro ⟨v, ⟨hv, -⟩, rfl⟩
          exact ⟨v, hv, rfl⟩
    · refine lookup_removeFromLocationIndexUnsafe _ _ loc _ ?_
      rw [h.index loc, held_perm hperm loc]
      simp [Nat.add_comm]

/-! ## Dropping -/

theorem foldl_forget_fst (m : AList (fun _ : String => Int) × LocationIndex) :
    (us.foldl forget m).1 = FinMap.eraseAll m.1 (us.map ExpireUnit.writeSessionId) := by
  induction us generalizing m with
  | nil => rfl
  | cons u us ih => exact ih (forget m u)

theorem lookup_foldl_forget_snd (m : AList (fun _ : String => Int) × LocationIndex)
    (id : LocationId) (n : Nat) (h : m.2.lookup id = stored (n + held us id)) :
    (us.foldl forget m).2.lookup id = stored n := by
  induction us generalizing m with
  | nil => simpa using h
  | cons u us ih =>
    refine ih (forget m u) (lookup_removeFromLocationIndexUnsafe _ _ id _ ?_)
    rw [h, held_cons]
    congr 1
    omega

theorem dropByExpirePoint_live (m : SessionIdMap) (cur : Int) :
    m.live = (m.dropByExpirePoint cur).1 ++ (m.dropByExpirePoint cur).2.live := by
  simp only [dropByExpirePoint, live, ← map_append, upTo_append_after]

theorem Consistent.dropByExpirePoint_due (h : m.Consistent) {cur : Int}
    (hu : u ∈ (m.dropByExpirePoint cur).1) : u.expirePoint ≤ cur := by
  obtain ⟨e, he, rfl⟩ := mem_map.mp hu
  have hmem : e ∈ m.unitMap.entries := by
    rw [← m.unitMap.upTo_append_after cur]
    exact mem_append_left _ he
  rw [h.point e hmem]
  exact le_of_mem_upTo he

theorem Consistent.dropByExpirePoint_rest (h : m.Consistent) {cur : Int}
    (hu : u ∈ (m.dropByExpirePoint cur).2.live) : cur < u.expirePoint := by
  obtain ⟨e, he, rfl⟩ := mem_map.mp hu
  have hmem : e ∈ m.unitMap.entries := by
    rw [← m.unitMap.upTo_append_after cur]
    exact mem_append_right _ he
  rw [h.point e hmem]
  exact lt_of_mem_after he

theorem Consistent.dropByExpirePoint (h : m.Consistent) (cur : Int) :
    (m.dropByExpirePoint cur).2.Consistent := by
  have hsplit := m.unitMap.upTo_append_after cur
  have hentries : ∀ e, e ∈ m.unitMap.entries ↔
      e ∈ m.unitMap.upTo cur ∨ e ∈ (m.unitMap.after cur).entries := fun e => by
    rw [← hsplit, mem_append]
  have hlook : ∀ id p, m.sessionIdMapImpl.lookup id = some p ↔
      ∃ u, (p, u) ∈ m.unitMap.entries ∧ u.writeSessionId = id := fun id p => by
    simp only [h.session, find_eq_some_iff]
  refine ⟨fun e he => h.point e ((hentries e).mpr (.inr he)), fun id p => ?_, fun loc => ?_⟩
  · have hfst : (m.dropByExpirePoint cur).2.sessionIdMapImpl
        = FinMap.eraseAll m.sessionIdMapImpl
            (((m.unitMap.upTo cur).map (·.2)).map ExpireUnit.writeSessionId) :=
      foldl_forget_fst _ _
    have hmap : (m.dropByExpirePoint cur).2.unitMap = m.unitMap.after cur := rfl
    rw [hfst, FinMap.lookup_eraseAll, hmap]
    simp only [find_eq_some_iff]
    split_ifs with hid
    · -- A session that is dropped has no second unit further up.
      refine iff_of_false (by simp) ?_
      rintro ⟨u, hu, rfl⟩
      obtain ⟨_, hv, hvid⟩ := mem_map.mp hid
      obtain ⟨e, he, rfl⟩ := mem_map.mp hv
      have h₁ := (hlook u.writeSessionId p).mpr ⟨u, (hentries _).mpr (.inr hu), rfl⟩
      have h₂ := (hlook u.writeSessionId e.1).mpr ⟨e.2, (hentries _).mpr (.inl he), hvid⟩
      have hpe : p = e.1 := Option.some.inj (h₁.symm.trans h₂)
      have hlt : cur < p := lt_of_mem_after hu
      have hle : e.1 ≤ cur := le_of_mem_upTo he
      omega
    · rw [hlook]
      constructor
      · rintro ⟨u, hu, rfl⟩
        rcases (hentries _).mp hu with hu | hu
        · exact absurd (mem_map.mpr ⟨u, mem_map.mpr ⟨_, hu, rfl⟩, rfl⟩) hid
        · exact ⟨u, hu, rfl⟩
      · rintro ⟨u, hu, rfl⟩
        exact ⟨u, (hentries _).mpr (.inr hu), rfl⟩
  · refine lookup_foldl_forget_snd _ _ loc _ ?_
    rw [h.index loc]
    have hlive := m.dropByExpirePoint_live cur
    rw [hlive, held_append, Nat.add_comm]
    rfl

theorem Consistent.dropAll (h : m.Consistent) : m.dropAll.2.Consistent := by
  refine ⟨by simp [SessionIdMap.dropAll], fun id p => ?_, fun loc => by simp [SessionIdMap.dropAll, live, stored]⟩
  have hfold : ∀ (us : List ExpireUnit) (ids : AList (fun _ : String => Int)),
      us.foldl (fun ids u => ids.erase u.writeSessionId) ids
        = FinMap.eraseAll ids (us.map ExpireUnit.writeSessionId) := by
    intro us
    induction us with
    | nil => exact fun _ => rfl
    | cons u us ih => exact fun ids => ih (ids.erase u.writeSessionId)
  simp only [SessionIdMap.dropAll, hfold, FinMap.lookup_eraseAll, find_empty]
  refine iff_of_false ?_ (by simp)
  split_ifs with hid
  · simp
  · intro hp
    have := (h.lookup_isSome_iff id).mp (by simp [hp])
    exact hid (mem_map.mpr this)

end SessionIdMap

end TairKvCache
