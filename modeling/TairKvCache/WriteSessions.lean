import TairKvCache.WriteLocationManager

/-!
# Write sessions under every interleaving

One action per critical section of `WriteLocationManager`, and one per
callback. `Session` is what a caller of `Put` hands in, with the deadline it
asked for; `puts` and `delivered` are histories and no step reads them.

The invariant (`Inv`) is an accounting one: the sessions handed in are, up to
order, those delivered and those still somewhere in the manager. With
pairwise distinct session ids this is "exactly once", and it is also what
makes a `Put` fresh for the tables.
-/

namespace TairKvCache.WriteSessions

open Lib List Machine SessionIdMap
open Option (elim toList some.inj)

/-- What `Put` was given. -/
structure Session where
  id : String
  info : WriteLocationInfo
  deadline : Int
deriving DecidableEq, Repr

inductive Receiver where
  | getAndDelete (id : String)
  | expiry
  | dropAll
deriving DecidableEq, Repr

structure Delivery where
  unit : ExpireUnit
  receiver : Receiver
  time : Int
deriving DecidableEq, Repr

/-- The expiry thread: sleeping, with a current point read, or with units
taken out whose callbacks are to run. -/
inductive ExpireLoop where
  | waiting
  | read (curPoint : Int)
  | expiring (units : List ExpireUnit)

def ExpireLoop.units : ExpireLoop → List ExpireUnit
  | .expiring us => us
  | _ => []

structure State where
  clock : Int
  /-- `Put` calls that have read the clock and not yet taken the mutex. -/
  starting : List ExpireUnit
  table : SessionIdMap
  loop : ExpireLoop
  /-- The local vectors of the `DropAll` calls that are running callbacks. -/
  dropping : List (List ExpireUnit)
  puts : List Session
  delivered : List Delivery

inductive Action where
  | tick (us : Nat)
  | put (id : String) (info : WriteLocationInfo) (timeoutSeconds : Int)
  | insert (n : Nat)
  | getAndDelete (id : String)
  | readClock
  | dropByExpirePoint
  | expire
  | dropAll
  | drop (n : Nat)

def State.deliver (s : State) (unit : ExpireUnit) (receiver : Receiver) : State :=
  { s with delivered := ⟨unit, receiver, s.clock⟩ :: s.delivered }

def step (s : State) : Action → Option State
  | .tick us => some { s with clock := s.clock + us }
  | .put id info timeoutSeconds =>
    let deadline := s.clock + timeoutSeconds * 1000 * 1000
    some { s with
      starting := ⟨deadline, id, info⟩ :: s.starting
      puts := ⟨id, info, deadline⟩ :: s.puts }
  | .insert n =>
    s.starting[n]?.map fun unit =>
      { s with starting := s.starting.eraseIdx n, table := s.table.put unit }
  | .getAndDelete id =>
    (s.table.getAndDelete id).map fun r =>
      let s' := { s with table := r.2 }
      r.1.elim s' fun unit => s'.deliver unit (.getAndDelete id)
  | .readClock =>
    match s.loop with
    | .waiting => some { s with loop := .read s.clock }
    | _ => none
  | .dropByExpirePoint =>
    match s.loop with
    | .read curPoint =>
      let r := s.table.dropByExpirePoint curPoint
      some { s with table := r.2, loop := .expiring r.1 }
    | _ => none
  | .expire =>
    match s.loop with
    | .expiring [] => some { s with loop := .waiting }
    | .expiring (unit :: units) => some ({ s with loop := .expiring units }.deliver unit .expiry)
    | _ => none
  | .dropAll =>
    let r := s.table.dropAll
    some { s with table := r.2, dropping := r.1 :: s.dropping }
  | .drop n =>
    match s.dropping[n]? with
    | some (unit :: units) =>
      some ({ s with dropping := s.dropping.set n units }.deliver unit .dropAll)
    | _ => none

def start (clock : Int) : State :=
  { clock, starting := [], table := empty, loop := .waiting, dropping := []
    puts := [], delivered := [] }

def manager : Machine State Action where
  init s := ∃ clock, s = start clock
  step := step

/-- Callers never reuse a session id. -/
def DistinctIds (s : State) : Action → Prop
  | .put id _ _ => ∀ p ∈ s.puts, p.id ≠ id
  | _ => True

/-- The units that were handed in and not delivered yet. -/
def State.outstanding (s : State) : List ExpireUnit :=
  s.starting ++ s.table.live ++ s.loop.units ++ s.dropping.flatten

def State.units (s : State) : List ExpireUnit :=
  s.delivered.map Delivery.unit ++ s.outstanding

/-! ## Moving units around -/

/-- The caller's content of a unit: what must come out as it went in. -/
def content (u : ExpireUnit) : String × WriteLocationInfo :=
  (u.writeSessionId, u.writeLocationInfo)

def Session.content (p : Session) : String × WriteLocationInfo := (p.id, p.info)

/-- A step between `Put`s: no unit appears or disappears, and none becomes
due earlier. -/
structure Moved (s s' : State) : Prop where
  puts : s'.puts = s.puts
  perm : (s'.units.map content).Perm (s.units.map content)
  later : ∀ u ∈ s'.units, ∃ v ∈ s.units, content v = content u ∧ v.expirePoint ≤ u.expirePoint

variable {s s' : State} {n : Nat} {unit : ExpireUnit}

theorem Moved.of_perm (hputs : s'.puts = s.puts) (h : s'.units.Perm s.units) : Moved s s' :=
  ⟨hputs, h.map _, fun u hu => ⟨u, h.mem_iff.mp hu, rfl, le_rfl⟩⟩

theorem flatten_perm_cons_set {ds : List (List ExpireUnit)} {u : ExpireUnit} {us : List ExpireUnit}
    (h : ds[n]? = some (u :: us)) : ds.flatten.Perm (u :: (ds.set n us).flatten) := by
  induction ds generalizing n with
  | nil => simp at h
  | cons d ds ih =>
    cases n with
    | zero =>
      obtain rfl : d = u :: us := by simpa using h
      exact .refl _
    | succ n =>
      have := ih (n := n) (by simpa using h)
      simpa using (this.append_left d).trans perm_middle

open State

theorem moved_insert (h : s.starting[n]? = some unit) :
    Moved s { s with starting := s.starting.eraseIdx n, table := s.table.put unit } := by
  obtain ⟨hn, hget⟩ := List.getElem?_eq_some_iff.mp h
  have hstart : (unit :: s.starting.eraseIdx n).Perm s.starting := by
    rw [← hget]
    exact getElem_cons_eraseIdx_perm hn
  have hlive := s.table.put_live_perm unit
  -- All units but the inserted one, before and after.
  obtain ⟨rest, hrest⟩ : ∃ rest, rest = s.delivered.map Delivery.unit
      ++ (s.starting.eraseIdx n ++ s.table.live ++ s.loop.units ++ s.dropping.flatten) := ⟨_, rfl⟩
  have hold : s.units.Perm (unit :: rest) := by
    refine perm_iff_count.mpr fun a => ?_
    have := hstart.count_eq a
    simp only [units, outstanding, hrest, count_append, count_cons] at this ⊢
    omega
  have hnew : units { s with starting := s.starting.eraseIdx n, table := s.table.put unit }
      |>.Perm (s.table.placedAt unit :: rest) := by
    refine perm_iff_count.mpr fun a => ?_
    have := hlive.count_eq a
    simp only [units, outstanding, hrest, count_append, count_cons] at this ⊢
    omega
  have hcontent : ((s.table.placedAt unit :: rest).map content).Perm (s.units.map content) :=
    (hold.map content).symm
  refine ⟨rfl, (hnew.map content).trans hcontent, fun u hu => ?_⟩
  rcases mem_cons.mp (hnew.mem_iff.mp hu) with rfl | hu
  · exact ⟨unit, hold.mem_iff.mpr mem_cons_self, rfl, le_freePoint _ _ _⟩
  · exact ⟨u, hold.mem_iff.mpr (mem_cons_of_mem _ hu), rfl, le_rfl⟩

theorem moved_getAndDelete {id : String} {r : Option ExpireUnit × SessionIdMap}
    (h : s.table.getAndDelete id = some r) : Moved s (r.1.elim { s with table := r.2 } fun unit =>
      deliver { s with table := r.2 } unit (.getAndDelete id)) := by
  obtain ⟨unit, m⟩ := r
  have hlive := getAndDelete_live h
  cases unit with
  | none =>
    refine Moved.of_perm rfl (perm_iff_count.mpr fun a => ?_)
    have := hlive.count_eq a
    simp only [units, outstanding, count_append, elim, toList,
      nil_append] at this ⊢
    omega
  | some unit =>
    refine Moved.of_perm rfl (perm_iff_count.mpr fun a => ?_)
    have := hlive.count_eq a
    simp only [units, outstanding, deliver, map_cons, count_append,
      count_cons, elim, toList, count_nil] at this ⊢
    omega

theorem moved_dropByExpirePoint {cur : Int} (h : s.loop = .read cur) : Moved s { s with
      table := (s.table.dropByExpirePoint cur).2
      loop := .expiring (s.table.dropByExpirePoint cur).1 } := by
  refine Moved.of_perm rfl (perm_iff_count.mpr fun a => ?_)
  have := congrArg (List.count a) (s.table.dropByExpirePoint_live cur)
  simp only [units, outstanding, h, ExpireLoop.units, count_append, count_nil] at this ⊢
  omega

theorem moved_expire {units : List ExpireUnit} (h : s.loop = .expiring (unit :: units)) :
    Moved s (deliver { s with loop := .expiring units } unit .expiry) := by
  refine Moved.of_perm rfl (perm_iff_count.mpr fun a => ?_)
  simp only [State.units, outstanding, deliver, h, ExpireLoop.units, map_cons,
    count_append, count_cons]
  omega

theorem moved_dropAll (s : State) :
    Moved s { s with table := s.table.dropAll.2, dropping := s.table.dropAll.1 :: s.dropping } := by
  refine Moved.of_perm rfl (perm_iff_count.mpr fun a => ?_)
  have hlive : s.table.dropAll.2.live = [] := rfl
  have htaken : s.table.dropAll.1 = s.table.live := rfl
  simp only [units, outstanding, hlive, htaken, flatten_cons, count_append, count_nil]
  omega

theorem moved_drop {units : List ExpireUnit} (h : s.dropping[n]? = some (unit :: units)) :
    Moved s (deliver { s with dropping := s.dropping.set n units } unit .dropAll) := by
  refine Moved.of_perm rfl (perm_iff_count.mpr fun a => ?_)
  have := (flatten_perm_cons_set h).count_eq a
  simp only [State.units, outstanding, deliver, map_cons, count_append,
    count_cons] at this ⊢
  omega

/-! ## The accounting invariant -/

/-- The unit belongs to a session handed in, and is not due before it. -/
def Backed (s : State) (u : ExpireUnit) : Prop :=
  ∃ p ∈ s.puts, p.content = content u ∧ p.deadline ≤ u.expirePoint

structure Accounted (s : State) : Prop where
  perm : (s.puts.map Session.content).Perm (s.units.map content)
  distinct : (s.puts.map Session.id).Nodup
  backed : ∀ u ∈ s.units, Backed s u

theorem Accounted.moved (h : Accounted s) (hm : Moved s s') : Accounted s' where
  perm := hm.puts ▸ h.perm.trans hm.perm.symm
  distinct := hm.puts ▸ h.distinct
  backed := by
    intro u hu
    obtain ⟨v, hv, hcontent, hle⟩ := hm.later u hu
    obtain ⟨p, hp, hpc, hpd⟩ := h.backed v hv
    exact ⟨p, hm.puts ▸ hp, hpc.trans hcontent, hpd.trans hle⟩

theorem Accounted.nodup (h : Accounted s) : (s.units.map ExpireUnit.writeSessionId).Nodup := by
  have hids := h.perm.map Prod.fst
  simp only [map_map] at hids
  exact hids.nodup_iff.mp h.distinct

/-- The receiver was entitled to the unit: it asked for this session, or the
unit's point had passed. -/
def Delivery.Entitled (d : Delivery) : Prop :=
  (∀ id, d.receiver = .getAndDelete id → d.unit.writeSessionId = id) ∧
    (d.receiver = .expiry → d.unit.expirePoint ≤ d.time)

/-- What the expiry loop holds is due, and what was delivered was rightly so. -/
structure Timely (s : State) : Prop where
  read : ∀ cur, s.loop = .read cur → cur ≤ s.clock
  due : ∀ u ∈ s.loop.units, u.expirePoint ≤ s.clock
  delivered : ∀ d ∈ s.delivered, d.Entitled

structure Inv (s : State) : Prop where
  tables : s.table.Consistent
  accounted : Accounted s
  timely : Timely s

theorem inv_start (clock : Int) : Inv (start clock) where
  tables := SessionIdMap.Consistent.empty
  accounted := ⟨List.Perm.refl _, nodup_nil, by simp [units, outstanding, start,
    live, empty, ExpireLoop.units]⟩
  timely := ⟨by simp [start], by simp [start, ExpireLoop.units], by simp [start]⟩

theorem Timely.deliver (h : Timely s) {r : Receiver} (hr : Delivery.Entitled ⟨unit, r, s.clock⟩) :
    Timely (s.deliver unit r) := by
  refine ⟨h.read, h.due, fun d hd => ?_⟩
  rcases mem_cons.mp hd with rfl | hd
  · exact hr
  · exact h.delivered d hd

/-- The unit a `Put` inserts has a session id the tables do not know. -/
theorem Accounted.fresh (h : Accounted s) (hget : s.starting[n]? = some unit) :
    ∀ u ∈ s.table.live, u.writeSessionId ≠ unit.writeSessionId := by
  have hnd := h.nodup
  simp only [units, outstanding, append_assoc, map_append] at hnd
  have hpair := (nodup_append.mp (nodup_append.mp hnd).2.1).2.2
  intro u hu heq
  refine hpair unit.writeSessionId (mem_map_of_mem (mem_of_getElem? hget))
    u.writeSessionId ?_ heq.symm
  exact mem_append_left _ (mem_map_of_mem hu)

theorem inv_step {a : Action} (h : Inv s) (hok : DistinctIds s a) (hs : step s a = some s') :
    Inv s' := by
  obtain ⟨htables, hacc, htimely⟩ := h
  cases a with
  | tick us =>
    obtain rfl := some.inj hs
    have hle : s.clock ≤ s.clock + us := by omega
    exact ⟨htables, { hacc with },
      ⟨fun cur hc => (htimely.read cur hc).trans hle,
        fun u hu => (htimely.due u hu).trans hle, htimely.delivered⟩⟩
  | put id info timeoutSeconds =>
    obtain rfl := some.inj hs
    refine ⟨htables, ⟨?_, ?_, ?_⟩, { htimely with }⟩
    · refine ((hacc.perm.cons (id, info)).trans ?_)
      simp only [units, outstanding, cons_append, map_append, map_cons]
      exact perm_middle.symm
    · refine nodup_cons.mpr ⟨fun hmem => ?_, hacc.distinct⟩
      obtain ⟨p, hp, hpid⟩ := mem_map.mp hmem
      exact hok p hp hpid
    · intro u hu
      simp only [units, outstanding, cons_append, mem_append, mem_cons] at hu
      rcases hu with hu | rfl | hu
      · obtain ⟨p, hp, hpu⟩ := hacc.backed u (mem_append_left _ hu)
        exact ⟨p, mem_cons_of_mem _ hp, hpu⟩
      · exact ⟨_, mem_cons_self, rfl, le_rfl⟩
      · obtain ⟨p, hp, hpu⟩ := hacc.backed u
          (mem_append_right _ (by simpa [outstanding, or_assoc] using hu))
        exact ⟨p, mem_cons_of_mem _ hp, hpu⟩
  | insert n =>
    obtain ⟨unit, hget, rfl⟩ := Option.map_eq_some_iff.mp hs
    exact ⟨htables.put (hacc.fresh hget), hacc.moved (moved_insert hget),
      { htimely with }⟩
  | getAndDelete id =>
    obtain ⟨r, hr, rfl⟩ := Option.map_eq_some_iff.mp hs
    have hm := moved_getAndDelete hr
    obtain ⟨unit, m⟩ := r
    have ht : Timely { s with table := m } := { htimely with }
    cases unit with
    | none => exact ⟨htables.getAndDelete hr, hacc.moved hm, ht⟩
    | some unit =>
      refine ⟨htables.getAndDelete hr, hacc.moved hm, ht.deliver ⟨?_, nofun⟩⟩
      rintro id' hid
      cases hid
      exact htables.getAndDelete_session hr
  | readClock =>
    simp only [step] at hs
    split at hs
    · rename_i hloop
      obtain rfl := some.inj hs
      have hunits : units { s with loop := .read s.clock } = s.units := by
        simp [units, outstanding, hloop, ExpireLoop.units]
      refine ⟨htables, hacc.moved (Moved.of_perm rfl (hunits ▸ List.Perm.refl _)), ⟨?_, ?_, ?_⟩⟩
      · intro cur hc
        obtain rfl := ExpireLoop.read.inj hc
        exact le_rfl
      · simp [ExpireLoop.units]
      · exact htimely.delivered
    · cases hs
  | dropByExpirePoint =>
    simp only [step] at hs
    split at hs
    · rename_i cur hloop
      obtain rfl := some.inj hs
      refine ⟨htables.dropByExpirePoint cur, hacc.moved (moved_dropByExpirePoint hloop), ⟨?_, ?_, ?_⟩⟩
      · intro cur' hc
        cases hc
      · exact fun u hu => (htables.dropByExpirePoint_due hu).trans (htimely.read cur hloop)
      · exact htimely.delivered
    · cases hs
  | expire =>
    simp only [step] at hs
    split at hs
    · rename_i hloop
      obtain rfl := some.inj hs
      have hunits : units { s with loop := .waiting } = s.units := by
        simp [units, outstanding, hloop, ExpireLoop.units]
      exact ⟨htables, hacc.moved (Moved.of_perm rfl (hunits ▸ List.Perm.refl _)),
        ⟨nofun, by simp [ExpireLoop.units], htimely.delivered⟩⟩
    · rename_i unit units hloop
      obtain rfl := some.inj hs
      have hdue := htimely.due
      rw [hloop] at hdue
      refine ⟨htables, hacc.moved (moved_expire hloop), Timely.deliver ⟨?_, ?_, ?_⟩ ?_⟩
      · intro cur hc
        cases hc
      · exact fun u hu => hdue u (mem_cons_of_mem _ hu)
      · exact htimely.delivered
      · exact ⟨nofun, fun _ => hdue unit mem_cons_self⟩
    · cases hs
  | dropAll =>
    obtain rfl := some.inj hs
    exact ⟨htables.dropAll, hacc.moved (moved_dropAll s),
      { htimely with }⟩
  | drop n =>
    simp only [step] at hs
    split at hs
    · rename_i unit units hget
      obtain rfl := some.inj hs
      have ht : Timely { s with dropping := s.dropping.set n units } :=
        { htimely with }
      exact ⟨htables, hacc.moved (moved_drop hget),
        ht.deliver ⟨nofun, nofun⟩⟩
    · cases hs

theorem inv_reach (h : manager.Reach DistinctIds s) : Inv s :=
  h.inv (fun _ ⟨clock, hs⟩ => hs ▸ inv_start clock) fun _ _ _ hi hok hs => inv_step hi hok hs

/-! ## No session is stuck

From any state the steps of the manager's own threads (a `Put` taking the
mutex, the expiry loop, callbacks still to run) deliver everything. -/

def ExpireLoop.rank : ExpireLoop → Nat
  | waiting => 0
  | expiring _ => 1
  | read _ => 2

def State.backlog (s : State) : Nat :=
  5 * s.starting.length + 4 * s.table.live.length + s.loop.units.length
    + s.dropping.flatten.length + s.loop.rank

theorem exists_bound (us : List ExpireUnit) (t : Int) :
    ∃ k : Nat, ∀ u ∈ us, u.expirePoint ≤ t + k := by
  induction us with
  | nil => exact ⟨0, by simp⟩
  | cons u us ih =>
    obtain ⟨k, hk⟩ := ih
    refine ⟨k + (u.expirePoint - t).toNat, fun v hv => ?_⟩
    rcases mem_cons.mp hv with rfl | hv
    · omega
    · have := hk v hv
      omega

/-- One pass of the expiry loop at a late enough time empties the tables. -/
theorem expiry_pass (h : s.table.Consistent) (hloop : s.loop = .waiting)
    (hlive : s.table.live ≠ []) :
    ∃ s', manager.Steps DistinctIds s s' ∧ s'.puts = s.puts ∧ s'.backlog < s.backlog := by
  obtain ⟨k, hk⟩ := exists_bound s.table.live s.clock
  have hsplit := s.table.dropByExpirePoint_live (s.clock + k)
  have hempty : (s.table.dropByExpirePoint (s.clock + k)).2.live = [] := by
    refine eq_nil_iff_forall_not_mem.mpr fun u hu => ?_
    have hlate := h.dropByExpirePoint_rest hu
    have := hk u (hsplit ▸ mem_append_right _ hu)
    omega
  refine ⟨{ s with
    clock := s.clock + k
    table := (s.table.dropByExpirePoint (s.clock + k)).2
    loop := .expiring (s.table.dropByExpirePoint (s.clock + k)).1 }, ?_, rfl, ?_⟩
  · have hok : manager.AllOk DistinctIds s [.tick k, .readClock, .dropByExpirePoint] :=
      allOk_of_forall (by simp [DistinctIds]) _
    refine steps_of_run ?_ hok
    simp only [run, manager, step, hloop, Option.bind_some]
  · have hpos := length_pos_iff.mpr hlive
    have hlen := congrArg List.length hsplit
    rw [hempty, append_nil] at hlen
    simp only [backlog, hempty, hloop, ExpireLoop.units, ExpireLoop.rank, length_nil]
    omega

theorem backlog_step (h : s.table.Consistent) (hne : s.outstanding ≠ []) :
    ∃ s', manager.Steps DistinctIds s s' ∧ s'.puts = s.puts ∧ s'.backlog < s.backlog := by
  have hone : ∀ {a t}, DistinctIds s a → step s a = some t → t.puts = s.puts →
      t.backlog < s.backlog →
      ∃ s', manager.Steps DistinctIds s s' ∧ s'.puts = s.puts ∧ s'.backlog < s.backlog :=
    fun hok hstep hputs hlt => ⟨_, .single ⟨_, hok, hstep⟩, hputs, hlt⟩
  cases hs : s.starting with
  | cons unit units =>
    have hlen := (s.table.put_live_perm unit).length_eq
    refine hone (a := .insert 0) trivial (by simp only [step, hs]; rfl) ?_ ?_
    · rfl
    · simp only [backlog, hs, length_cons, eraseIdx_cons_zero] at hlen ⊢
      omega
  | nil =>
    cases hl : s.loop with
    | read cur =>
      have hlen := congrArg List.length (s.table.dropByExpirePoint_live cur)
      rw [length_append] at hlen
      refine hone (a := .dropByExpirePoint) trivial (by simp only [step, hl]; rfl) ?_ ?_
      · rfl
      · simp only [backlog, hl, ExpireLoop.units, ExpireLoop.rank, length_nil]
        omega
    | expiring units =>
      cases units with
      | nil =>
        refine hone (a := .expire) trivial (by simp only [step, hl]; rfl) ?_ ?_
        · rfl
        · simp [backlog, hl, ExpireLoop.units, ExpireLoop.rank]
      | cons unit units =>
        refine hone (a := .expire) trivial (by simp only [step, hl]; rfl) ?_ ?_
        · rfl
        · simp [backlog, deliver, hl, ExpireLoop.units, ExpireLoop.rank]
    | waiting =>
      by_cases hlive : s.table.live = []
      · -- a callback of a drop is left
        have hflat : s.dropping.flatten ≠ [] := by
          simpa [outstanding, hs, hlive, hl, ExpireLoop.units] using hne
        obtain ⟨unit, hunit⟩ := exists_mem_of_ne_nil _ hflat
        obtain ⟨d, hd, hu⟩ := mem_flatten.mp hunit
        obtain ⟨n, hn⟩ := mem_iff_getElem?.mp hd
        obtain ⟨u, us, rfl⟩ := exists_cons_of_ne_nil (ne_nil_of_mem hu)
        have hlen := (flatten_perm_cons_set hn).length_eq
        refine hone (a := .drop n) trivial (by simp only [step, hn]; rfl) ?_ ?_
        · rfl
        · simp only [backlog, deliver, length_cons] at hlen ⊢
          omega
      · exact expiry_pass h hl hlive

theorem exists_drained (h : manager.Reach DistinctIds s) :
    ∃ s', manager.Steps DistinctIds s s' ∧ s'.puts = s.puts ∧ s'.outstanding = [] := by
  refine (exists_steps_of_lt backlog
    (P := fun t => manager.Reach DistinctIds t ∧ t.puts = s.puts)
    (Q := fun t => t.outstanding = []) ?_ ⟨h, rfl⟩).imp fun s' h => ⟨h.1, h.2.1.2, h.2.2⟩
  rintro t ⟨hr, hputs⟩ hne
  obtain ⟨t', hsteps, hputs', hlt⟩ := backlog_step (inv_reach hr).tables hne
  exact ⟨t', hsteps, ⟨hr.steps hsteps, hputs'.trans hputs⟩, hlt⟩

/-! ## Exactly once -/

theorem Accounted.once (h : Accounted s) {p : Session} (hp : p ∈ s.puts) :
    (s.units.map content).count p.content = 1 := by
  have hnd : (s.puts.map Session.content).Nodup := by
    refine List.Nodup.of_map Prod.fst ?_
    rw [map_map]
    exact h.distinct
  rw [← h.perm.count_eq]
  exact count_eq_one_of_mem hnd (mem_map_of_mem hp)

/-- In every state reached by an interleaving with distinct session ids:
each session handed in is delivered or outstanding, once and in one place,
and can be delivered; what is delivered is what was handed in, to the caller
that asked for it or, by expiry, not before the deadline; the tables agree
and the location index answers for exactly the live sessions. -/
theorem session_delivered_once {s : State} (h : manager.Reach DistinctIds s) : (∀ p ∈ s.puts,
      (s.delivered.map (content ∘ Delivery.unit)).count p.content
        + (s.outstanding.map content).count p.content = 1) ∧
    (∀ d ∈ s.delivered, ∃ p ∈ s.puts, p.content = content d.unit ∧
      (∀ id, d.receiver = .getAndDelete id → p.id = id) ∧
      (d.receiver = .expiry → p.deadline ≤ d.time)) ∧
    (∃ s', manager.Steps DistinctIds s s' ∧ s'.puts = s.puts ∧ s'.outstanding = []) ∧
    s.table.Consistent ∧
    (∀ id, (s.table.getAndDelete id).isSome = true) ∧
    ∀ id, s.table.hasLocationId id = true ↔
      ∃ u ∈ s.table.live, id ∈ u.writeLocationInfo.locationIds := by
  have hinv := inv_reach h
  refine ⟨fun p hp => ?_, fun d hd => ?_, exists_drained h, hinv.tables,
    hinv.tables.getAndDelete_isSome, hinv.tables.hasLocationId_iff⟩
  · have := hinv.accounted.once hp
    simpa only [units, map_append, map_map, count_append] using this
  · obtain ⟨p, hp, hcontent, hle⟩ :=
      hinv.accounted.backed d.unit (mem_append_left _ (mem_map_of_mem hd))
    obtain ⟨hasked, hdue⟩ := hinv.timely.delivered d hd
    refine ⟨p, hp, hcontent, fun id hid => ?_, fun hexp => hle.trans (hdue hexp)⟩
    have hpid : p.id = d.unit.writeSessionId := congrArg Prod.fst hcontent
    rw [hpid, hasked id hid]

/-- Two sessions with one deadline and a shared location: the second is put
one microsecond later, the first is fetched and the other one expires. -/
theorem session_delivered_once_run : ∃ s, manager.run (start 0)
        [.put "a" ⟨[1], ["x"]⟩ 1, .put "b" ⟨[2], ["x"]⟩ 1, .insert 0, .insert 0,
          .getAndDelete "a", .tick 2000000, .readClock, .dropByExpirePoint, .expire] = some s ∧
      s.delivered.map (content ∘ Delivery.unit) = [("b", ⟨[2], ["x"]⟩), ("a", ⟨[1], ["x"]⟩)] ∧
      ∀ p ∈ s.puts,
        (s.delivered.map (content ∘ Delivery.unit)).count p.content
          + (s.outstanding.map content).count p.content = 1 := by
  refine ⟨_, rfl, rfl, ?_⟩
  have hok : manager.AllOk DistinctIds (start 0)
      [.put "a" ⟨[1], ["x"]⟩ 1, .put "b" ⟨[2], ["x"]⟩ 1, .insert 0, .insert 0,
        .getAndDelete "a", .tick 2000000, .readClock, .dropByExpirePoint, .expire] := by
    refine ⟨by simp [DistinctIds, start], fun s₁ h₁ => ?_⟩
    obtain rfl := some.inj h₁
    refine ⟨by simp [DistinctIds, start], fun s₂ _ => ?_⟩
    exact ⟨trivial, fun _ _ => ⟨trivial, fun _ _ => ⟨trivial, fun _ _ => ⟨trivial, fun _ _ =>
      ⟨trivial, fun _ _ => ⟨trivial, fun _ _ => ⟨trivial, fun _ _ => trivial⟩⟩⟩⟩⟩⟩⟩
  exact (session_delivered_once ⟨start 0, ⟨0, rfl⟩, steps_of_run rfl hok⟩).1

end TairKvCache.WriteSessions
