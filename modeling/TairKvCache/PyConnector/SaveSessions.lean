import TairKvCache.Lib.Batches
import TairKvCache.PyConnector.DataTransfer

/-!
# Save sessions at the coordinator

A session is announced once by the scheduler, with the locations the manager
allocated, and once by every rank, with one verdict per block of the
`SaveRequest`. `gathered_run` describes the coordinator after any arrival
order of any set of sessions: what is buffered, what is open and which calls
of `finish_write_cache` have been made depends, session by session, only on
which of its messages have arrived.

The mask is built by indexing every rank's list of verdicts with the index of
a location. A session with more locations than blocks makes the first rank's
lookup run past its list, and the exception ends the routine for all sessions:
`finishes_iff` says that this is the only way to miss a session.
-/

namespace TairKvCache.PyConnector

open Function List
open Option (some.inj)

/-! ## A session and its messages -/

structure SaveSession where
  requestId : String
  writeSessionId : String
  locations : List LocationDict
  /-- `len(save_req.manager_block_idxes)`. -/
  numBlocks : Nat
  /-- The flattened results of the save tasks on each rank. -/
  tasks : Nat → List (Option Bool)

namespace SaveSession

def saveId (s : SaveSession) : RunningId := ⟨s.writeSessionId, s.requestId⟩

/-- `wait_for_save` starts no task when `_plan_group_transfers` gives no plan,
that is when the numbers of locations and blocks differ; it then reports
failure for every block and group. -/
def flatResults (numGroups : Nat) (s : SaveSession) (rank : Nat) : List (Option Bool) :=
  if s.locations.length ≠ s.numBlocks then List.replicate (s.numBlocks * numGroups) (some false)
  else s.tasks rank

def reported (numGroups : Nat) (s : SaveSession) (rank : Nat) : List Bool :=
  mergeVerdicts s.numBlocks (s.flatResults numGroups rank)

def startEvent (s : SaveSession) : SendBlockStartEvent :=
  ⟨s.requestId, s.writeSessionId, s.locations⟩

def finishEvent (numGroups : Nat) (s : SaveSession) (rank : Nat) : SendBlockFinishedEvent :=
  createSaveDoneCallback s.requestId rank s.writeSessionId s.numBlocks
    (s.flatResults numGroups rank)

def messages (tp numGroups : Nat) (s : SaveSession) : List CoordinateEvent :=
  .sendBlockStart s.startEvent ::
    (List.range tp).map fun r => .sendBlockFinished (s.finishEvent numGroups r)

theorem length_reported (numGroups : Nat) (s : SaveSession) (rank : Nat) :
    (s.reported numGroups rank).length = s.numBlocks :=
  length_mergeVerdicts _ _

end SaveSession

def CoordinateEvent.saveId? : CoordinateEvent → Option RunningId
  | .sendBlockStart e => some e.saveId
  | .sendBlockFinished e => some e.saveId
  | .loadBlockFinished _ => none
  | .unreadable => none

variable {tp numGroups : Nat} {s : SaveSession} {m : CoordinateEvent}

theorem SaveSession.mem_messages : m ∈ s.messages tp numGroups ↔ m = .sendBlockStart s.startEvent ∨
    ∃ r < tp, m = .sendBlockFinished (s.finishEvent numGroups r) := by
  simp [messages, eq_comm]

theorem SaveSession.saveId?_of_mem (h : m ∈ s.messages tp numGroups) : m.saveId? = some s.saveId := by
  rcases mem_messages.mp h with rfl | ⟨r, -, rfl⟩ <;> rfl

theorem SaveSession.nodup_messages (tp numGroups : Nat) (s : SaveSession) :
    (s.messages tp numGroups).Nodup := by
  refine nodup_cons.mpr ⟨by simp, List.Nodup.map ?_ nodup_range⟩
  intro r r' h
  exact congrArg SendBlockFinishedEvent.tpRank (CoordinateEvent.sendBlockFinished.inj h)

/-! ## The mask -/

variable {ranks : List Nat} {e : SendBlockFinishedEvent} {r : Nat}

namespace SaveContext

variable {ctx : SaveContext} {results : Nat → List Bool}

theorem fullySaved_ok {i : Nat}
    (h : ∀ r ∈ ranks, ctx.resultPerRank.lookup r = some (results r) ∧ i < (results r).length) :
    ctx.fullySaved i ranks = .ok (ranks.all fun r => (results r)[i]? = some true) := by
  induction ranks with
  | nil => rfl
  | cons r ranks ih =>
    obtain ⟨hlook, hlt⟩ := h r mem_cons_self
    rw [fullySaved, hlook]
    dsimp only
    rw [getElem?_eq_getElem hlt]
    dsimp only
    cases hval : (results r)[i] with
    | true =>
      rw [if_pos rfl, ih fun r' hr' => h r' (mem_cons_of_mem _ hr'), all_cons,
        getElem?_eq_getElem hlt, hval]
      simp
    | false =>
      rw [all_cons, getElem?_eq_getElem hlt, hval]
      simp

theorem successMask_ok {is : List Nat}
    (h : ∀ i ∈ is, ∀ r ∈ ranks, ctx.resultPerRank.lookup r = some (results r) ∧
      i < (results r).length) :
    ctx.successMask ranks is =
      .ok (is.map fun i => ranks.all fun r => (results r)[i]? = some true) := by
  induction is with
  | nil => rfl
  | cons i is ih =>
    rw [successMask, fullySaved_ok (h i mem_cons_self)]
    dsimp only
    rw [ih fun i' hi' => h i' (mem_cons_of_mem _ hi')]
    rfl

/-- The lookup of the first rank fails for a block it has no verdict for. -/
theorem successMask_raises {rank : Nat} {is : List Nat} {i : Nat} (hi : i ∈ is)
    (hlook : ctx.resultPerRank.lookup rank = some (results rank)) (hlen : (results rank).length ≤ i)
    (mask : List Bool) : ctx.successMask (rank :: ranks) is ≠ .ok mask := by
  induction is generalizing mask with
  | nil => simp at hi
  | cons j is ih =>
    intro hok
    rw [successMask] at hok
    rcases mem_cons.mp hi with rfl | hi
    · have hraise : ctx.fullySaved i (rank :: ranks) = .error .indexError := by
        rw [fullySaved, hlook]
        dsimp only
        rw [getElem?_eq_none hlen]
      rw [hraise] at hok
      cases hok
    · cases hj : ctx.fullySaved j (rank :: ranks) with
      | error err => rw [hj] at hok; cases hok
      | ok fully =>
        rw [hj] at hok
        dsimp only at hok
        cases his : ctx.successMask (rank :: ranks) is with
        | error err => rw [his] at hok; cases hok
        | ok mask' => exact ih hi mask' his

end SaveContext

/-- The mask of a context that holds one list of `n` verdicts per rank. -/
theorem onSaveFinished_ok {ctx : SaveContext} {results : Nat → List Bool} {n : Nat}
    (hlook : ∀ r < tp, ctx.resultPerRank.lookup r = some (results r))
    (hlen : ∀ r < tp, (results r).length = n) (hle : 0 < tp → ctx.locations.length ≤ n) :
    onSaveFinished tp ctx = .ok ((List.range ctx.locations.length).map fun i =>
      (List.range tp).all fun r => (results r)[i]? = some true) := by
  refine SaveContext.successMask_ok fun i hi r hr => ?_
  have hr := mem_range.mp hr
  refine ⟨hlook r hr, ?_⟩
  rw [hlen r hr]
  exact (mem_range.mp hi).trans_le (hle (Nat.zero_lt_of_lt hr))

theorem onSaveFinished_ok_iff {ctx : SaveContext} {results : Nat → List Bool} {n : Nat}
    (hlook : ∀ r < tp, ctx.resultPerRank.lookup r = some (results r))
    (hlen : ∀ r < tp, (results r).length = n) :
    (∃ mask, onSaveFinished tp ctx = .ok mask) ↔ (0 < tp → ctx.locations.length ≤ n) := by
  refine ⟨fun ⟨mask, hok⟩ hpos => ?_, fun hle => ⟨_, onSaveFinished_ok hlook hlen hle⟩⟩
  by_contra hgt
  obtain ⟨tp, rfl⟩ := Nat.exists_eq_succ_of_ne_zero (Nat.ne_of_gt hpos)
  rw [onSaveFinished, Nat.succ_eq_add_one, range_succ_eq_map] at hok
  exact SaveContext.successMask_raises (mem_range.mpr (Nat.lt_of_not_le hgt))
    (hlook 0 hpos) (Nat.le_of_eq (hlen 0 hpos)) mask hok

namespace TpCoordinatorServer

variable {c d : TpCoordinatorServer} {effs out : List Effect} {id : RunningId}
  {ms pre : List CoordinateEvent} {sessions : List SaveSession}

/-! ## What has arrived of a session -/

def isSave (m : CoordinateEvent) : Bool := m.saveId?.isSome

def Started (s : SaveSession) (ms : List CoordinateEvent) : Prop :=
  CoordinateEvent.sendBlockStart s.startEvent ∈ ms

instance (s : SaveSession) (ms : List CoordinateEvent) : Decidable (Started s ms) :=
  inferInstanceAs (Decidable (_ ∈ _))

def finishOf? (id : RunningId) : CoordinateEvent → Option SendBlockFinishedEvent
  | .sendBlockFinished e => if e.saveId = id then some e else none
  | _ => none

/-- The ranks' finishes of the session, in their order of arrival. -/
def finishesOf (id : RunningId) (ms : List CoordinateEvent) : List SendBlockFinishedEvent :=
  ms.filterMap (finishOf? id)

def rankResult (e : SendBlockFinishedEvent) : Nat × List Bool := (e.tpRank, e.isSuccessList)

/-- The context of a session of which these messages have arrived. -/
def openContext (s : SaveSession) (ms : List CoordinateEvent) : SaveContext :=
  ⟨s.locations, (finishesOf s.saveId ms).map rankResult⟩

theorem finishOf?_eq_some (h : finishOf? id m = some e) :
    m = .sendBlockFinished e ∧ e.saveId = id := by
  cases m with
  | sendBlockFinished e' =>
    rw [finishOf?] at h
    split_ifs at h with hid
    obtain rfl := some.inj h
    exact ⟨rfl, hid⟩
  | sendBlockStart | loadBlockFinished | unreadable => cases h

theorem finishOf?_of_ne (h : m.saveId? ≠ some id) : finishOf? id m = none := by
  cases hm : finishOf? id m with
  | none => rfl
  | some e =>
    obtain ⟨rfl, rfl⟩ := finishOf?_eq_some hm
    exact absurd rfl h

theorem finishesOf_concat (id : RunningId) (pre : List CoordinateEvent) (m : CoordinateEvent) :
    finishesOf id (pre ++ [m]) = finishesOf id pre ++ (finishOf? id m).toList := by
  rw [finishesOf, filterMap_append, finishesOf]
  cases h : finishOf? id m <;> simp [h]

theorem finishesOf_finish (hm : m = .sendBlockFinished (s.finishEvent numGroups r)) :
    finishesOf s.saveId (pre ++ [m]) =
      finishesOf s.saveId pre ++ [s.finishEvent numGroups r] := by
  have hsome : finishOf? s.saveId m = some (s.finishEvent numGroups r) := by
    rw [hm]
    exact if_pos rfl
  rw [finishesOf_concat, hsome]
  rfl

theorem mem_finishesOf : e ∈ finishesOf id ms ↔ .sendBlockFinished e ∈ ms ∧ e.saveId = id := by
  rw [finishesOf, mem_filterMap]
  constructor
  · rintro ⟨m, hm, he⟩
    obtain ⟨rfl, hid⟩ := finishOf?_eq_some he
    exact ⟨hm, hid⟩
  · rintro ⟨hm, hid⟩
    exact ⟨_, hm, if_pos hid⟩

theorem started_concat_of_ne (h : m.saveId? ≠ some s.saveId) :
    Started s (pre ++ [m]) ↔ Started s pre := by
  simp only [Started, mem_append, mem_singleton, or_iff_left_iff_imp]
  rintro rfl
  exact absurd rfl h

theorem eq_finishEvent (h : .sendBlockFinished e ∈ s.messages tp numGroups) :
    ∃ r < tp, e = s.finishEvent numGroups r := by
  simpa [SaveSession.mem_messages] using h

/-- Save messages are those of the sessions, each at most once. -/
structure Arrivals (tp numGroups : Nat) (sessions : List SaveSession)
    (ms : List CoordinateEvent) : Prop where
  ids : (sessions.map (·.writeSessionId)).Nodup
  nodup : (ms.filter isSave).Nodup
  sent : ∀ m ∈ ms, isSave m = true → ∃ s ∈ sessions, m ∈ s.messages tp numGroups

namespace Arrivals

theorem of_append {post : List CoordinateEvent}
    (h : Arrivals tp numGroups sessions (pre ++ post)) : Arrivals tp numGroups sessions pre := by
  refine ⟨h.ids, ?_, fun m hm => h.sent m (mem_append_left _ hm)⟩
  have := h.nodup
  rw [filter_append] at this
  exact this.of_append_left

theorem last_fresh (h : Arrivals tp numGroups sessions (pre ++ [m])) (hm : isSave m = true) :
    m ∉ pre := by
  intro hmem
  have := h.nodup
  rw [filter_append, filter_cons_of_pos hm, filter_nil] at this
  exact (nodup_append.mp this).2.2 m (mem_filter.mpr ⟨hmem, hm⟩) m
    (mem_singleton_self m) rfl

variable (h : Arrivals tp numGroups sessions ms)

include h

theorem eq_of_writeSessionId {s' : SaveSession} (hs : s ∈ sessions) (hs' : s' ∈ sessions)
    (heq : s'.writeSessionId = s.writeSessionId) : s' = s :=
  inj_on_of_nodup_map h.ids hs' hs heq

/-- A message that carries the session's id is one of its messages. -/
theorem mem_messages (hs : s ∈ sessions) (hm : m ∈ ms) (hid : m.saveId? = some s.saveId) :
    m ∈ s.messages tp numGroups := by
  obtain ⟨s', hs', hmem⟩ := h.sent m hm (by rw [isSave, hid]; rfl)
  have hid' := SaveSession.saveId?_of_mem hmem
  rw [hid] at hid'
  have heq := congrArg RunningId.writeSessionId (some.inj hid')
  rwa [h.eq_of_writeSessionId hs hs' heq.symm] at hmem

theorem finish_eq (hs : s ∈ sessions) (he : e ∈ finishesOf s.saveId ms) :
    e.tpRank < tp ∧ e = s.finishEvent numGroups e.tpRank := by
  obtain ⟨hm, hid⟩ := mem_finishesOf.mp he
  have hmem := h.mem_messages hs hm (by rw [CoordinateEvent.saveId?, hid])
  obtain ⟨r, hr, rfl⟩ := eq_finishEvent hmem
  exact ⟨hr, rfl⟩

theorem nodup_finishes (id : RunningId) : (finishesOf id ms).Nodup := by
  have hfilter : finishesOf id ms = (ms.filter isSave).filterMap (finishOf? id) := by
    rw [finishesOf, filterMap_filter]
    refine filterMap_congr fun m _ => ?_
    cases m <;> rfl
  rw [hfilter]
  refine h.nodup.filterMap fun m m' e he he' => ?_
  rw [(finishOf?_eq_some he).1, (finishOf?_eq_some he').1]

theorem nodup_ranks (hs : s ∈ sessions) : ((finishesOf s.saveId ms).map (·.tpRank)).Nodup := by
  refine (h.nodup_finishes s.saveId).map_on fun e he e' he' hrank => ?_
  rw [(h.finish_eq hs he).2, (h.finish_eq hs he').2, hrank]

theorem ranks_subset (hs : s ∈ sessions) :
    (finishesOf s.saveId ms).map (·.tpRank) ⊆ List.range tp := by
  intro r hr
  obtain ⟨e, he, rfl⟩ := mem_map.mp hr
  exact mem_range.mpr (h.finish_eq hs he).1

theorem length_finishes_le (hs : s ∈ sessions) : (finishesOf s.saveId ms).length ≤ tp := by
  have := ((h.nodup_ranks hs).subperm (h.ranks_subset hs)).length_le
  rwa [length_map, length_range] at this

theorem mem_of_length (hs : s ∈ sessions) (hlen : (finishesOf s.saveId ms).length = tp)
    (hr : r < tp) : s.finishEvent numGroups r ∈ finishesOf s.saveId ms := by
  have hperm := (h.nodup_ranks hs).subperm (h.ranks_subset hs) |>.perm_of_length_le
    (by rw [length_map, hlen, length_range])
  obtain ⟨e, he, rfl⟩ := mem_map.mp (hperm.mem_iff.mpr (mem_range.mpr hr))
  rw [← (h.finish_eq hs he).2]
  exact he

/-- A session is complete when all its messages are there. -/
theorem complete_iff (hs : s ∈ sessions) : (Started s ms ∧ (finishesOf s.saveId ms).length = tp) ↔
      ∀ m ∈ s.messages tp numGroups, m ∈ ms := by
  constructor
  · rintro ⟨hstart, hlen⟩ m hm
    rcases SaveSession.mem_messages.mp hm with rfl | ⟨r, hr, rfl⟩
    · exact hstart
    · exact (mem_finishesOf.mp (h.mem_of_length hs hlen hr)).1
  · intro hall
    refine ⟨hall _ mem_cons_self, Nat.le_antisymm (h.length_finishes_le hs) ?_⟩
    have hsub : List.range tp ⊆ (finishesOf s.saveId ms).map (·.tpRank) := by
      intro r hr
      refine mem_map.mpr ⟨s.finishEvent numGroups r, mem_finishesOf.mpr ⟨?_, rfl⟩, rfl⟩
      exact hall _ (mem_cons_of_mem _ (mem_map.mpr ⟨r, hr, rfl⟩))
    have := (nodup_range.subperm hsub).length_le
    rwa [length_map, length_range] at this

/-- The context of a complete session holds every rank's verdicts. -/
theorem lookup_openContext (hs : s ∈ sessions) (hlen : (finishesOf s.saveId ms).length = tp)
    (hr : r < tp) : (openContext s ms).resultPerRank.lookup r = some (s.reported numGroups r) := by
  refine Lib.lookup_of_mem ?_ (mem_map.mpr ⟨_, h.mem_of_length hs hlen hr, rfl⟩)
  rw [openContext, map_map]
  exact h.nodup_ranks hs

theorem onSaveFinished_iff (hs : s ∈ sessions) (hlen : (finishesOf s.saveId ms).length = tp) :
    (∃ mask, onSaveFinished tp (openContext s ms) = .ok mask) ↔
      (0 < tp → s.locations.length ≤ s.numBlocks) :=
  onSaveFinished_ok_iff (fun _ hr => h.lookup_openContext hs hlen hr)
    fun r _ => s.length_reported numGroups r

end Arrivals

/-! ## Turns on other sessions -/

def callOf? (w : String) : Effect → Option (List Bool)
  | .finishWriteCache session mask => if session = w then some mask else none
  | .loadFinished _ _ => none

/-- The masks `finish_write_cache` is called with for the session. -/
def callsOf (w : String) (effs : List Effect) : List (List Bool) := effs.filterMap (callOf? w)

theorem callsOf_append (w : String) (effs out : List Effect) :
    callsOf w (effs ++ out) = callsOf w effs ++ callsOf w out :=
  filterMap_append

theorem callsOf_self (w : String) (mask : List Bool) :
    callsOf w [.finishWriteCache w mask] = [mask] := by
  simp [callsOf, callOf?]

theorem Turn.save_frame (h : Turn tp c m d out) (hm : m.saveId? ≠ some id) :
    d.runningSave id = c.runningSave id ∧
      d.pendingSaveFinishes id = c.pendingSaveFinishes id := by
  have hne : ∀ {k : RunningId}, m.saveId? = some k → id ≠ k := by
    rintro k hk rfl
    exact hm hk
  cases h with
  | opened e hsize =>
    exact ⟨update_of_ne (hne rfl) _ _, update_of_ne (hne rfl) _ _⟩
  | openedReady e mask hsize hmask =>
    refine ⟨?_, update_of_ne (hne rfl) _ _⟩
    rw [dropSave]
    exact (update_of_ne (hne rfl) _ _).trans (update_of_ne (hne rfl) _ _)
  | buffered e hnone => exact ⟨rfl, update_of_ne (hne rfl) _ _⟩
  | added e ctx hctx hsize => exact ⟨update_of_ne (hne rfl) _ _, rfl⟩
  | addedReady e ctx mask hctx hsize hmask =>
    refine ⟨?_, rfl⟩
    rw [dropSave]
    exact (update_of_ne (hne rfl) _ _).trans (update_of_ne (hne rfl) _ _)
  | loadKept | loadReady | unreadable => exact ⟨rfl, rfl⟩

theorem Turn.calls_frame {w : String} (h : Turn tp c m d out)
    (hm : ∀ k, m.saveId? = some k → k.writeSessionId ≠ w) : callsOf w out = [] := by
  cases h with
  | openedReady e mask hsize hmask | addedReady e ctx mask hctx hsize hmask =>
    have hne : e.writeSessionId ≠ w := hm _ rfl
    simp [callsOf, callOf?, hne]
  | opened | buffered | added | loadKept | loadReady | unreadable => rfl

/-! ## The run invariant -/

def Complete (tp : Nat) (s : SaveSession) (ms : List CoordinateEvent) : Prop :=
  Started s ms ∧ (finishesOf s.saveId ms).length = tp

instance (tp : Nat) (s : SaveSession) (ms : List CoordinateEvent) : Decidable (Complete tp s ms) :=
  inferInstanceAs (Decidable (_ ∧ _))

/-- Where a session stands after the messages `ms`. -/
structure Stands (tp : Nat) (ms : List CoordinateEvent) (d : TpCoordinatorServer)
    (effs : List Effect) (s : SaveSession) : Prop where
  running : d.runningSave s.saveId =
    if Started s ms ∧ ¬ Complete tp s ms then some (openContext s ms) else none
  pending : d.pendingSaveFinishes s.saveId = if Started s ms then [] else finishesOf s.saveId ms
  calls : (callsOf s.writeSessionId effs).map Except.ok =
    if Complete tp s ms then [onSaveFinished tp (openContext s ms)] else []

theorem foldl_addNewRank (es : List SendBlockFinishedEvent) (ctx : SaveContext)
    (h : (ctx.resultPerRank.map (·.1) ++ es.map (·.tpRank)).Nodup) :
    es.foldl (fun ctx f => ctx.addNewRank f.tpRank f.isSuccessList) ctx =
      ⟨ctx.locations, ctx.resultPerRank ++ es.map rankResult⟩ := by
  induction es generalizing ctx with
  | nil => simp
  | cons e es ih =>
    have hnew : e.tpRank ∉ ctx.resultPerRank.map (·.1) := fun hmem =>
      (nodup_append.mp h).2.2 _ hmem _ (mem_map.mpr ⟨e, mem_cons_self, rfl⟩) rfl
    rw [foldl_cons, SaveContext.addNewRank, if_neg hnew, ih]
    · simp [rankResult]
    · simpa using h

section Step

variable (hA : Arrivals tp numGroups sessions (pre ++ [m])) (hs : s ∈ sessions)
  (hst : Stands tp pre c effs s)

include hA hs

/-- Messages of other sessions and of loads leave the session where it is. -/
theorem Stands.other (hst : Stands tp pre c effs s) (h : Turn tp c m d out)
    (hm : m.saveId? ≠ some s.saveId) : Stands tp (pre ++ [m]) d (effs ++ out) s := by
  have hcalls : callsOf s.writeSessionId out = [] := by
    refine h.calls_frame fun k hk heq => hm ?_
    obtain ⟨s', hs', hmem⟩ := hA.sent m (by simp) (by rw [isSave, hk]; rfl)
    rw [SaveSession.saveId?_of_mem hmem] at hk ⊢
    obtain rfl := some.inj hk
    rw [hA.eq_of_writeSessionId hs hs' heq]
  have hfin : finishesOf s.saveId (pre ++ [m]) = finishesOf s.saveId pre := by
    rw [finishesOf_concat, finishOf?_of_ne hm]
    exact append_nil _
  have hstart : Started s (pre ++ [m]) ↔ Started s pre := started_concat_of_ne hm
  have hcomplete : Complete tp s (pre ++ [m]) ↔ Complete tp s pre := by
    rw [Complete, Complete, hfin, hstart]
  have hctx : openContext s (pre ++ [m]) = openContext s pre := by
    rw [openContext, openContext, hfin]
  obtain ⟨hrun, hpend⟩ := h.save_frame hm
  refine ⟨?_, ?_, ?_⟩
  · rw [hrun, hst.running]
    simp only [hcomplete, hctx, hstart]
  · rw [hpend, hst.pending]
    simp only [hfin, hstart]
  · rw [callsOf_append, hcalls, append_nil, hst.calls]
    simp only [hcomplete, hctx]

theorem context_of_finish (hm : m = .sendBlockFinished (s.finishEvent numGroups r)) :
    (Started s (pre ++ [m]) ↔ Started s pre) ∧ ¬ Complete tp s pre ∧
      (openContext s pre).addNewRank (s.finishEvent numGroups r).tpRank
        (s.finishEvent numGroups r).isSuccessList = openContext s (pre ++ [m]) := by
  have hfin : finishesOf s.saveId (pre ++ [m]) = _ := finishesOf_finish hm
  have hle := hA.length_finishes_le hs
  have hnd := hA.nodup_ranks hs
  rw [hfin] at hle hnd
  refine ⟨by simp [Started, hm], fun hc => ?_, ?_⟩
  · have := hc.2
    rw [length_append, length_singleton] at hle
    omega
  · have hnew : (s.finishEvent numGroups r).tpRank ∉
        (openContext s pre).resultPerRank.map (·.1) := by
      intro hmem
      rw [openContext, map_map] at hmem
      rw [map_append, map_singleton] at hnd
      exact (nodup_append.mp hnd).2.2 _ hmem _ (mem_singleton_self _) rfl
    rw [SaveContext.addNewRank, if_neg hnew, openContext, openContext, hfin, map_append]
    rfl

include hst

theorem merged_of_start (hm : m = .sendBlockStart s.startEvent) :
    ¬ Started s pre ∧ Started s (pre ++ [m]) ∧
      c.mergedContext s.startEvent = openContext s (pre ++ [m]) := by
  have hfresh : ¬ Started s pre := by
    have := hA.last_fresh (by rw [hm]; rfl)
    rwa [hm] at this
  refine ⟨hfresh, by simp [Started, hm], ?_⟩
  have hfin : finishesOf s.saveId (pre ++ [m]) = finishesOf s.saveId pre := by
    rw [finishesOf_concat, hm]
    exact append_nil _
  have hid : s.startEvent.saveId = s.saveId := rfl
  rw [mergedContext, hid, hst.running, if_neg (fun h => hfresh h.1), hst.pending, if_neg hfresh,
    foldl_addNewRank _ _ (by simpa using hA.of_append.nodup_ranks hs), openContext, hfin]
  rfl

theorem Stands.start (hm : m = .sendBlockStart s.startEvent) (h : Turn tp c m d out) :
    Stands tp (pre ++ [m]) d (effs ++ out) s := by
  obtain ⟨hfresh, hstarted, hmerged⟩ := merged_of_start hA hs hst hm
  have hcalls : callsOf s.writeSessionId effs = [] := by
    simpa [Complete, hfresh] using hst.calls
  have hsize : (c.mergedContext s.startEvent).getSize =
      (finishesOf s.saveId (pre ++ [m])).length := by
    rw [hmerged, SaveContext.getSize, openContext, length_map]
  generalize hms : pre ++ [m] = ms at hstarted hmerged hsize ⊢
  subst hm
  cases h with
  | opened _ hne =>
    rw [hsize] at hne
    refine ⟨?_, ?_, ?_⟩
    · rw [if_pos ⟨hstarted, fun hc => hne hc.2⟩, ← hmerged]
      exact update_self _ _ _
    · rw [if_pos hstarted]
      exact update_self _ _ _
    · rw [if_neg fun hc => hne hc.2, append_nil, hcalls]
      rfl
  | openedReady _ mask heq hmask =>
    rw [hsize] at heq
    refine ⟨?_, ?_, ?_⟩
    · rw [if_neg fun hc => hc.2 ⟨hstarted, heq⟩]
      exact update_self _ _ _
    · rw [if_pos hstarted]
      exact update_self _ _ _
    · rw [if_pos ⟨hstarted, heq⟩, callsOf_append, hcalls, ← hmerged, hmask]
      exact congrArg (List.map _) (callsOf_self _ _)

theorem Stands.finish (hm : m = .sendBlockFinished (s.finishEvent numGroups r))
    (h : Turn tp c m d out) : Stands tp (pre ++ [m]) d (effs ++ out) s := by
  obtain ⟨hstart, hopen, hadded⟩ := context_of_finish hA hs hm
  have hcalls : callsOf s.writeSessionId effs = [] := by
    simpa [hopen] using hst.calls
  have hfin : finishesOf s.saveId (pre ++ [m]) = _ := finishesOf_finish hm
  have hpend := hst.pending
  have hrun := hst.running
  have hsize : ((openContext s pre).addNewRank (s.finishEvent numGroups r).tpRank
      (s.finishEvent numGroups r).isSuccessList).getSize =
      (finishesOf s.saveId (pre ++ [m])).length := by
    rw [hadded, SaveContext.getSize, openContext, length_map]
  generalize hms : pre ++ [m] = ms at hstart hadded hsize hfin ⊢
  subst hm
  by_cases hs' : Started s pre
  · -- the session is open: the finish is added to its context
    rw [if_pos hs'] at hpend
    rw [if_pos ⟨hs', hopen⟩] at hrun
    cases h with
    | buffered _ hnone => exact absurd (hrun.symm.trans hnone) (by simp)
    | added _ ctx hctx hne =>
      obtain rfl := some.inj (hctx.symm.trans hrun)
      rw [hsize] at hne
      refine ⟨?_, ?_, ?_⟩
      · rw [if_pos ⟨hstart.mpr hs', fun hc => hne hc.2⟩, ← hadded]
        exact update_self _ _ _
      · rw [if_pos (hstart.mpr hs')]
        exact hpend
      · rw [if_neg fun hc => hne hc.2, append_nil, hcalls]
        rfl
    | addedReady _ ctx mask hctx heq hmask =>
      obtain rfl := some.inj (hctx.symm.trans hrun)
      rw [hsize] at heq
      refine ⟨?_, ?_, ?_⟩
      · rw [if_neg fun hc => hc.2 ⟨hstart.mpr hs', heq⟩]
        exact update_self _ _ _
      · rw [if_pos (hstart.mpr hs')]
        exact hpend
      · rw [if_pos ⟨hstart.mpr hs', heq⟩, callsOf_append, hcalls, ← hadded, hmask]
        exact congrArg (List.map _) (callsOf_self _ _)
  · -- the start has not arrived: the finish is buffered
    have hns : ¬ Started s ms := fun h' => hs' (hstart.mp h')
    rw [if_neg hs'] at hpend
    rw [if_neg fun h' => hs' h'.1] at hrun
    cases h with
    | buffered _ hnone =>
      refine ⟨?_, ?_, ?_⟩
      · rw [if_neg fun hc => hns hc.1]
        exact hrun
      · rw [if_neg hns, hfin, ← hpend]
        exact update_self _ _ _
      · rw [if_neg fun hc => hns hc.1, append_nil, hcalls]
        rfl
    | added _ ctx hctx hne | addedReady _ ctx mask hctx heq hmask =>
      exact absurd (hrun.symm.trans hctx) (by simp)

theorem Stands.step (h : Turn tp c m d out) : Stands tp (pre ++ [m]) d (effs ++ out) s := by
  by_cases hm : m.saveId? = some s.saveId
  · rcases SaveSession.mem_messages.mp (hA.mem_messages hs (by simp) hm) with hstart | ⟨r, -, hfin⟩
    · exact hst.start hA hs hstart h
    · exact hst.finish hA hs hfin h
  · exact hst.other hA hs h hm

end Step

/-- Where every session stands after a run that has not raised. -/
theorem gathered_run (hA : Arrivals tp numGroups sessions ms)
    (hrun : run tp {} ms = .ok (d, effs)) : ∀ s ∈ sessions, Stands tp ms d effs s := by
  refine Lib.Routine.loop_inv (A := Arrivals tp numGroups sessions)
    (P := fun ms d effs => ∀ s ∈ sessions, Stands tp ms d effs s)
    (fun _ _ h => h.of_append) ?_ ?_ hA hrun
  · intro s _
    have hns : ¬ Started s [] := by simp [Started]
    exact ⟨by simp [hns], by simp [finishesOf], by simp [Complete, hns, callsOf]⟩
  · intro pre m c effs d out hpre ih hstep s hs
    exact (ih s hs).step hpre hs (turn_of_handle hstep)

/-! ## Raising -/

theorem eq_startEvent {e : SendBlockStartEvent} (h : .sendBlockStart e ∈ s.messages tp numGroups) :
    e = s.startEvent := by
  simpa [SaveSession.mem_messages] using h

/-- A turn raises only for a session that is complete now and has more
locations than blocks. -/
theorem raise_session {err : PyError} (hA : Arrivals tp numGroups sessions (pre ++ [m]))
    (hst : ∀ s ∈ sessions, Stands tp pre c effs s) (h : c.handle tp m = .error err) :
    0 < tp ∧ ∃ s ∈ sessions, s.numBlocks < s.locations.length := by
  -- the context that is looked at is the session's own, with all its finishes
  have key : ∃ s ∈ sessions, (openContext s (pre ++ [m])).getSize = tp ∧
      onSaveFinished tp (openContext s (pre ++ [m])) = .error err := by
    rcases raise_cases h with ⟨e, rfl, hsize, hraise⟩ | ⟨e, ctx, rfl, hctx, hsize, hraise⟩
    · obtain ⟨s, hs, hmem⟩ := hA.sent (.sendBlockStart e) (by simp) rfl
      obtain rfl := eq_startEvent hmem
      obtain ⟨-, -, hmerged⟩ := merged_of_start hA hs (hst s hs) rfl
      rw [hmerged] at hsize hraise
      exact ⟨s, hs, hsize, hraise⟩
    · obtain ⟨s, hs, hmem⟩ := hA.sent (.sendBlockFinished e) (by simp) rfl
      obtain ⟨r, -, rfl⟩ := eq_finishEvent hmem
      obtain ⟨-, -, hadded⟩ := context_of_finish hA hs rfl
      have hrun : c.runningSave s.saveId = some ctx := hctx
      rw [(hst s hs).running] at hrun
      split_ifs at hrun
      obtain rfl := some.inj hrun
      rw [hadded] at hsize hraise
      exact ⟨s, hs, hsize, hraise⟩
  obtain ⟨s, hs, hsize, hraise⟩ := key
  rw [SaveContext.getSize, openContext, length_map] at hsize
  have hnot : ¬ (0 < tp → s.locations.length ≤ s.numBlocks) := by
    rw [← hA.onSaveFinished_iff hs hsize, hraise]
    rintro ⟨mask, hmask⟩
    cases hmask
  rw [Classical.not_imp, Nat.not_le] at hnot
  exact ⟨hnot.1, s, hs, hnot.2⟩

theorem run_ok (hA : Arrivals tp numGroups sessions ms)
    (hle : 0 < tp → ∀ s ∈ sessions, s.locations.length ≤ s.numBlocks) :
    ∃ d effs, run tp {} ms = .ok (d, effs) := by
  induction ms using List.reverseRecOn with
  | nil => exact ⟨_, _, rfl⟩
  | append_singleton pre m ih =>
    obtain ⟨c, effs, hrun⟩ := ih hA.of_append
    cases hm : c.handle tp m with
    | ok p => exact ⟨p.1, _, Lib.Routine.loop_concat hrun hm⟩
    | error err =>
      obtain ⟨hpos, s, hs, hlt⟩ := raise_session hA (gathered_run hA.of_append hrun) hm
      exact absurd (hle hpos s hs) (Nat.not_le_of_lt hlt)

/-! ## Every session is finished once -/

/-- Every message of every session has arrived once, among whatever other
messages. -/
structure AllArrived (tp numGroups : Nat) (sessions : List SaveSession)
    (ms : List CoordinateEvent) : Prop where
  ids : (sessions.map (·.writeSessionId)).Nodup
  perm : (ms.filter isSave).Perm (sessions.flatMap (SaveSession.messages tp numGroups))

instance (tp numGroups : Nat) (sessions : List SaveSession) (ms : List CoordinateEvent) :
    Decidable (AllArrived tp numGroups sessions ms) :=
  decidable_of_iff
    ((sessions.map (·.writeSessionId)).Nodup ∧
      (ms.filter isSave).Perm (sessions.flatMap (SaveSession.messages tp numGroups)))
    ⟨fun h => ⟨h.1, h.2⟩, fun h => ⟨h.1, h.2⟩⟩

theorem nodup_sent (tp numGroups : Nat) (hids : (sessions.map (·.writeSessionId)).Nodup) :
    (sessions.flatMap (SaveSession.messages tp numGroups)).Nodup := by
  refine nodup_flatMap.mpr ⟨fun s _ => s.nodup_messages tp numGroups, ?_⟩
  refine (pairwise_map.mp hids).imp fun {s s'} hne => ?_
  intro m hm hm'
  have heq := (SaveSession.saveId?_of_mem hm).symm.trans (SaveSession.saveId?_of_mem hm')
  exact hne (congrArg RunningId.writeSessionId (some.inj heq))

theorem AllArrived.arrivals (h : AllArrived tp numGroups sessions ms) :
    Arrivals tp numGroups sessions ms := by
  refine ⟨h.ids, h.perm.nodup_iff.mpr (nodup_sent tp numGroups h.ids), fun m hm hsave => ?_⟩
  exact mem_flatMap.mp (h.perm.mem_iff.mp (mem_filter.mpr ⟨hm, hsave⟩))

theorem AllArrived.complete (h : AllArrived tp numGroups sessions ms) (hs : s ∈ sessions) :
    Complete tp s ms := by
  refine (h.arrivals.complete_iff hs).mpr fun m hm => ?_
  have := h.perm.mem_iff.mpr (mem_flatMap.mpr ⟨s, hs, hm⟩)
  exact (mem_filter.mp this).1

/-- One call for the session, not before its last message, with one entry per
location, true only where every rank reported success. -/
def FinishedOnce (tp numGroups : Nat) (s : SaveSession) (ms : List CoordinateEvent)
    (effs : List Effect) : Prop :=
  (∃ mask, callsOf s.writeSessionId effs = [mask] ∧ mask.length = s.locations.length ∧
      ∀ i : Nat, mask[i]? = some true → ∀ r < tp, (s.reported numGroups r)[i]? = some true) ∧
    ∀ pre post d effs', ms = pre ++ post → run tp {} pre = .ok (d, effs') →
      callsOf s.writeSessionId effs' ≠ [] → ∀ m ∈ s.messages tp numGroups, m ∈ pre

/-- The routine handles every message without raising and finishes every
session once, exactly when no session has more locations than blocks. -/
theorem finishes_iff (tp numGroups : Nat) (sessions : List SaveSession) (ms : List CoordinateEvent)
    (h : AllArrived tp numGroups sessions ms) : (∃ d effs, run tp {} ms = .ok (d, effs) ∧
        ∀ s ∈ sessions, FinishedOnce tp numGroups s ms effs) ↔
      (0 < tp → ∀ s ∈ sessions, s.locations.length ≤ s.numBlocks) := by
  constructor
  · rintro ⟨d, effs, hrun, -⟩ hpos s hs
    have hcalls := (gathered_run h.arrivals hrun s hs).calls
    rw [if_pos (h.complete hs)] at hcalls
    obtain ⟨mask, -, hmask⟩ := mem_map.mp (hcalls ▸ mem_singleton_self _)
    exact (h.arrivals.onSaveFinished_iff hs (h.complete hs).2).mp ⟨mask, hmask.symm⟩ hpos
  · intro hle
    obtain ⟨d, effs, hrun⟩ := run_ok h.arrivals hle
    refine ⟨d, effs, hrun, fun s hs => ⟨?_, ?_⟩⟩
    · have hcalls := (gathered_run h.arrivals hrun s hs).calls
      rw [if_pos (h.complete hs), onSaveFinished_ok
        (fun r hr => h.arrivals.lookup_openContext hs (h.complete hs).2 hr)
        (fun r _ => s.length_reported numGroups r) fun hpos => hle hpos s hs] at hcalls
      obtain ⟨mask, hmask, heq⟩ := map_eq_singleton_iff.mp hcalls
      obtain rfl := Except.ok.inj heq
      refine ⟨_, hmask, by simp [openContext], fun i hi r hr => ?_⟩
      rw [getElem?_map] at hi
      obtain ⟨j, hj, hall⟩ := Option.map_eq_some_iff.mp hi
      obtain rfl : i = j := by simpa using (List.getElem?_eq_some_iff.mp hj).2
      simpa using all_eq_true.mp hall r (mem_range.mpr hr)
    · rintro pre post d' effs' rfl hpre hcalls
      have hA := h.arrivals.of_append
      refine (hA.complete_iff hs).mp ?_
      change Complete tp s pre
      by_contra hopen
      have := (gathered_run hA hpre s hs).calls
      rw [if_neg hopen, map_eq_nil_iff] at this
      exact hcalls this

/-- A session of one group on which every task succeeds. -/
def exampleSession (w : String) (locations blocks : Nat) : SaveSession :=
  ⟨"req", w, List.replicate locations ⟨[("spec", w)]⟩, blocks,
    fun _ => List.replicate blocks (some true)⟩

def startOf (s : SaveSession) : CoordinateEvent := .sendBlockStart s.startEvent

def finishOf (s : SaveSession) (rank : Nat) : CoordinateEvent :=
  .sendBlockFinished (s.finishEvent 1 rank)

/-- Two ranks, one of them ahead of the start. -/
theorem finishes_two_ranks :
    ∃ d effs, run 2 {} [finishOf (exampleSession "w" 1 1) 1, startOf (exampleSession "w" 1 1),
        finishOf (exampleSession "w" 1 1) 0] = .ok (d, effs) ∧
      ∀ s ∈ [exampleSession "w" 1 1], FinishedOnce 2 1 s
        [finishOf (exampleSession "w" 1 1) 1, startOf (exampleSession "w" 1 1),
          finishOf (exampleSession "w" 1 1) 0] effs :=
  (finishes_iff 2 1 [exampleSession "w" 1 1] _ (by decide +kernel)).mpr (by decide)

/-- A session with one location and no block (an answer without `block_mask`)
raises when its rank reports, and the session after it is never finished. -/
theorem location_without_block_raises :
    AllArrived 1 1 [exampleSession "v" 1 0, exampleSession "w" 1 1]
        [startOf (exampleSession "v" 1 0), finishOf (exampleSession "v" 1 0) 0,
          startOf (exampleSession "w" 1 1), finishOf (exampleSession "w" 1 1) 0] ∧
      run 1 {} [startOf (exampleSession "v" 1 0), finishOf (exampleSession "v" 1 0) 0,
          startOf (exampleSession "w" 1 1), finishOf (exampleSession "w" 1 1) 0] =
        .error .indexError :=
  ⟨by decide +kernel, rfl⟩

end TpCoordinatorServer

end TairKvCache.PyConnector
