import TairKvCache.PyConnector.DataTransfer

/-!
# What the coordinator hands over for a load

Every rank reports a load once, with the block ids that failed on it. The
coordinator counts the ranks and, when the last one reports, extends
`_failed_loading_block_idxs` with the ids of *that* message. `loadReport_run`
says so for every order of arrival, among whatever other messages, and
`loadReport_union_iff` compares the result with the union over the ranks.
-/

namespace TairKvCache.PyConnector

open List Function

namespace TpCoordinatorServer

variable {tp : Nat} {c d : TpCoordinatorServer} {m : CoordinateEvent} {out effs : List Effect}
    {id : RunningId} {ms pre : List CoordinateEvent} {e : LoadBlockFinishedEvent}

/-! ## The messages and reports of one load -/

def loadEventOf? (id : RunningId) : CoordinateEvent → Option LoadBlockFinishedEvent
  | .loadBlockFinished e => if e.loadId = id then some e else none
  | _ => none

/-- The events of the load, in their order of arrival. -/
def loadEventsOf (id : RunningId) (ms : List CoordinateEvent) : List LoadBlockFinishedEvent :=
  ms.filterMap (loadEventOf? id)

def loadReportOf? (id : RunningId) : Effect → Option (List Nat)
  | .loadFinished loadId failed => if loadId = id then some failed else none
  | .finishWriteCache _ _ => none

/-- The id lists handed over for the load. -/
def loadReportsOf (id : RunningId) (effs : List Effect) : List (List Nat) :=
  effs.filterMap (loadReportOf? id)

theorem loadReportsOf_append (id : RunningId) (effs out : List Effect) :
    loadReportsOf id (effs ++ out) = loadReportsOf id effs ++ loadReportsOf id out :=
  filterMap_append

theorem loadEventsOf_concat (id : RunningId) (pre : List CoordinateEvent) (m : CoordinateEvent) :
    loadEventsOf id (pre ++ [m]) = loadEventsOf id pre ++ (loadEventOf? id m).toList := by
  rw [loadEventsOf, filterMap_append, loadEventsOf]
  cases h : loadEventOf? id m <;> simp [h]

theorem loadEventOf?_eq_some (h : loadEventOf? id m = some e) :
    m = .loadBlockFinished e ∧ e.loadId = id := by
  cases m with
  | loadBlockFinished e' =>
    rw [loadEventOf?] at h
    split_ifs at h with hid
    obtain rfl := Option.some.inj h
    exact ⟨rfl, hid⟩
  | sendBlockStart | sendBlockFinished | unreadable => cases h

/-! ## Turns on other messages -/

/-- A message that is not of the load neither touches its context nor hands
anything over for it. -/
theorem Turn.load_frame (h : Turn tp c m d out) (hm : loadEventOf? id m = none) :
    d.runningLoad id = c.runningLoad id ∧ loadReportsOf id out = [] := by
  cases h with
  | opened | openedReady | buffered | added | addedReady | unreadable => exact ⟨rfl, rfl⟩
  | loadKept e hsize =>
    have hne : e.loadId ≠ id := by simpa [loadEventOf?] using hm
    exact ⟨update_of_ne (Ne.symm hne) _ _, rfl⟩
  | loadReady e hsize =>
    have hne : e.loadId ≠ id := by simpa [loadEventOf?] using hm
    refine ⟨update_of_ne (Ne.symm hne) _ _, ?_⟩
    simp [loadReportsOf, loadReportOf?, hne]

/-! ## The run invariant -/

/-- The ranks of the load's events are distinct and exist. -/
def RanksOnce (tp : Nat) (id : RunningId) (ms : List CoordinateEvent) : Prop :=
  ((loadEventsOf id ms).map (·.tpRank)).Nodup ∧ ∀ e ∈ loadEventsOf id ms, e.tpRank < tp

theorem RanksOnce.of_concat (h : RanksOnce tp id (pre ++ [m])) : RanksOnce tp id pre := by
  rw [RanksOnce, loadEventsOf_concat, map_append] at h
  exact ⟨h.1.of_append_left, fun e he => h.2 e (mem_append_left _ he)⟩

/-- Distinct ranks below the world size are at most that many. -/
theorem RanksOnce.length_le (h : RanksOnce tp id ms) : (loadEventsOf id ms).length ≤ tp := by
  have hsub : (loadEventsOf id ms).map (·.tpRank) ⊆ List.range tp := by
    intro r hr
    obtain ⟨e, he, rfl⟩ := mem_map.mp hr
    exact mem_range.mpr (h.2 e he)
  have := (h.1.subperm hsub).length_le
  rwa [length_map, length_range] at this

/-- The context of a load of which the given events have arrived. -/
def loadContextAfter (tp : Nat) (es : List LoadBlockFinishedEvent) : Option LoadContext :=
  if es = [] ∨ es.length = tp then none else some ⟨es.map (·.tpRank)⟩

/-- What has been handed over for it. -/
def loadReportsAfter (tp : Nat) (es : List LoadBlockFinishedEvent) : List (List Nat) :=
  if es.length = tp then (es.getLast?.map (·.failedBlockIdxs)).toList else []

theorem getD_loadContextAfter {es : List LoadBlockFinishedEvent} (h : es.length < tp) :
    (loadContextAfter tp es).getD {} = ⟨es.map (·.tpRank)⟩ := by
  unfold loadContextAfter
  by_cases hes : es = []
  · subst hes; simp
  · rw [if_neg (by rintro (h' | h'); exacts [hes h', absurd h' (Nat.ne_of_lt h)])]
    rfl

theorem loadReport_run (hms : RanksOnce tp id ms) (hrun : run tp {} ms = .ok (d, effs)) :
    d.runningLoad id = loadContextAfter tp (loadEventsOf id ms) ∧
      loadReportsOf id effs = loadReportsAfter tp (loadEventsOf id ms) := by
  refine Lib.Routine.loop_inv (A := RanksOnce tp id)
    (P := fun ms d effs => d.runningLoad id = loadContextAfter tp (loadEventsOf id ms) ∧
      loadReportsOf id effs = loadReportsAfter tp (loadEventsOf id ms))
    (fun _ _ h => h.of_concat) ?_ ?_ hms hrun
  · refine ⟨by simp [loadContextAfter, loadEventsOf], ?_⟩
    unfold loadReportsAfter
    split_ifs <;> rfl
  · intro pre m c effs d out hpre ih hstep
    have hturn := turn_of_handle hstep
    cases he : loadEventOf? id m with
    | none =>
      obtain ⟨hctx, hout⟩ := hturn.load_frame he
      rw [loadEventsOf_concat, he, loadReportsOf_append, hctx, hout, append_nil]
      exact (append_nil (loadEventsOf id pre)).symm ▸ ih
    | some e =>
      obtain ⟨rfl, rfl⟩ := loadEventOf?_eq_some he
      have hle := hpre.length_le
      have hnd := hpre.1
      rw [loadEventsOf_concat, he, Option.toList_some] at hle hnd ⊢
      rw [length_append, length_singleton] at hle
      have hnew : e.tpRank ∉ (loadEventsOf e.loadId pre).map (·.tpRank) := by
        rw [map_append, map_singleton] at hnd
        exact fun hmem => (nodup_append.mp hnd).2.2 _ hmem _ (mem_singleton_self _) rfl
      have hreports : loadReportsOf e.loadId effs = [] := by
        rw [ih.2, loadReportsAfter, if_neg (by omega)]
      have hctx : c.loadContext e =
          ⟨(loadEventsOf e.loadId pre ++ [e]).map (·.tpRank)⟩ := by
        rw [loadContext, ih.1, getD_loadContextAfter (by omega), LoadContext.addNewRank,
          if_neg hnew, map_append, map_singleton]
      have hsize : (c.loadContext e).getSize = (loadEventsOf e.loadId pre ++ [e]).length := by
        rw [hctx, LoadContext.getSize, length_map]
      rw [loadReportsOf_append, hreports, nil_append]
      cases hturn with
      | loadKept _ hne =>
        rw [hsize] at hne
        refine ⟨?_, ?_⟩
        · rw [loadContextAfter, if_neg (by simpa using hne), ← hctx]
          exact update_self _ _ _
        · rw [loadReportsAfter, if_neg hne]
          rfl
      | loadReady _ heq =>
        rw [hsize] at heq
        refine ⟨?_, ?_⟩
        · rw [loadContextAfter, if_pos (Or.inr heq)]
          exact update_self _ _ _
        · rw [loadReportsAfter, if_pos heq]
          simp [loadReportsOf, loadReportOf?]

/-! ## The union over the ranks -/

/-- Each of the `tp` ranks has reported the load once, rank `r` with the ids
`failed r`. -/
def ReportedOnce (tp : Nat) (id : RunningId) (failed : Nat → List Nat)
    (ms : List CoordinateEvent) : Prop :=
  ((loadEventsOf id ms).map fun e => (e.tpRank, e.failedBlockIdxs)).Perm
    ((List.range tp).map fun r => (r, failed r))

instance (tp : Nat) (id : RunningId) (failed : Nat → List Nat) (ms : List CoordinateEvent) :
    Decidable (ReportedOnce tp id failed ms) :=
  inferInstanceAs (Decidable (List.Perm _ _))

section ReportedOnce

variable {failed : Nat → List Nat} (h : ReportedOnce tp id failed ms)

include h

theorem ReportedOnce.length_eq : (loadEventsOf id ms).length = tp := by
  simpa using List.Perm.length_eq h

theorem ReportedOnce.event (he : e ∈ loadEventsOf id ms) :
    e.tpRank < tp ∧ e.failedBlockIdxs = failed e.tpRank := by
  have hmem := List.Perm.mem_iff h |>.mp
    (mem_map_of_mem (f := fun e => (e.tpRank, e.failedBlockIdxs)) he)
  obtain ⟨r, hr, heq⟩ := mem_map.mp hmem
  obtain ⟨hrank, hfailed⟩ := Prod.mk.inj heq
  exact ⟨hrank ▸ mem_range.mp hr, by rw [← hfailed, hrank]⟩

theorem ReportedOnce.ranksOnce : RanksOnce tp id ms := by
  refine ⟨?_, fun e he => (h.event he).1⟩
  have hperm := List.Perm.map Prod.fst h
  rw [map_map, map_map] at hperm
  have hrange : (Prod.fst ∘ fun r => (r, failed r)) = fun r : Nat => r := rfl
  rw [hrange, map_id'] at hperm
  exact hperm.nodup_iff.mpr nodup_range

end ReportedOnce

/-- The ids handed over for a load are the union of the ids the ranks
reported exactly when the rank that reports last names every one of them. -/
theorem loadReport_union_iff (tp : Nat) (id : RunningId) (failed : Nat → List Nat)
    (ms : List CoordinateEvent) (h : ReportedOnce tp id failed ms)
    (d : TpCoordinatorServer) (effs : List Effect) (hrun : run tp {} ms = .ok (d, effs)) :
    (∃ ids, loadReportsOf id effs = [ids] ∧ ∀ b, b ∈ ids ↔ ∃ r < tp, b ∈ failed r) ↔
      ∃ last, (loadEventsOf id ms).getLast? = some last ∧
        ∀ r < tp, failed r ⊆ failed last.tpRank := by
  have hreports : loadReportsOf id effs =
      ((loadEventsOf id ms).getLast?.map (·.failedBlockIdxs)).toList := by
    rw [(loadReport_run h.ranksOnce hrun).2, loadReportsAfter, if_pos h.length_eq]
  cases hlast : (loadEventsOf id ms).getLast? with
  | none =>
    rw [hlast] at hreports
    simp [hreports]
  | some last =>
    rw [hlast] at hreports
    obtain ⟨hlt, hfailed⟩ := h.event (mem_of_getLast? hlast)
    simp only [hreports, Option.map_some, Option.toList_some, List.cons.injEq, and_true,
      exists_eq_left', Option.some.injEq, hfailed]
    constructor
    · intro hunion r hr b hb
      exact (hunion b).mpr ⟨r, hr, hb⟩
    · intro hcovers b
      exact ⟨fun hb => ⟨last.tpRank, hlt, hb⟩, fun ⟨r, hr, hb⟩ => hcovers r hr hb⟩

/-- Two ranks load block 7 in epoch 3; it fails on rank 0 only. -/
def loadOnRank (rank : Nat) : CoordinateEvent :=
  .loadBlockFinished (createLoadDoneCallback "req" rank 3 [7] 1 true [some (rank ≠ 0)])

/-- The failing rank reports last: block 7 is handed over. -/
theorem loadReport_failure_last :
    ∃ ids, ids = [7] ∧ ∀ b, b ∈ ids ↔ ∃ r < 2, b ∈ if r = 0 then [7] else [] := by
  obtain ⟨ids, hids, hunion⟩ := (loadReport_union_iff 2 ⟨"3", "req"⟩
    (fun r => if r = 0 then [7] else []) [loadOnRank 1, loadOnRank 0] (by decide +kernel) _ _ rfl).mpr
      ⟨_, rfl, by decide⟩
  exact ⟨ids, (List.cons.inj hids).1.symm, hunion⟩

/-- The failing rank reports first: the load is handed over as finished with
no failed block. -/
theorem loadReport_failure_first : ReportedOnce 2 ⟨"3", "req"⟩ (fun r => if r = 0 then [7] else [])
        [loadOnRank 0, loadOnRank 1] ∧
      ∃ d effs, run 2 {} [loadOnRank 0, loadOnRank 1] = .ok (d, effs) ∧
        d.finishedLoading = ["req"] ∧ d.failedLoadingBlockIdxs = [] ∧
        loadReportsOf ⟨"3", "req"⟩ effs = [[]] :=
  ⟨by decide +kernel, _, _, rfl, rfl, rfl, rfl⟩

end TpCoordinatorServer

end TairKvCache.PyConnector
