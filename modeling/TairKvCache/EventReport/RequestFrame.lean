import TairKvCache.EventReport.DeltaGate
import TairKvCache.EventReport.ReportEvent

/-!
# What the steps of a request leave alone

Two facts carry the results about `ReportEvent`. No call of the backend, by
this request or by another caller, puts a snapshot version in flight except
the `BeginSnapshot` that generated it (`KeepsOff`). And most of a request
happens beside its snapshot: it calls the backend and may fail the snapshot's
item, and leaves the rest of the snapshot as it is (`Beside`).
-/

namespace TairKvCache.EventReport

/-! ## A version and the calls that are not about it -/

/-- `v` is in flight after only if it was before, and then the fence stays. -/
structure Reporter.KeepsOff (v : String) (r r' : Reporter) : Prop where
  before : r'.inFlight = v → r.inFlight = v
  fence : r'.inFlight = v → r.fence.isSome → r'.fence.isSome

namespace Reporter.KeepsOff

variable {v : String} {r r' r'' : Reporter}

theorem refl (v : String) (r : Reporter) : KeepsOff v r r := ⟨id, fun _ => id⟩

theorem trans (h : KeepsOff v r r') (h' : KeepsOff v r' r'') : KeepsOff v r r'' where
  before hv := h.before (h'.before hv)
  fence hv hf := h'.fence hv (h.fence (h'.before hv) hf)

theorem of_ne (h : r'.inFlight ≠ v) : KeepsOff v r r' :=
  ⟨fun hv => absurd hv h, fun hv => absurd hv h⟩

theorem of_inFlight_eq (h : r'.inFlight = r.inFlight)
    (hfence : r.fence.isSome → r'.fence.isSome) : KeepsOff v r r' :=
  ⟨fun hv => h ▸ hv, fun _ => hfence⟩

theorem of_eq (h : r'.snapshot = r.snapshot) (hfence : r'.fence.isSome = true) : KeepsOff v r r' :=
  of_inFlight_eq (by rw [inFlight, inFlight, h]) fun _ => hfence

theorem of_snapshot_none (hv : v ≠ "") (h : r'.snapshot = none) : KeepsOff v r r' :=
  of_ne (by rw [inFlight, h]; exact hv.symm)

theorem ne (h : KeepsOff v r r') (hr : r.inFlight ≠ v) : r'.inFlight ≠ v :=
  fun hv => hr (h.before hv)

theorem fenced (h : KeepsOff v r r') (hr : r.inFlight = v → r.fence.isSome) (hv : r'.inFlight = v) :
    r'.fence.isSome :=
  h.fence hv (hr (h.before hv))

end Reporter.KeepsOff

namespace Reporter

variable {v : String} (r : Reporter) (accepting : Bool)

theorem withFence_keepsOff : KeepsOff v r r.withFence := .of_eq rfl rfl

theorem unregisterNodeLocked_keepsOff (hv : v ≠ "") : KeepsOff v r r.unregisterNodeLocked.2 := by
  unfold unregisterNodeLocked
  dsimp only
  split
  · exact .of_inFlight_eq rfl id
  · exact .of_snapshot_none hv rfl

variable {r}

theorem Touch.keepsOff {r' : Reporter} (h : Touch r r') : KeepsOff v r r' := by
  cases h <;> exact .of_inFlight_eq rfl id

theorem NodeEffect.keepsOff {r' : Reporter} (hv : v ≠ "") (h : NodeEffect r r') :
    KeepsOff v r r' := by
  cases h with
  | touch ht => exact ht.keepsOff
  | fenced | opens | stays => exact .of_eq rfl rfl
  | leaves =>
    exact (r.withFence_keepsOff.trans (unregisterNodeLocked_keepsOff _ hv)).trans (.of_eq rfl rfl)
  | hostDown =>
    have hdown : KeepsOff v r
        (fenceDown { r.withFence with generation := some r.withFence.currentGeneration }) :=
      .of_eq rfl rfl
    cases hn : r.node with
    | none => simpa [unregisterNodeForHostDown, fenceDown, hn] using hdown
    | some i =>
      simpa [unregisterNodeForHostDown, fenceDown, hn] using
        hdown.trans (unregisterNodeLocked_keepsOff _ hv)

theorem KeepsOff.getD {o : Option Reporter} (h : ∀ r', o = some r' → Touch r r') :
    KeepsOff v r (o.getD r) := by
  cases o with
  | none => exact .refl v r
  | some r' => exact (h r' rfl).keepsOff

variable (r)

variable {r} {r' : Reporter} {R : SnapshotVersionState → SnapshotVersionState → Prop}

theorem GateEffect.keepsOff (hR : ∀ st st', R st st' → st'.inFlight = v → st.inFlight = v)
    (he : GateEffect R r r') : KeepsOff v r r' := by
  cases he with
  | same => exact .refl v r
  | fenced => exact r.withFence_keepsOff
  | state hf _ _ hst =>
    refine ⟨fun hv => hR _ _ hst hv, fun _ hsome => ?_⟩
    rcases hf with rfl | rfl
    · exact hsome
    · rfl

theorem GateEffect.drifts_keepsOff (hv : v ≠ "") (he : GateEffect Drifts r r') :
    KeepsOff v r r' := by
  refine he.keepsOff fun st st' hd hst => ?_
  rcases hd.inFlight with h | h
  · exact h ▸ hst
  · exact absurd (hst.symm.trans h) hv

end Reporter

namespace OtherCall

open Reporter

theorem apply_keepsOff {v : String} (hv : v ≠ "") {c : OtherCall} (hc : c.token? ≠ some v)
    (r : Reporter) : KeepsOff v r (c.apply r) := by
  cases c with
  | register accepting valid mediums nowMs => exact (r.registerNode_effect ..).keepsOff hv
  | ensureKnown mediums => exact .getD fun r' hr' => ensureKnown_touch hr'
  | ensureCreated accepting mediums nowMs => exact (r.ensureCreated_effect ..).keepsOff hv
  | unregister retired => exact (r.unregisterNode_effect _).keepsOff hv
  | hostDown accepting => exact (r.unregisterNodeForHostDown_effect _).keepsOff hv
  | unregisterIfGeneration retired generation =>
    exact (r.unregisterNodeIfGeneration_effect ..).keepsOff hv
  | steadyHeartbeat nowMs => exact .getD fun r' hr' => (tryPublishSteadyHeartbeat_touch hr').1
  | lockedHeartbeat accepting nowMs => exact (r.heartbeatLocked_effect ..).keepsOff hv
  | setNodeUnavailable nowMs => exact (r.setNodeUnavailable_touch _).keepsOff
  | livenessCheck nowMs freshNowMs heartbeatTimeoutMs cleanupGraceMs =>
    exact (r.livenessCheck_touch ..).keepsOff
  | beginDelta accepting named token => exact (r.beginDeltaMutation_gate ..).drifts_keepsOff hv
  | endDelta version => exact (r.endDeltaMutation_gate _).drifts_keepsOff hv
  | beginSnapshot accepting named nowMs snapshotMinIntervalMs token =>
    refine (r.beginSnapshot_gate ..).keepsOff fun st st' hst hv => ?_
    rcases hst with rfl | rfl
    · exact hv
    · exact absurd (by rw [token?, ← hv]) hc
  | finishBeginSnapshot accepting token =>
    exact (r.finishBeginSnapshot_gate ..).drifts_keepsOff hv
  | commit token nowMs => exact (r.commitSnapshotVersion_gate ..).drifts_keepsOff hv
  | commitIfGeneration accepting token generation nowMs =>
    exact (r.commitSnapshotVersionIfGeneration_gate ..).drifts_keepsOff hv
  | abort named token =>
    refine (r.abortSnapshotVersion_gate ..).keepsOff fun st st' hst hempty => ?_
    obtain rfl := hst
    exact absurd hempty.symm hv
  | createFence => exact r.withFence_keepsOff
  | clear => exact .of_snapshot_none hv rfl

theorem foldl_apply_keepsOff {v : String} (hv : v ≠ "") {cs : List OtherCall}
    (hcs : ∀ c ∈ cs, c.token? ≠ some v) (r : Reporter) : KeepsOff v r (cs.foldl apply r) := by
  induction cs generalizing r with
  | nil => exact .refl v r
  | cons c cs ih =>
    exact (apply_keepsOff hv (hcs c List.mem_cons_self) r).trans
      (ih (fun c' h => hcs c' (List.mem_cons_of_mem c h)) _)

end OtherCall

/-! ## Beside the snapshot -/

theorem SnapshotToken.ne_empty (t : SnapshotToken) : t.1 ≠ "" := by
  intro h
  have hvalid := t.2
  rw [h] at hvalid
  exact absurd hvalid (by decide)

/-- The calls that are about the snapshot of a request. -/
def RequestCall.isSnapshotCall : RequestCall → Bool
  | .merged _ _ | .deleted _ _ => false
  | _ => true

section Request

variable {σ : Type} {env : Surroundings σ} {req : ReportEventRequest} {i index : Nat}
    {ec : ErrorCode} {st st' st'' : RequestState σ} (mediums : List String)

def RequestState.snapshotCalls (st : RequestState σ) : List RequestCall :=
  st.history.filter (·.isSnapshotCall)

/-- The step does nothing to the snapshot of item `i`, except that it may fail
the item. -/
structure Beside (env : Surroundings σ) (i : Nat) (st st' : RequestState σ) : Prop where
  reporter : ∀ m, Reporter.KeepsOff (env.token m).1 st.reporter st'.reporter
  toReplace : st'.snapshotToReplace = st.snapshotToReplace
  commitTask : st'.snapshotCommitTask = st.snapshotCommitTask
  calls : st'.snapshotCalls = st.snapshotCalls
  failed : st.codes i ≠ .ok → st'.codes i ≠ .ok

namespace Beside

theorem refl (st : RequestState σ) : Beside env i st st := ⟨fun _ => .refl _ _, rfl, rfl, rfl, id⟩

theorem trans (h : Beside env i st st') (h' : Beside env i st' st'') : Beside env i st st'' :=
  ⟨fun m => (h.reporter m).trans (h'.reporter m), h'.toReplace.trans h.toReplace,
    h'.commitTask.trans h.commitTask, h'.calls.trans h.calls, h'.failed ∘ h.failed⟩

theorem setCode (h : Beside env i st st') (hec : index = i → ec ≠ .ok) :
    Beside env i st (st'.setCode index ec) := by
  refine { h with failed := fun hne => ?_ }
  simp only [RequestState.setCode, ItemCodes.set]
  split_ifs with heq
  · exact hec heq.symm
  · exact h.failed hne

end Beside

namespace RequestState

variable (st : RequestState σ)

theorem others_keepsOff (m n : Nat) (r : Reporter) :
    Reporter.KeepsOff (env.token m).1 r ((env.others n).foldl OtherCall.apply r) :=
  OtherCall.foldl_apply_keepsOff (env.token m).ne_empty (env.fresh m n) r

theorem call_beside (env : Surroundings σ) {α : Type} {f : Bool → Reporter → α × Reporter}
    (hf : ∀ m accepting r, Reporter.KeepsOff (env.token m).1 r (f accepting r).2) :
    Beside env i st (st.call env f).2 :=
  ⟨fun m => (others_keepsOff m st.calls st.reporter).trans (hf m _ _), rfl, rfl, rfl, id⟩

theorem read_beside (env : Surroundings σ) {α : Type} (f : Bool → Reporter → α) :
    Beside env i st (st.read env f).2 :=
  st.call_beside env fun _ _ _ => .refl _ _

theorem acquireWriteLease_beside : Beside env i st (st.acquireWriteLease env).2 :=
  st.read_beside env _

end RequestState

end Request

end TairKvCache.EventReport
