import TairKvCache.EventReport.System

/-!
# Reporter lifecycles

What the operations that register, revive and unregister reporters do to one
reporter (`Reporter.Moves`): the generation never decreases, a node appears
and an unavailable one is revived only with a new generation, and the
snapshot state lives exactly as long as the node. The fence agrees with the
node table and the generations throughout (`Reporter.Good`).

The liveness checker acts on a selection made earlier. Everything that could
contradict the selection (a REGISTER, a HEARTBEAT of the node it had made
unavailable) advances the generation, which is what its unregistration
compares.
-/

namespace TairKvCache.EventReport

open Lib List Machine EventReportBackend
open Option (some.inj ite_none_left_eq_some)

variable {r r' : Reporter} {i : NodeInfo} {nowMs : Int} {s : System} {key : ReporterSnapshotKey}
    {s' : System} {a : Action} {R : SnapshotVersionState → SnapshotVersionState → Prop}

/-! ## Snapshot states -/

/-- Steps other than the start and the abort of a snapshot: the attempt goes
on or is over, and only its token can become the committed one. -/
structure Drifts (st st' : SnapshotVersionState) : Prop where
  epoch : st'.attemptEpoch = st.attemptEpoch
  strict : st.strictQueryVisibility = true → st'.strictQueryVisibility = true
  inFlight : st'.inFlight = st.inFlight ∨ st'.inFlight = ""
  committed : st.committed ≠ "" → st'.committed = st.committed ∨
    (st'.committed = st.inFlight ∧ st.inFlight ≠ "")

theorem Drifts.refl (st : SnapshotVersionState) : Drifts st st :=
  ⟨rfl, id, .inl rfl, fun _ => .inl rfl⟩

/-- A snapshot starts, or only the state is created. -/
def Begins (token : String) (st st' : SnapshotVersionState) : Prop :=
  st' = st ∨ st' = { st with attemptEpoch := st.attemptEpoch + 1, inFlight := token }

def Aborts (st st' : SnapshotVersionState) : Prop :=
  st' = { st with inFlight := "", strictQueryVisibility := false }

namespace Reporter

/-- The fence agrees with the generation table and the node table, and
snapshot states belong to nodes. -/
structure Good (r : Reporter) : Prop where
  fence : ∀ f, r.fence = some f →
    f.generation = r.currentGeneration ∧ f.registered = r.node.isSome
  unfenced : r.fence = none → r.node = none ∧ r.generation = none
  numbered : r.generation = none → r.node = none
  snapshot : r.node = none → r.snapshot = none

theorem Good.empty : Good {} :=
  ⟨by simp, by simp, by simp, by simp⟩

theorem Good.registeredAt_iff (h : r.Good) (g : Nat) :
    r.registeredAt g = true ↔ r.node.isSome = true ∧ r.currentGeneration = g := by
  unfold registeredAt
  cases hf : r.fence with
  | none => simp [(h.unfenced hf).1]
  | some f =>
    obtain ⟨hgen, hreg⟩ := h.fence f hf
    simp [hgen, hreg]

/-- What the operations on nodes do to a reporter. -/
structure Moves (r r' : Reporter) : Prop where
  good : r'.Good
  le : r.currentGeneration ≤ r'.currentGeneration
  created : r.node = none → r'.node ≠ none → r.currentGeneration < r'.currentGeneration
  revived : r.currentGeneration = r'.currentGeneration →
    ∀ i', r'.node = some i' → i'.available = true → ∃ i, r.node = some i ∧ i.available = true
  snapshot : r'.snapshot = if r'.node.isSome then r.snapshot else none

/-- Of these, what may happen while a lifecycle lease is held. -/
structure Pinned (r r' : Reporter) : Prop where
  fence : r.fence.isSome = true → r'.fence = r.fence
  node : r'.node.isSome = r.node.isSome
  generation : r'.generation = r.generation

theorem Moves.refl (h : r.Good) : Moves r r where
  good := h
  le := le_rfl
  created := fun hnone hsome => absurd hnone hsome
  revived := fun _ i hi ha => ⟨i, hi, ha⟩
  snapshot := by
    cases hn : r.node with
    | none => simp [h.snapshot hn]
    | some _ => simp

theorem Pinned.refl (r : Reporter) : Pinned r r := ⟨fun _ => rfl, rfl, rfl⟩

theorem Pinned.currentGeneration (h : Pinned r r') :
    r'.currentGeneration = r.currentGeneration := by
  unfold Reporter.currentGeneration
  rw [h.generation]

/-! ## Fences -/

@[simp] theorem withFence_node (r : Reporter) : r.withFence.node = r.node := rfl

@[simp] theorem withFence_generation (r : Reporter) : r.withFence.generation = r.generation := rfl

@[simp] theorem withFence_snapshot (r : Reporter) : r.withFence.snapshot = r.snapshot := rfl

@[simp] theorem withFence_currentGeneration (r : Reporter) :
    r.withFence.currentGeneration = r.currentGeneration := rfl

theorem withFence_fence_of_isSome (h : r.fence.isSome = true) : r.withFence.fence = r.fence := by
  obtain ⟨f, hf⟩ := Option.isSome_iff_exists.mp h
  simp [withFence, hf]

theorem Good.withFence (h : r.Good) : r.withFence.Good where
  fence := by
    intro f hf
    cases hr : r.fence with
    | none =>
      obtain ⟨hnode, hgen⟩ := h.unfenced hr
      obtain rfl : ({} : LifecycleFence) = f := by simpa [Reporter.withFence, hr] using hf
      simp [currentGeneration, hgen, hnode]
    | some f' =>
      obtain rfl : f' = f := by simpa [Reporter.withFence, hr] using hf
      exact h.fence f' hr
  unfenced := by simp [Reporter.withFence]
  numbered := h.numbered
  snapshot := h.snapshot

theorem moves_withFence (h : r.Good) : Moves r r.withFence :=
  { Moves.refl h with good := h.withFence }

theorem pinned_withFence (r : Reporter) : Pinned r r.withFence :=
  ⟨withFence_fence_of_isSome, rfl, rfl⟩

/-! ## Entering a generation -/

@[simp] theorem enter_currentGeneration (r : Reporter) (g : Nat) (info : NodeInfo) :
    (r.enter g info).currentGeneration = g := rfl

@[simp] theorem enter_node (r : Reporter) (g : Nat) (info : NodeInfo) :
    (r.enter g info).node = some info := rfl

@[simp] theorem enter_snapshot (r : Reporter) (g : Nat) (info : NodeInfo) :
    (r.enter g info).snapshot = r.snapshot := rfl

theorem good_enter (r : Reporter) (g : Nat) (info : NodeInfo) : (r.enter g info).Good where
  fence := by
    intro f hf
    obtain rfl := some.inj hf
    exact ⟨rfl, rfl⟩
  unfenced := by simp [enter]
  numbered := by simp [enter]
  snapshot := by simp [enter]

theorem moves_enter_next (r : Reporter) (info : NodeInfo) :
    Moves r (r.enter (r.currentGeneration + 1) info) where
  good := good_enter _ _ _
  le := Nat.le_succ _
  created := fun _ _ => Nat.lt_succ_self _
  revived := fun h => absurd h (Nat.ne_of_lt (Nat.lt_succ_self _))
  snapshot := by simp

/-- The same generation again: the node is there, and is not revived. -/
theorem moves_enter_same {info : NodeInfo} (hi : r.node = some i)
    (ha : info.available = true → i.available = true) :
    Moves r (r.enter r.currentGeneration info) where
  good := good_enter _ _ _
  le := le_rfl
  created := fun hnone => by simp [hi] at hnone
  revived := fun _ i' hi' hav => by
    obtain rfl := some.inj hi'
    exact ⟨i, hi, ha hav⟩
  snapshot := by simp

theorem moves_touch (h : r.Good) {info : NodeInfo} (hi : r.node = some i)
    (ha : info.available = true → i.available = true) : Moves r { r with node := some info } where
  good :=
    { fence := fun f hf => by simpa [hi, currentGeneration] using h.fence f hf
      unfenced := fun hf => by simp [(h.unfenced hf).1] at hi
      numbered := fun hg => by simp [h.numbered hg] at hi
      snapshot := by simp }
  le := le_rfl
  created := fun hnone => by simp [hi] at hnone
  revived := fun _ i' hi' hav => by
    obtain rfl := some.inj hi'
    exact ⟨i, hi, ha hav⟩
  snapshot := by simp

theorem pinned_touch (hi : r.node = some i) (info : NodeInfo) :
    Pinned r { r with node := some info } :=
  ⟨fun _ => rfl, by simp [hi], rfl⟩

/-! ## Leaving -/

/-- The reporter once it is unregistered: a fence and a tombstone. -/
def down (r : Reporter) : Reporter :=
  { fence := some { generation := r.currentGeneration, registered := false }
    node := none
    generation := some r.currentGeneration
    snapshot := none }

@[simp] theorem down_node (r : Reporter) : r.down.node = none := rfl

@[simp] theorem down_snapshot (r : Reporter) : r.down.snapshot = none := rfl

@[simp] theorem down_currentGeneration (r : Reporter) :
    r.down.currentGeneration = r.currentGeneration := rfl

theorem moves_down (r : Reporter) : Moves r r.down where
  good :=
    { fence := fun f hf => by
        obtain rfl := some.inj hf
        exact ⟨rfl, rfl⟩
      unfenced := by simp [down]
      numbered := by simp [down]
      snapshot := by simp }
  le := le_rfl
  created := fun _ hne => absurd rfl hne
  revived := fun _ _ hi => by simp at hi
  snapshot := by simp

/-- Whether or not the node was there, this is what is left. -/
theorem unregisterNodeLocked_fenceDown (h : r.Good) :
    r.unregisterNodeLocked.2.fenceDown = r.down := by
  unfold unregisterNodeLocked
  cases hn : r.node with
  | none =>
    simp only
    simp [fenceDown, down, currentGeneration, h.snapshot hn]
  | some i => simp [fenceDown, down, currentGeneration]

/-! ## The operations -/

/-- What an operation that stays in the generation can do to the entries. -/
inductive Touch (r : Reporter) : Reporter → Prop
  | same : Touch r r
  | node {i info : NodeInfo} (hi : r.node = some i)
      (ha : info.available = true → i.available = true) : Touch r { r with node := some info }

theorem Touch.moves (ht : Touch r r') (h : r.Good) : Moves r r' := by
  cases ht with
  | same => exact Moves.refl h
  | node hi ha => exact moves_touch h hi ha

theorem Touch.pinned (ht : Touch r r') : Pinned r r' := by
  cases ht with
  | same => exact Pinned.refl r
  | node hi ha => exact pinned_touch hi _

/-- What the operations on nodes can do to the entries. -/
inductive NodeEffect (r : Reporter) : Reporter → Prop
  | touch {r' : Reporter} (ht : Touch r r') : NodeEffect r r'
  | fenced : NodeEffect r r.withFence
  | opens (info : NodeInfo) : NodeEffect r (r.enter (r.currentGeneration + 1) info)
  | stays {i info : NodeInfo} (hi : r.node = some i)
      (ha : info.available = true → i.available = true) :
      NodeEffect r (r.enter r.currentGeneration info)
  | leaves : NodeEffect r r.withFence.unregisterNodeLocked.2.fenceDown
  | hostDown : NodeEffect r (r.unregisterNodeForHostDown true).2

theorem registerNode_effect (r : Reporter) (accepting valid : Bool) (mediums : List String)
    (nowMs : Int) : NodeEffect r (r.registerNode accepting valid mediums nowMs).2 := by
  unfold registerNode
  split
  · exact .touch .same
  split
  · exact .touch .same
  · exact .opens _

theorem registerNode_ok {accepting valid : Bool} {mediums : List String}
    (hok : (r.registerNode accepting valid mediums nowMs).1 = .ok) :
    (r.registerNode accepting valid mediums nowMs).2.currentGeneration
      = r.currentGeneration + 1 := by
  unfold registerNode at hok ⊢
  split at hok
  · cases hok
  · rename_i hvalid
    split at hok
    · cases hok
    · rename_i hacc
      simp [hvalid, hacc]

theorem registerNode_rejected (r : Reporter) (valid : Bool) (mediums : List String) (nowMs : Int) :
    (r.registerNode false valid mediums nowMs).2.currentGeneration = r.currentGeneration := by
  cases valid <;> rfl

theorem ensureKnown_touch {mediums : List String} (he : r.ensureKnown mediums = some r') :
    Touch r r' := by
  obtain ⟨i, hi, rfl⟩ := Option.map_eq_some_iff.mp he
  exact .node hi fun ha => ha

theorem ensureCreated_effect (r : Reporter) (accepting : Bool) (mediums : List String)
    (nowMs : Int) : NodeEffect r (r.ensureCreated accepting mediums nowMs).2 := by
  unfold ensureCreated
  dsimp only
  split
  · exact .fenced
  split
  · rename_i i hi
    exact .stays hi fun ha => ha
  split
  · exact .fenced
  · exact .opens _

theorem unregisterNode_effect (r : Reporter) (retired : Bool) :
    NodeEffect r (r.unregisterNode retired).2 := by
  unfold unregisterNode
  dsimp only
  split
  · exact .fenced
  · exact .leaves

theorem unregisterNodeForHostDown_effect (r : Reporter) (accepting : Bool) :
    NodeEffect r (r.unregisterNodeForHostDown accepting).2 := by
  cases accepting with
  | false => exact .fenced
  | true => exact .hostDown

theorem unregisterNodeForHostDown_eq (h : r.Good) :
    (r.unregisterNodeForHostDown true).2 = r.down := by
  cases hn : r.node with
  | none =>
    simp [unregisterNodeForHostDown, fenceDown, down, currentGeneration, withFence, hn,
      h.snapshot hn]
  | some i =>
    simp [unregisterNodeForHostDown, unregisterNodeLocked, fenceDown, down, currentGeneration,
      withFence, hn]

theorem unregisterNodeIfGeneration_effect (r : Reporter) (retired : Bool) (g : Nat) :
    NodeEffect r (r.unregisterNodeIfGeneration retired g).2 := by
  unfold unregisterNodeIfGeneration
  dsimp only
  split
  · exact .fenced
  split
  · exact .fenced
  · exact .leaves

/-- The checker unregisters only in the generation it selected. -/
theorem unregisterNodeIfGeneration_ok {retired : Bool} {g : Nat}
    (hok : (r.unregisterNodeIfGeneration retired g).1 = .ok) : r.currentGeneration = g := by
  unfold unregisterNodeIfGeneration at hok
  dsimp only at hok
  split at hok
  · cases hok
  · split at hok
    · cases hok
    · rename_i hg
      simpa using hg

theorem tryPublishSteadyHeartbeat_touch (ht : r.tryPublishSteadyHeartbeat nowMs = some r') :
    Touch r r' ∧ ∃ i, r.node = some i ∧ i.available = true := by
  unfold tryPublishSteadyHeartbeat at ht
  split at ht
  · rename_i f i g hf hi hg
    split at ht
    · rename_i hcond
      obtain rfl := some.inj ht
      simp only [Bool.and_eq_true, decide_eq_true_eq] at hcond
      exact ⟨.node hi fun ha => ha, i, hi, hcond.2⟩
    · cases ht
  · cases ht

theorem heartbeatLocked_effect (r : Reporter) (accepting : Bool) (nowMs : Int) :
    NodeEffect r (r.heartbeatLocked accepting nowMs).2 := by
  unfold heartbeatLocked
  dsimp only
  split
  · exact .fenced
  split
  · split
    · exact .fenced
    · exact .opens _
  · rename_i i hi
    split
    · rename_i ha
      exact .stays hi fun _ => ha
    · exact .opens _

/-- An acknowledged HEARTBEAT found the node available or is a new generation. -/
theorem heartbeatLocked_ok {accepting : Bool} (hok : (r.heartbeatLocked accepting nowMs).1 = .ok) :
    r.currentGeneration < (r.heartbeatLocked accepting nowMs).2.currentGeneration ∨
      ∃ i, r.node = some i ∧ i.available = true := by
  unfold heartbeatLocked at hok ⊢
  dsimp only at hok ⊢
  split at hok
  · cases hok
  · rename_i hacc
    rw [if_neg hacc]
    cases hn : r.node with
    | none =>
      simp only [withFence_node, hn] at hok ⊢
      split at hok
      · cases hok
      · rename_i hgen
        have hgen' : ¬r.generation.isSome = true := hgen
        simp [hgen']
    | some i =>
      simp only [withFence_node, hn]
      cases ha : i.available with
      | true => exact .inr ⟨i, rfl, ha⟩
      | false => simp [ha]

theorem setNodeUnavailable_touch (r : Reporter) (nowMs : Int) :
    Touch r (r.setNodeUnavailable nowMs) := by
  unfold setNodeUnavailable
  split
  · exact .same
  · rename_i i hi
    split
    · exact .node hi nofun
    · exact .same

theorem livenessCheck_touch (r : Reporter) (now fresh timeout grace : Int) :
    Touch r (r.livenessCheck now fresh timeout grace).1 := by
  unfold livenessCheck
  split
  · exact .same
  · rename_i i hi
    split
    · exact .node hi nofun
    · exact .same

theorem NodeEffect.moves (he : NodeEffect r r') (h : r.Good) : Moves r r' := by
  cases he with
  | touch ht => exact ht.moves h
  | fenced => exact moves_withFence h
  | opens info => exact moves_enter_next r info
  | stays hi ha => exact moves_enter_same hi ha
  | leaves =>
    rw [unregisterNodeLocked_fenceDown h.withFence]
    exact moves_down r
  | hostDown =>
    rw [unregisterNodeForHostDown_eq h]
    exact moves_down r

/-- A selected node is unavailable, and selected in its generation. -/
theorem livenessCheck_selected {now fresh timeout grace : Int} {g : Nat}
    (hs : (r.livenessCheck now fresh timeout grace).2 = some g) : g = r.currentGeneration ∧
      ∀ i, (r.livenessCheck now fresh timeout grace).1.node = some i → i.available = false := by
  unfold livenessCheck at hs ⊢
  cases hn : r.node with
  | none => simp [hn] at hs
  | some i =>
    simp only [hn] at hs ⊢
    split at hs
    · rename_i hexp
      rw [if_pos hexp]
      simp only [Option.ite_none_right_eq_some, Option.some.injEq] at hs
      refine ⟨hs.2.symm, fun i' hi' => ?_⟩
      obtain rfl := some.inj hi'
      rfl
    · cases hs

/-! ## Operations on the snapshot state -/

/-- The operations on deltas and snapshots leave node and generation alone. -/
structure Gated (r r' : Reporter) : Prop where
  good : r'.Good
  node : r'.node = r.node
  generation : r'.currentGeneration = r.currentGeneration
  fence : r.fence.isSome = true → r'.fence = r.fence

theorem Gated.refl (h : r.Good) : Gated r r :=
  ⟨h, rfl, rfl, fun _ => rfl⟩

theorem Gated.of_withFence (h : Gated r.withFence r') : Gated r r' where
  good := h.good
  node := h.node
  generation := h.generation
  fence := fun hf => (h.fence rfl).trans (withFence_fence_of_isSome hf)

theorem gated_snapshot (h : r.Good) (hn : r.node ≠ none) (st : Option SnapshotVersionState) :
    Gated r { r with snapshot := st } where
  good := ⟨h.fence, h.unfenced, h.numbered, fun hnone => absurd hnone hn⟩
  node := rfl
  generation := rfl
  fence := fun _ => rfl

theorem Good.node_ne_none (h : r.Good) {st : SnapshotVersionState} (hst : r.snapshot = some st) :
    r.node ≠ none := fun hn => by
  simp [h.snapshot hn] at hst

/-- What an operation on deltas and snapshots can do to the entries: it writes
a snapshot state for a node that is there, as `R` allows. -/
inductive GateEffect (R : SnapshotVersionState → SnapshotVersionState → Prop) (r : Reporter) :
    Reporter → Prop
  | same : GateEffect R r r
  | fenced : GateEffect R r r.withFence
  | state {f : Option LifecycleFence} {g : Option Nat} {st : SnapshotVersionState}
      (hf : f = r.fence ∨ f = r.withFence.fence)
      (hg : g = r.generation ∨ g = some r.currentGeneration)
      (hn : r.snapshot ≠ none ∨ r.node ≠ none) (hst : R (r.snapshot.getD {}) st) :
      GateEffect R r ⟨f, r.node, g, some st⟩

theorem GateEffect.of_some {st st' : SnapshotVersionState} (hst : r.snapshot = some st)
    (h : R st st') : GateEffect R r { r with snapshot := some st' } :=
  .state (.inl rfl) (.inl rfl) (.inl (by simp [hst])) (by rwa [hst])

theorem GateEffect.generation (he : GateEffect R r r') :
    r'.currentGeneration = r.currentGeneration := by
  cases he with
  | same | fenced => rfl
  | state hf hg => rcases hg with rfl | rfl <;> rfl

theorem GateEffect.gated (he : GateEffect R r r') (h : r.Good) : Gated r r' := by
  cases he with
  | same => exact Gated.refl h
  | fenced => exact .of_withFence (Gated.refl h.withFence)
  | state hf hg hn =>
    have hn' : r.node ≠ none := hn.elim (fun hs hn => hs (h.snapshot hn)) id
    have hgen : r.generation = some r.currentGeneration := by
      cases hg : r.generation with
      | none => exact absurd (h.numbered hg) hn'
      | some g => simp [currentGeneration, hg]
    rw [← hgen, or_self] at hg
    subst hg
    rcases hf with rfl | rfl
    · exact gated_snapshot h hn' _
    · exact .of_withFence (gated_snapshot h.withFence hn' _)

theorem GateEffect.snapshot (he : GateEffect R r r') {st : SnapshotVersionState}
    (hst : r.snapshot = some st) :
    r'.snapshot = some st ∨ ∃ st', r'.snapshot = some st' ∧ R st st' := by
  cases he with
  | same | fenced => exact .inl hst
  | state _ _ _ h => exact .inr ⟨_, rfl, by simpa [hst] using h⟩

theorem beginDeltaMutation_gate (r : Reporter) (accepting named : Bool) (token : String) :
    GateEffect Drifts r (r.beginDeltaMutation accepting named token).2.1 := by
  unfold beginDeltaMutation
  dsimp only
  split
  · exact .same
  split
  · exact .same
  split
  · exact .same
  split
  · exact .same
  rename_i hempty
  have hn : r.snapshot ≠ none ∨ r.node ≠ none := by
    by_contra hno
    simp only [not_or, not_not] at hno
    simp [hno] at hempty
  split
  · rename_i hc
    split
    · exact .state (.inl rfl) (.inl rfl) hn ⟨rfl, id, .inl rfl, fun hne => absurd hc hne⟩
    · exact .state (.inl rfl) (.inr rfl) hn ⟨rfl, id, .inl rfl, fun hne => absurd hc hne⟩
  · split
    · exact .state (.inl rfl) (.inl rfl) hn (.refl _)
    · exact .state (.inl rfl) (.inr rfl) hn ⟨rfl, id, .inl rfl, fun _ => .inl rfl⟩

theorem endDeltaMutation_gate (r : Reporter) (version : String) :
    GateEffect Drifts r (r.endDeltaMutation version) := by
  unfold endDeltaMutation
  cases hst : r.snapshot with
  | none => exact .same
  | some st =>
    dsimp only
    split
    · exact .same
    split
    · exact .same
    · exact .of_some hst ⟨rfl, id, .inl rfl, fun _ => .inl rfl⟩

theorem beginSnapshot_gate (r : Reporter) (accepting named : Bool) (nowMs minInterval : Int)
    (token : String) :
    GateEffect (Begins token) r (r.beginSnapshot accepting named nowMs minInterval token).2.1 := by
  unfold beginSnapshot
  dsimp only
  split
  · exact .same
  split
  · exact .fenced
  split
  · exact .fenced
  rename_i hreg
  have hn : r.node ≠ none := by
    intro hn
    simp [hn] at hreg
  split
  · exact .state (.inr rfl) (.inl rfl) (.inr hn) (.inl rfl)
  split
  · exact .state (.inr rfl) (.inl rfl) (.inr hn) (.inl rfl)
  · exact .state (.inr rfl) (.inl rfl) (.inr hn) (.inr rfl)

theorem dropCandidate_gate (r : Reporter) (candidate : String) :
    GateEffect Drifts r (r.dropCandidate candidate) := by
  unfold dropCandidate
  cases hst : r.snapshot with
  | none => exact .same
  | some st =>
    dsimp only
    split
    · exact .of_some hst ⟨rfl, id, .inr rfl, fun _ => .inl rfl⟩
    · exact .same

theorem finishBeginSnapshot_gate (r : Reporter) (accepting : Bool) (candidate : String) :
    GateEffect Drifts r (r.finishBeginSnapshot accepting candidate).2 := by
  unfold finishBeginSnapshot
  split
  · exact r.dropCandidate_gate candidate
  split
  · exact r.dropCandidate_gate candidate
  split
  · exact .same
  · split
    · exact .same
    · exact .same

theorem commitSnapshotVersion_gate (r : Reporter) (version : String) (nowMs : Int) :
    GateEffect Drifts r (r.commitSnapshotVersion version nowMs).2 := by
  unfold commitSnapshotVersion
  split
  · exact .same
  rename_i hvalid
  cases hst : r.snapshot with
  | none => exact .same
  | some st =>
    dsimp only
    split
    · exact .same
    · rename_i hflight
      obtain rfl := not_not.mp hflight
      refine .of_some hst ⟨rfl, fun _ => rfl, .inr rfl, fun _ => .inr ⟨rfl, fun hempty => ?_⟩⟩
      rw [hempty] at hvalid
      exact hvalid rfl

theorem commitSnapshotVersionIfGeneration_gate (r : Reporter) (accepting : Bool)
    (version : String) (g : Nat) (nowMs : Int) :
    GateEffect Drifts r (r.commitSnapshotVersionIfGeneration accepting version g nowMs).2 := by
  unfold commitSnapshotVersionIfGeneration
  split
  · exact .same
  split
  · exact .same
  split
  · exact .same
  · exact r.commitSnapshotVersion_gate version nowMs

theorem abortSnapshotVersion_gate (r : Reporter) (named : Bool) (version : String) :
    GateEffect Aborts r (r.abortSnapshotVersion named version) := by
  unfold abortSnapshotVersion
  split
  · exact .same
  cases hst : r.snapshot with
  | none => exact .same
  | some st =>
    dsimp only
    split
    · exact .of_some hst rfl
    · exact .same

/-- What both kinds of operation have in common. -/
structure Advances (r r' : Reporter) : Prop where
  good : r'.Good
  le : r.currentGeneration ≤ r'.currentGeneration
  revived : r.currentGeneration = r'.currentGeneration →
    ∀ i', r'.node = some i' → i'.available = true → ∃ i, r.node = some i ∧ i.available = true

theorem Moves.advances (h : Moves r r') : Advances r r' :=
  { h with }

theorem Gated.advances (h : Gated r r') : Advances r r' where
  good := h.good
  le := Nat.le_of_eq h.generation.symm
  revived := fun _ i hi ha => ⟨i, h.node ▸ hi, ha⟩

end Reporter

open Reporter

/-! ## A round of the liveness checker -/

namespace EventReportBackend

def checked (b : EventReportBackend) (nowMs freshNowMs : Int) (r : Reporter) :
    Reporter × Option Nat :=
  r.livenessCheck nowMs freshNowMs b.heartbeatTimeoutMs b.cleanupGraceMs

/-- The round, over the part `l` of the table that is left. -/
theorem livenessScan_fold (now fresh : Int)
    (l : List (Sigma fun _ : ReporterSnapshotKey => Reporter)) (hl : l.NodupKeys)
    (b : EventReportBackend) (found : List (ReporterSnapshotKey × Nat)) : ∃ b' found',
      l.foldl (fun (b, selected) e =>
        let (r, sel) := (b.reporter e.1).livenessCheck now fresh
          b.heartbeatTimeoutMs b.cleanupGraceMs
        (b.setReporter e.1 r, selected ++ (sel.map fun g => (e.1, g)).toList)) (b, found)
        = (b', found') ∧
      b'.retired = b.retired ∧ b'.type = b.type ∧
      (∀ key, b'.reporter key =
        if key ∈ l.keys then (b.checked now fresh (b.reporter key)).1 else b.reporter key) ∧
      ∀ e ∈ found', e ∈ found ∨
        e.1 ∈ l.keys ∧ (b.checked now fresh (b.reporter e.1)).2 = some e.2 := by
  induction l generalizing b found with
  | nil => exact ⟨b, found, rfl, rfl, rfl, by simp, fun e he => .inl he⟩
  | cons e l ih =>
    obtain ⟨hnot, hl'⟩ := nodupKeys_cons.mp hl
    obtain ⟨b', found', hfold, hret, htype, hrep, hfound⟩ := ih hl'
      (b.setReporter e.1 (b.checked now fresh (b.reporter e.1)).1)
      (found ++ ((b.checked now fresh (b.reporter e.1)).2.map fun g => (e.1, g)).toList)
    refine ⟨b', found', hfold, hret, htype, fun key => ?_, fun x hx => ?_⟩
    · rw [hrep key]
      rcases eq_or_ne key e.1 with rfl | hkey
      · simp [hnot]
      · rw [reporter_setReporter_ne _ _ hkey]
        simp only [keys_cons, mem_cons, hkey, false_or]
        rfl
    · rcases hfound x hx with hx | ⟨hmem, hx⟩
      · rcases mem_append.mp hx with hx | hx
        · exact .inl hx
        · obtain ⟨g, hg, rfl⟩ : ∃ g, (b.checked now fresh (b.reporter e.1)).2 = some g ∧
              (e.1, g) = x := by simpa using hx
          exact .inr ⟨by simp, hg⟩
      · have hkey : x.1 ≠ e.1 := fun heq => hnot (heq ▸ hmem)
        rw [reporter_setReporter_ne _ _ hkey] at hx
        exact .inr ⟨by simp [hmem], hx⟩

/-- Every reporter is checked, those without entries in vain. -/
theorem livenessScan_spec (b : EventReportBackend) (now fresh : Int) :
    (b.livenessScan now fresh).1.retired = b.retired ∧
      (b.livenessScan now fresh).1.type = b.type ∧
      (∀ key, (b.livenessScan now fresh).1.reporter key
        = (b.checked now fresh (b.reporter key)).1) ∧
      ∀ e ∈ (b.livenessScan now fresh).2,
        (b.checked now fresh (b.reporter e.1)).2 = some e.2 := by
  obtain ⟨b', found', hfold, hret, htype, hrep, hfound⟩ :=
    livenessScan_fold now fresh b.reporters.entries b.reporters.nodupKeys b []
  have hscan : b.livenessScan now fresh = (b', found') := hfold
  rw [hscan]
  refine ⟨hret, htype, fun key => ?_, fun e he => ?_⟩
  · show b'.reporter key = _
    rw [hrep key]
    split
    · rfl
    · rename_i hkey
      have hnone : b.reporter key = {} := by
        have : b.reporters.lookup key = none := AList.lookup_eq_none.mpr hkey
        simp [reporter, this]
      rw [hnone]
      rfl
  · rcases hfound e he with he | ⟨-, he⟩
    · cases he
    · exact he

end EventReportBackend

/-! ## Lifecycle steps of the system -/

/-- The actions that work on nodes, fences and leases only. -/
def Action.lifecycle : Action → Bool
  | .register .. | .ensureKnown .. | .ensureCreated .. | .unregister .. | .hostDown ..
  | .heartbeatSteady .. | .heartbeatLocked .. | .setNodeUnavailable .. | .livenessScan ..
  | .livenessUnregister .. | .acquireCleanup .. | .releaseCleanup .. | .retire => true
  | _ => false

/-- What the other actions can make of a snapshot state. -/
def Action.gateRel : Action → SnapshotVersionState → SnapshotVersionState → Prop
  | .beginSnapshot _ _ token => Begins token
  | .abort _ => Aborts
  | _ => Drifts

namespace System

def AllGood (s : System) : Prop := ∀ key, (s.reporter key).Good

theorem mem_of_mem_ite_erase {α : Type} [DecidableEq α] {l : List α} {x y : α} {p : Prop}
    [Decidable p] (h : y ∈ if p then l.erase x else l) : y ∈ l := by
  split at h
  · exact mem_of_mem_erase h
  · exact h

/-- A step that changes one reporter, for a relation that holds of no change. -/
theorem put_rel {R : ReporterSnapshotKey → Reporter → Reporter → Prop}
    (hrefl : ∀ k, R k (s.reporter k) (s.reporter k)) (h : R key (s.reporter key) r)
    (k : ReporterSnapshotKey) : R k (s.reporter k) ((s.put key r).reporter k) := by
  rcases eq_or_ne k key with rfl | hk
  · rwa [reporter_put_self]
  · rw [reporter_put_ne _ _ hk]
    exact hrefl k

/-- What such a step does: every reporter moves, a leased one stays in its
generation, and no admission or attempt is touched. -/
structure Lifecycle (s s' : System) : Prop where
  moves : ∀ key, Moves (s.reporter key) (s'.reporter key)
  pinned : ∀ key, s.leased key = true → Pinned (s.reporter key) (s'.reporter key)
  era : ∀ key g, s'.era key g =
    if g = (s'.reporter key).currentGeneration ∧ (s.reporter key).currentGeneration < g
    then s.eraOf key (s'.reporter key) else s.era key g
  deltas : s'.deltas = s.deltas
  attempts : s'.attempts = s.attempts
  issued : s'.issued = s.issued
  writes : s'.writes = s.writes
  type : s'.backend.type = s.backend.type
  retired : s.backend.retired = true → s'.backend.retired = true
  closed : s.backend.retired = true → ∀ key,
    (s'.reporter key).currentGeneration = (s.reporter key).currentGeneration

theorem Lifecycle.put (hgood : s.AllGood) (hm : Moves (s.reporter key) r)
    (hp : s.leased key = false ∨ Pinned (s.reporter key) r)
    (hc : s.backend.retired = true → r.currentGeneration = (s.reporter key).currentGeneration) :
    Lifecycle s (s.put key r) where
  moves := put_rel (R := fun _ => Moves) (fun k => Moves.refl (hgood k)) hm
  pinned := put_rel (R := fun k r r' => s.leased k = true → Pinned r r')
    (fun _ _ => Pinned.refl _) fun hl => hp.resolve_left (by simp [hl])
  era := fun k g => by
    rcases eq_or_ne k key with rfl | hk
    · rw [reporter_put_self]
      simp [System.put]
    · rw [reporter_put_ne _ _ hk]
      have hno : ¬(g = (s.reporter k).currentGeneration ∧ (s.reporter k).currentGeneration < g) := by
        omega
      rw [if_neg hno]
      simp [System.put, hk]
  deltas := rfl
  attempts := rfl
  issued := rfl
  writes := rfl
  type := rfl
  retired := fun h => h
  closed := fun hret =>
    put_rel (R := fun _ r r' => r'.currentGeneration = r.currentGeneration) (fun _ => rfl) (hc hret)

theorem Lifecycle.touch (hgood : s.AllGood) (ht : Touch (s.reporter key) r) :
    Lifecycle s (s.put key r) :=
  Lifecycle.put hgood (ht.moves (hgood key)) (.inr ht.pinned) fun _ => ht.pinned.currentGeneration

/-- The history of acknowledgements is not looked at. -/
theorem Lifecycle.acknowledge (h : Lifecycle s s') (key : ReporterSnapshotKey) (ec : ErrorCode) :
    Lifecycle s (s'.acknowledge key ec) := by
  unfold System.acknowledge
  split
  · exact { h with }
  · exact h

theorem Lifecycle.of_reporter_eq (hgood : s.AllGood)
    (hr : ∀ key, s'.reporter key = s.reporter key) (hera : s'.era = s.era)
    (hd : s'.deltas = s.deltas) (ha : s'.attempts = s.attempts) (hi : s'.issued = s.issued)
    (hw : s'.writes = s.writes) (ht : s'.backend.type = s.backend.type)
    (hret : s.backend.retired = true → s'.backend.retired = true) : Lifecycle s s' where
  moves := fun key => by
    rw [hr key]
    exact Moves.refl (hgood key)
  pinned := fun key _ => by
    rw [hr key]
    exact Pinned.refl _
  era := fun key g => by
    rw [hr key, hera, if_neg (by omega)]
  deltas := hd
  attempts := ha
  issued := hi
  writes := hw
  type := ht
  retired := hret
  closed := fun _ key => by rw [hr key]

theorem moves_acquireMaintenanceCleanupLease {b : EventReportBackend}
    {token : MaintenanceCleanupToken} (h : (b.reporter token.reporterKey).Good) (nowMs : Int) :
    Moves (b.reporter token.reporterKey) (b.acquireMaintenanceCleanupLease token nowMs).2 ∧
      Pinned (b.reporter token.reporterKey) (b.acquireMaintenanceCleanupLease token nowMs).2 := by
  unfold acquireMaintenanceCleanupLease
  dsimp only
  split
  · exact ⟨Moves.refl h, Pinned.refl _⟩
  split
  · exact ⟨Moves.refl h, Pinned.refl _⟩
  · exact ⟨Moves.refl h, Pinned.refl _⟩
  split
  · exact ⟨Moves.refl h, Pinned.refl _⟩
  split
  · exact ⟨moves_withFence h, pinned_withFence _⟩
  · exact ⟨moves_withFence h, pinned_withFence _⟩

theorem Lifecycle.livenessScan (hgood : s.AllGood) (now fresh : Int)
    (selected : List Expired) : Lifecycle s
      { s with backend := (s.backend.livenessScan now fresh).1, selected := selected } := by
  obtain ⟨hret, htype, hrep, -⟩ := s.backend.livenessScan_spec now fresh
  have hmoves : ∀ key, Moves (s.reporter key) ((s.backend.livenessScan now fresh).1.reporter key) ∧
      Pinned (s.reporter key) ((s.backend.livenessScan now fresh).1.reporter key) := fun key => by
    rw [hrep key]
    exact ⟨(livenessCheck_touch ..).moves (hgood key), (livenessCheck_touch ..).pinned⟩
  have hgen : ∀ key, ((s.backend.livenessScan now fresh).1.reporter key).currentGeneration
      = (s.reporter key).currentGeneration := fun key => (hmoves key).2.currentGeneration
  refine ⟨fun key => (hmoves key).1, fun key _ => (hmoves key).2, fun key g => ?_,
    rfl, rfl, rfl, rfl, htype, fun h => hret.trans h, fun _ key => hgen key⟩
  refine (if_neg ?_).symm
  rintro ⟨rfl, hlt⟩
  exact absurd (hgen key) (Nat.ne_of_gt hlt)

theorem accepting_of_retired (h : s.backend.retired = true) : s.accepting = false := by
  simp [accepting, acceptingReports, h]

theorem lifecycle_of_step (hgood : s.AllGood) (ha : a.lifecycle = true)
    (h : s.step a = some s') : Lifecycle s s' := by
  cases a with
  | register key mediums nowMs =>
    obtain ⟨hl, rfl⟩ := of_guard h
    refine (Lifecycle.put hgood ((registerNode_effect ..).moves (hgood key))
      (.inl (by simpa using hl)) fun hret => ?_).acknowledge key _
    rw [accepting_of_retired hret]
    exact registerNode_rejected _ _ _ _
  | ensureKnown key mediums =>
    obtain ⟨-, h⟩ := Option.ite_none_left_eq_some.mp h
    obtain ⟨r, hr, rfl⟩ := Option.map_eq_some_iff.mp h
    exact Lifecycle.touch hgood (ensureKnown_touch hr)
  | ensureCreated key mediums nowMs =>
    obtain ⟨hl, rfl⟩ := of_guard h
    simp only [Bool.or_eq_true, not_or, Bool.not_eq_true] at hl
    refine Lifecycle.put hgood ((ensureCreated_effect ..).moves (hgood key)) (.inl hl.1) fun hret => ?_
    rw [accepting_of_retired hret]
    rfl
  | unregister key =>
    obtain ⟨hl, rfl⟩ := of_guard h
    refine Lifecycle.put hgood ((unregisterNode_effect ..).moves (hgood key))
      (.inl (by simpa using hl)) fun hret => ?_
    rw [hret]
    rfl
  | hostDown key =>
    obtain ⟨hl, rfl⟩ := of_guard h
    refine Lifecycle.put hgood ((unregisterNodeForHostDown_effect ..).moves (hgood key))
      (.inl (by simpa using hl)) fun hret => ?_
    rw [accepting_of_retired hret]
    rfl
  | heartbeatSteady key nowMs =>
    obtain ⟨-, h⟩ := Option.ite_none_left_eq_some.mp h
    obtain ⟨r, hr, rfl⟩ := Option.map_eq_some_iff.mp h
    exact (Lifecycle.touch hgood (tryPublishSteadyHeartbeat_touch hr).1).acknowledge key _
  | heartbeatLocked key nowMs =>
    obtain ⟨hl, rfl⟩ := of_guard h
    simp only [Bool.or_eq_true, not_or, Bool.not_eq_true] at hl
    refine (Lifecycle.put hgood ((heartbeatLocked_effect ..).moves (hgood key))
      (.inl hl.1) fun hret => ?_).acknowledge key _
    rw [accepting_of_retired hret]
    rfl
  | setNodeUnavailable key nowMs =>
    obtain rfl := some.inj h
    exact Lifecycle.touch hgood (setNodeUnavailable_touch _ nowMs)
  | livenessScan now fresh =>
    obtain rfl := some.inj h
    exact Lifecycle.livenessScan hgood now fresh _
  | livenessUnregister e =>
    obtain ⟨-, hl, out, rfl, rfl⟩ := step_livenessUnregister h
    have hput := Lifecycle.put hgood
      ((unregisterNodeIfGeneration_effect _ s.backend.retired e.generation).moves (hgood e.key))
      (.inl hl) fun hret => by
        rw [hret]
        rfl
    exact ⟨hput.moves, hput.pinned, hput.era, rfl, rfl, rfl, rfl, rfl, hput.retired, hput.closed⟩
  | acquireCleanup id token nowMs =>
    obtain ⟨-, out, rfl, rfl⟩ := step_acquireCleanup h
    obtain ⟨hm, hp⟩ := moves_acquireMaintenanceCleanupLease (hgood token.reporterKey) nowMs
    have hput := Lifecycle.put hgood hm (.inr hp) fun _ => hp.currentGeneration
    exact ⟨hput.moves, hput.pinned, hput.era, rfl, rfl, rfl, rfl, rfl, hput.retired, hput.closed⟩
  | releaseCleanup l =>
    obtain ⟨-, rfl⟩ := of_guard h
    exact Lifecycle.of_reporter_eq hgood (fun _ => rfl) rfl rfl rfl rfl rfl rfl (fun h => h)
  | retire =>
    obtain rfl := some.inj h
    exact Lifecycle.of_reporter_eq hgood (fun _ => rfl) rfl rfl rfl rfl rfl rfl (fun _ => rfl)
  | _ => cases ha

/-! ## Gate steps of the system -/

/-- Where an admission comes from that is there after such a step. -/
inductive DeltaOrigin (s : System) : Action → Delta → Prop
  | kept {a d} (hd : d ∈ s.deltas) : DeltaOrigin s a d
  | admitted {key token out}
      (hout : out = (s.reporter key).beginDeltaMutation s.accepting (namedReporter key) token)
      (hok : out.1 = .ok) : DeltaOrigin s (.beginDelta key token)
        { key, version := out.2.2.1, generation := out.2.2.2, admittedAt := out.2.2.2 }
  | adopted {d} (hd : d ∈ s.deltas) (hidle : d.writing = false) :
      DeltaOrigin s (.adopt d) { d with generation := (s.reporter d.key).currentGeneration }
  | leased {d} (hd : d ∈ s.deltas)
      (hok : (s.reporter d.key).acquireLifecycleMutationLease s.accepting d.generation = .ok) :
      DeltaOrigin s (.acquireWrite d) { d with writing := true }
  | released {d} (hd : d ∈ s.deltas) : DeltaOrigin s (.releaseWrite d) { d with writing := false }

/-- What the other steps, those on deltas and snapshots, do and leave alone. -/
structure GateStep (a : Action) (s s' : System) : Prop where
  effect : ∀ key, GateEffect a.gateRel (s.reporter key) (s'.reporter key)
  gated : ∀ key, Gated (s.reporter key) (s'.reporter key)
  deltas : ∀ d ∈ s'.deltas, DeltaOrigin s a d
  attempts : ∀ x ∈ s'.attempts, x.admitted = true → x ∈ s.attempts ∨
    ∃ y : Attempt, ((s.reporter y.key).finishBeginSnapshot s.accepting y.version).1 = .ok
  era : s'.era = s.era
  type : s'.backend.type = s.backend.type
  retired : s'.backend.retired = s.backend.retired
  cleanups : s'.cleanups = s.cleanups
  selected : s'.selected = s.selected
  unregistered : s'.unregistered = s.unregistered
  writes : s'.writes = s.writes ∨ ∃ d ∈ s.deltas, d.writing = true ∧
    s'.writes = s.writeOf d :: s.writes

theorem GateStep.put (hgood : s.AllGood) {deltas : List Delta} {attempts : List Attempt}
    {issued : List String} (hd : ∀ d ∈ deltas, DeltaOrigin s a d)
    (he : GateEffect a.gateRel (s.reporter key) r)
    (ha : ∀ x ∈ attempts, x.admitted = true → x ∈ s.attempts ∨
      ∃ y : Attempt, ((s.reporter y.key).finishBeginSnapshot s.accepting y.version).1 = .ok) :
    GateStep a s { s.put key r with deltas := deltas, attempts := attempts, issued := issued } where
  effect := put_rel (R := fun _ => GateEffect a.gateRel) (fun _ => .same) he
  gated := put_rel (R := fun _ => Gated) (fun k => .refl (hgood k)) (he.gated (hgood key))
  deltas := hd
  attempts := ha
  era := put_era_of_eq s key he.generation
  type := rfl
  retired := rfl
  cleanups := rfl
  selected := rfl
  unregistered := rfl
  writes := .inl rfl

theorem GateStep.request (hgood : s.AllGood) {deltas : List Delta} {writes : List Write}
    (hd : ∀ d ∈ deltas, DeltaOrigin s a d)
    (hw : writes = s.writes ∨ ∃ d ∈ s.deltas, d.writing = true ∧ writes = s.writeOf d :: s.writes) :
    GateStep a s { s with deltas := deltas, writes := writes } where
  effect := fun _ => .same
  gated := fun key => .refl (hgood key)
  deltas := hd
  attempts := fun _ hx _ => .inl hx
  era := rfl
  type := rfl
  retired := rfl
  cleanups := rfl
  selected := rfl
  unregistered := rfl
  writes := hw

theorem gateStep_of_step (hgood : s.AllGood) (ha : a.lifecycle = false)
    (hc : a ≠ .clear) (h : s.step a = some s') : GateStep a s s' := by
  have hkept : ∀ d ∈ s.deltas, DeltaOrigin s a d := fun d hd => .kept hd
  have hset : ∀ {d d' : Delta}, DeltaOrigin s a d' →
      ∀ x ∈ d' :: s.deltas.erase d, DeltaOrigin s a x := fun hnew =>
    forall_mem_cons.mpr ⟨hnew, fun x hx => .kept (mem_of_mem_erase hx)⟩
  cases a with
  | beginDelta key token =>
    obtain ⟨-, out, hout, rfl⟩ := step_beginDelta h
    refine GateStep.put hgood ?_ (hout ▸ beginDeltaMutation_gate ..) fun _ hx _ => .inl hx
    split
    · rename_i hok
      exact forall_mem_cons.mpr ⟨.admitted hout hok, hkept⟩
    · exact hkept
  | endDelta d =>
    obtain ⟨-, -, rfl⟩ := step_endDelta h
    exact GateStep.put hgood (fun x hx => hkept x (mem_of_mem_erase hx))
      (endDeltaMutation_gate ..) fun _ hx _ => .inl hx
  | adopt d =>
    obtain ⟨hd, hidle, rfl⟩ := step_adopt h
    exact GateStep.request hgood (hset (.adopted hd hidle)) (.inl rfl)
  | acquireWrite d =>
    obtain ⟨hd, -, hok, rfl⟩ := step_acquireWrite h
    exact GateStep.request hgood (hset (.leased hd hok)) (.inl rfl)
  | write d =>
    obtain ⟨hd, hw, rfl⟩ := step_write h
    exact GateStep.request hgood hkept (.inr ⟨d, hd, hw, rfl⟩)
  | releaseWrite d =>
    obtain ⟨hd, -, rfl⟩ := step_releaseWrite h
    exact GateStep.request hgood (hset (.released hd)) (.inl rfl)
  | beginSnapshot key nowMs token =>
    obtain ⟨-, -, out, rfl, rfl⟩ := step_beginSnapshot h
    refine GateStep.put hgood hkept (beginSnapshot_gate ..) ?_
    split
    · exact forall_mem_cons.mpr ⟨nofun, fun _ hx _ => .inl hx⟩
    · exact fun _ hx _ => .inl hx
  | finishSnapshot x timedOut =>
    obtain ⟨-, -, out, rfl, rfl⟩ := step_finishSnapshot h
    refine GateStep.put hgood hkept (finishBeginSnapshot_gate ..) ?_
    split
    · rename_i hok
      exact fun _ _ _ => .inr ⟨x, hok⟩
    · exact fun _ hx _ => .inl (mem_of_mem_erase hx)
  | commit x nowMs =>
    obtain ⟨-, -, out, rfl, rfl⟩ := step_commit h
    exact GateStep.put hgood hkept (commitSnapshotVersion_gate ..)
      fun _ hx _ => .inl (mem_of_mem_ite_erase hx)
  | commitIfGeneration x g nowMs =>
    obtain ⟨-, -, out, rfl, rfl⟩ := step_commitIfGeneration h
    exact GateStep.put hgood hkept (commitSnapshotVersionIfGeneration_gate ..)
      fun _ hx _ => .inl (mem_of_mem_ite_erase hx)
  | abort x =>
    obtain ⟨-, -, -, rfl⟩ := step_abort h
    exact GateStep.put hgood hkept (abortSnapshotVersion_gate ..)
      fun _ hx _ => .inl (mem_of_mem_erase hx)
  | clear => exact absurd rfl hc
  | _ => cases ha

/-- The end of `Close`, a step of the lifecycle or one of the gates. -/
theorem step_kind (hgood : s.AllGood) (h : s.step a = some s') :
    a = .clear ∨ Lifecycle s s' ∨ GateStep a s s' := by
  by_cases hc : a = .clear
  · exact .inl hc
  cases ha : a.lifecycle with
  | true => exact .inr (.inl (lifecycle_of_step hgood ha h))
  | false => exact .inr (.inr (gateStep_of_step hgood ha hc h))

/-- Every step but the end of `Close` keeps the fences in agreement and the
generations rising. -/
theorem advances_of_step (hgood : s.AllGood) (hc : a ≠ .clear)
    (h : s.step a = some s') (key : ReporterSnapshotKey) :
    Advances (s.reporter key) (s'.reporter key) := by
  rcases step_kind hgood h with rfl | hlife | hgate
  · exact absurd rfl hc
  · exact (hlife.moves key).advances
  · exact (hgate.gated key).advances

theorem good_step (hgood : s.AllGood) (h : s.step a = some s') : s'.AllGood := by
  intro key
  rcases eq_or_ne a .clear with rfl | hc
  · obtain ⟨-, -, -, rfl⟩ := step_clear h
    rw [reporter_cleared]
    exact Good.empty
  · exact (advances_of_step hgood hc h key).good

/-! ## The checker's selections -/

/-- What is known of a selected entry as long as the generation is the
selected one: nothing was acknowledged, and the node is unavailable. -/
structure Standing (r : Reporter) (e : Expired) : Prop where
  le : e.generation ≤ r.currentGeneration
  silent : e.generation = r.currentGeneration → e.acked = false
  unavailable : e.generation = r.currentGeneration → ∀ i, r.node = some i → i.available = false

theorem Standing.advance {e : Expired} (h : Standing r e) (ha : Advances r r') : Standing r' e where
  le := h.le.trans ha.le
  silent := fun heq => h.silent (Nat.le_antisymm h.le (heq ▸ ha.le))
  unavailable := fun heq i' hi' => by
    have hr : e.generation = r.currentGeneration := Nat.le_antisymm h.le (heq ▸ ha.le)
    by_contra hav
    obtain ⟨i, hi, hi_av⟩ := ha.revived (hr.symm.trans heq) i' hi' (by simpa using hav)
    simp [h.unavailable hr i hi] at hi_av

/-- An acknowledgement that advances the generation, or finds the node
available, leaves the entry behind. -/
theorem Standing.acked {e : Expired} (h : Standing r e) (ha : Advances r r')
    (hack : r.currentGeneration < r'.currentGeneration ∨ ∃ i, r.node = some i ∧ i.available = true)
    (b : Bool) : Standing r' { e with acked := b } := by
  have hlt : e.generation < r'.currentGeneration := by
    rcases hack with hlt | ⟨i, hi, hav⟩
    · exact h.le.trans_lt hlt
    · rcases Nat.lt_or_eq_of_le h.le with hlt | heq
      · exact hlt.trans_le ha.le
      · simp [h.unavailable heq i hi] at hav
  exact ⟨hlt.le, fun heq => absurd heq (Nat.ne_of_lt hlt),
    fun heq => absurd heq (Nat.ne_of_lt hlt)⟩

structure Watched (s : System) : Prop where
  good : s.AllGood
  selected : ∀ e ∈ s.selected, Standing (s.reporter e.key) e
  unregistered : ∀ e ∈ s.unregistered, e.acked = false

/-- A step that selects nothing new and acknowledges nothing. -/
theorem Watched.of_advances (h : s.Watched)
    (ha : ∀ key, Advances (s.reporter key) (s'.reporter key))
    (hs : ∀ e ∈ s'.selected, e ∈ s.selected) (hu : ∀ e ∈ s'.unregistered, e.acked = false) :
    s'.Watched where
  good := fun key => (ha key).good
  selected := fun e he => (h.selected e (hs e he)).advance (ha e.key)
  unregistered := hu

/-- A step that answers a REGISTER or HEARTBEAT of `key`. -/
theorem Watched.acknowledge (h : s.Watched) {ec : ErrorCode}
    (hadv : ∀ k, Advances (s.reporter k) ((s.put key r).reporter k))
    (hack : ec = .ok → (s.reporter key).currentGeneration < r.currentGeneration ∨ ∃ i,
      (s.reporter key).node = some i ∧ i.available = true) :
    ((s.put key r).acknowledge key ec).Watched := by
  by_cases hec : ec = .ok
  · refine ⟨fun k => ?_, fun e he => ?_, fun e he => ?_⟩
    · rw [acknowledge_reporter]
      exact (hadv k).good
    · rw [acknowledge_reporter]
      simp only [System.acknowledge, hec, if_true, put_selected, mem_map] at he
      obtain ⟨e, he, rfl⟩ := he
      by_cases hkey : e.key = key
      · simp only [hkey, if_true]
        subst hkey
        refine (h.selected e he).acked (hadv e.key) ?_ true
        rw [reporter_put_self]
        exact hack hec
      · simp only [hkey, if_false]
        exact (h.selected e he).advance (hadv e.key)
    · simp only [System.acknowledge, hec, if_true] at he
      exact h.unregistered e he
  · rw [acknowledge_of_ne hec]
    exact h.of_advances hadv (fun e he => he) h.unregistered

theorem Watched.step (hw : s.Watched) (hc : a ≠ .clear) (h : s.step a = some s') : s'.Watched := by
  have hadv := advances_of_step hw.good hc h
  cases a with
  | register key mediums nowMs =>
    simp only [System.step, ite_none_left_eq_some, Option.some.injEq] at h
    obtain ⟨-, rfl⟩ := h
    simp only [acknowledge_reporter] at hadv
    exact hw.acknowledge hadv fun hok => .inl (by simp [registerNode_ok hok])
  | heartbeatSteady key nowMs =>
    simp only [System.step, ite_none_left_eq_some, Option.map_eq_some_iff] at h
    obtain ⟨-, r, hr, rfl⟩ := h
    simp only [acknowledge_reporter] at hadv
    obtain ⟨-, hav⟩ := tryPublishSteadyHeartbeat_touch hr
    exact hw.acknowledge hadv fun _ => .inr hav
  | heartbeatLocked key nowMs =>
    simp only [System.step, ite_none_left_eq_some, Option.some.injEq] at h
    obtain ⟨-, rfl⟩ := h
    simp only [acknowledge_reporter] at hadv
    exact hw.acknowledge hadv fun hok => heartbeatLocked_ok hok
  | livenessScan now fresh =>
    obtain rfl := some.inj h
    refine ⟨fun key => (hadv key).good, fun e he => ?_, hw.unregistered⟩
    rcases mem_append.mp he with he | he
    · exact (hw.selected e he).advance (hadv e.key)
    · obtain ⟨x, hx, rfl⟩ := mem_map.mp he
      obtain ⟨-, -, hrep, hfound⟩ := s.backend.livenessScan_spec now fresh
      obtain ⟨hgen, hun⟩ := livenessCheck_selected (hfound x hx)
      have hpin := (livenessCheck_touch (s.reporter x.1) now fresh s.backend.heartbeatTimeoutMs
        s.backend.cleanupGraceMs).pinned.generation
      refine ⟨?_, fun _ => rfl, fun _ i hi => hun i ?_⟩
      · show x.2 ≤ ((s.backend.livenessScan now fresh).1.reporter x.1).currentGeneration
        rw [hgen, hrep x.1]
        exact Nat.le_of_eq (congrArg (·.getD 0) hpin.symm)
      · rw [← hi]
        exact congrArg Reporter.node (hrep x.1).symm
  | livenessUnregister e =>
    obtain ⟨hsel, -, out, rfl, rfl⟩ := step_livenessUnregister h
    refine hw.of_advances hadv (fun x hx => mem_of_mem_erase hx) (fun x hx => ?_)
    dsimp only at hx
    split at hx
    · rename_i hok
      rcases mem_cons.mp hx with rfl | hx
      · exact (hw.selected x hsel).silent (unregisterNodeIfGeneration_ok hok).symm
      · exact hw.unregistered x hx
    · exact hw.unregistered x hx
  | ensureKnown key mediums =>
    simp only [System.step, ite_none_left_eq_some, Option.map_eq_some_iff] at h
    obtain ⟨-, r, -, rfl⟩ := h
    exact hw.of_advances hadv (fun e he => he) hw.unregistered
  | ensureCreated key mediums nowMs | unregister key | hostDown key | releaseCleanup l =>
    obtain ⟨-, rfl⟩ := of_guard h
    exact hw.of_advances hadv (fun e he => he) hw.unregistered
  | setNodeUnavailable key nowMs | retire =>
    obtain rfl := some.inj h
    exact hw.of_advances hadv (fun e he => he) hw.unregistered
  | acquireCleanup id token nowMs =>
    obtain ⟨-, out, -, rfl⟩ := step_acquireCleanup h
    exact hw.of_advances hadv (fun e he => he) hw.unregistered
  | clear => exact absurd rfl hc
  | beginDelta | endDelta | adopt | acquireWrite | write | releaseWrite | beginSnapshot
  | finishSnapshot | commit | commitIfGeneration | abort =>
    have hg := gateStep_of_step hw.good rfl hc h
    exact hw.of_advances hadv (fun e he => hg.selected ▸ he)
      (fun e he => hw.unregistered e (hg.unregistered ▸ he))

end System

/-! ## Every run -/

/-- Runs of one incarnation of the backend: `Close` does not get to the point
where it throws the tables away. -/
def NotCleared (_ : System) (a : Action) : Prop := a ≠ .clear

theorem watched_of_reach (h : eventReports.Reach NotCleared s) : s.Watched := by
  refine h.inv (P := System.Watched) (fun s hs => ?_) (fun s a s' hw hok hstep => hw.step hok hstep)
  obtain ⟨b, hb, rfl⟩ := hs
  have hempty : ∀ key, (System.start b).reporter key = {} := fun key => by
    simp [System.reporter, System.start, reporter, hb]
  refine ⟨fun key => ?_, by simp [System.start], by simp [System.start]⟩
  rw [hempty key]
  exact Good.empty

/-- In every state of every run the fence of each reporter agrees with the
generation table and the node table; from there on no generation decreases;
and no REGISTER or HEARTBEAT was acknowledged between the moment the liveness
checker found a node expired and the moment it unregistered it. -/
theorem lifecycle_fence_agrees {s s' : System} (h : eventReports.Reach NotCleared s)
    (hsteps : eventReports.Steps NotCleared s s') (key : ReporterSnapshotKey) :
    (match (s'.reporter key).fence with
      | some f => (s'.reporter key).generation.getD 0 = f.generation ∧
          (s'.reporter key).node.isSome = f.registered
      | none => (s'.reporter key).node = none ∧ (s'.reporter key).generation = none) ∧
      (s.reporter key).currentGeneration ≤ (s'.reporter key).currentGeneration ∧
      ∀ e ∈ s'.unregistered, e.acked = false := by
  have hw := watched_of_reach (h.steps hsteps)
  refine ⟨?_, ?_, hw.unregistered⟩
  · cases hf : (s'.reporter key).fence with
    | none => exact (hw.good key).unfenced hf
    | some f =>
      obtain ⟨hgen, hreg⟩ := (hw.good key).fence f hf
      exact ⟨hgen.symm, hreg.symm⟩
  · have hmono := hsteps.preserve
      (P := fun t => t.Watched ∧
        (s.reporter key).currentGeneration ≤ (t.reporter key).currentGeneration)
      (fun t a t' ht hok hstep => ⟨ht.1.step hok hstep,
        ht.2.trans (System.advances_of_step ht.1.good hok hstep key).le⟩)
    exact (hmono ⟨watched_of_reach h, le_rfl⟩).2

/-- An open backend of the given type that has seen no reporter. -/
def openBackend (type : DataStorageType) : EventReportBackend :=
  { type, isOpen := true, isAvailable := true, heartbeatTimeoutMs := 10, cleanupGraceMs := 20
    snapshotMinIntervalMs := 0 }

def host : ReporterSnapshotKey := ⟨"i", "h:1"⟩

/-- A reporter registers, is silent for too long and is unregistered. -/
theorem lifecycle_fence_agrees_expired :
    ∃ s, eventReports.Reach NotCleared s ∧ (s.reporter host).node = none ∧
      s.unregistered = [{ key := host, generation := 1 }] ∧
      ∀ e ∈ s.unregistered, e.acked = false := by
  let actions : List Action := [.register host [] 100, .livenessScan 120 120,
    .livenessScan 150 150, .livenessUnregister { key := host, generation := 1 }]
  obtain ⟨s, hrun, hnode, hun⟩ : ∃ s,
      eventReports.run (.start (openBackend .eventReportL2)) actions = some s ∧
      (s.reporter host).node = none ∧ s.unregistered = [{ key := host, generation := 1 }] :=
    ⟨_, rfl, rfl, rfl⟩
  have hok : eventReports.AllOk NotCleared (.start (openBackend .eventReportL2)) actions := by
    simp [actions, Machine.AllOk, NotCleared]
  have hreach : eventReports.Reach NotCleared s :=
    ⟨_, ⟨_, rfl, rfl⟩, steps_of_run hrun hok⟩
  exact ⟨s, hreach, hnode, hun,
    (lifecycle_fence_agrees hreach Relation.ReflTransGen.refl host).2.2⟩

end TairKvCache.EventReport
