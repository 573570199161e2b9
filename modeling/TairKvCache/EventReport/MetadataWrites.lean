import TairKvCache.EventReport.DeltaGate

/-!
# Tokens of metadata writes

An ADD attaches the token its delta was admitted with to every URI it
writes. The write comes later, under a lifecycle lease, which is granted
only in the generation the request holds. A request that stays with the
generation of its admission is safe: the lease proves that the node still is
in that generation, so the delta is of the present life, and its token is
the committed one (`Gate.current`).

`AdoptLifecycleGeneration` moves the request to the generation that its own
REGISTER or HEARTBEAT was acknowledged in, and does not look at the token.
After a HOST_DOWN and a REGISTER of other requests that is the generation of
a new life, with another token.
-/

namespace TairKvCache.EventReport

open Lib Machine

open Reporter

/-- The generation a request holds and its lease. -/
structure Held (r : Reporter) (era : Nat → Nat) (d : Delta) : Prop where
  le : d.generation ≤ r.currentGeneration
  life : era d.generation = era d.admittedAt
  lease : d.writing = true → r.registeredAt d.generation = true

variable {r : Reporter} {d : Delta} {s s' : System} {a : Action}

theorem registeredAt_congr {r' : Reporter} (hf : r.fence.isSome = true → r'.fence = r.fence)
    {g : Nat} (h : r.registeredAt g = true) : r'.registeredAt g = true := by
  have hsome : r.fence.isSome = true := by
    cases hr : r.fence with
    | none => simp [registeredAt, hr] at h
    | some f => rfl
  unfold registeredAt at h ⊢
  rw [hf hsome]
  exact h

/-- Under its lease a request carries the committed token. -/
theorem Held.committed {era : Nat → Nat} {ds : List Delta} {as : List Attempt}
    {issued : List String} (h : Held r era d) (hgood : r.Good) (hg : Gate r era ds as issued)
    (hd : d ∈ ds) (hw : d.writing = true) : r.committed = d.version := by
  obtain ⟨hn, hgen⟩ := (hgood.registeredAt_iff d.generation).mp (h.lease hw)
  refine (hg.current d hd).mp (alive_iff.mpr ⟨hn, ?_⟩)
  rw [hgen, h.life]

namespace System

/-- A request adopts a generation only while its token is the committed one. -/
def AdoptsOwnToken (s : System) (a : Action) : Prop :=
  ∀ d, a = .adopt d → (s.reporter d.key).committed = d.version

def HeldAt (s : System) (d : Delta) : Prop := Held (s.reporter d.key) (s.era d.key) d

theorem leased_of_writing (hd : d ∈ s.deltas) (hw : d.writing = true) : s.leased d.key = true := by
  unfold leased
  rw [Bool.or_eq_true, List.any_eq_true]
  exact .inl ⟨d, hd, by simp [hw]⟩

theorem heldAt_lifecycle (hg : ∀ key, s.GateAt key) (hh : ∀ d ∈ s.deltas, s.HeldAt d)
    (h : Lifecycle s s') : ∀ d ∈ s'.deltas, s'.HeldAt d := by
  intro d hd
  rw [h.deltas] at hd
  have hera : s'.era d.key = Gate.nextEra (s.reporter d.key) (s'.reporter d.key) (s.era d.key) :=
    funext fun g => h.era d.key g
  have hat : d.admittedAt ≤ (s.reporter d.key).currentGeneration :=
    (hg d.key).delta_le d (by simp [deltasOf, hd])
  refine ⟨(hh d hd).le.trans (h.moves d.key).le, ?_, fun hw => ?_⟩
  · rw [hera, Gate.nextEra_of_le (hh d hd).le, Gate.nextEra_of_le hat]
    exact (hh d hd).life
  · exact registeredAt_congr (h.pinned d.key (leased_of_writing hd hw)).fence ((hh d hd).lease hw)

theorem GateStep.heldAt (h : GateStep a s s') (hd : s.HeldAt d) : s'.HeldAt d := by
  refine ⟨?_, ?_, fun hw => registeredAt_congr (h.gated d.key).fence (hd.lease hw)⟩
  · rw [(h.gated d.key).generation]
    exact hd.le
  · rw [h.era]
    exact hd.life

theorem heldAt_step (hgood : s.AllGood) (hg : ∀ key, s.GateAt key)
    (hh : ∀ d ∈ s.deltas, s.HeldAt d) (hc : a ≠ .clear) (hok : AdoptsOwnToken s a)
    (h : s.step a = some s') : ∀ d ∈ s'.deltas, s'.HeldAt d := by
  intro d hd
  rcases step_kind hgood h with rfl | hlife | hgate
  · exact absurd rfl hc
  · exact heldAt_lifecycle hg hh hlife d hd
  refine hgate.heldAt ?_
  cases hgate.deltas d hd with
  | kept hmem => exact hh d hmem
  | admitted hout hadmitted =>
    subst hout
    obtain ⟨-, -, -, heq⟩ := beginDeltaMutation_ok hadmitted
    exact ⟨Nat.le_of_eq (congrArg (·.2.2.2) heq), rfl, fun h => by cases h⟩
  | adopted hmem hidle =>
    -- the token is still the committed one, so the life is the same
    have halive := ((hg _).current _ (by simp [deltasOf, hmem])).mpr (hok _ rfl)
    refine ⟨le_rfl, (alive_iff.mp halive).2.symm, fun hw => ?_⟩
    exact absurd (hidle.symm.trans hw) (by simp)
  | leased hmem hlease =>
    exact ⟨(hh _ hmem).le, (hh _ hmem).life, fun _ => (acquireLifecycleMutationLease_ok hlease).2⟩
  | released hmem => exact ⟨(hh _ hmem).le, (hh _ hmem).life, fun h => by cases h⟩

/-- What a metadata write should have been. -/
def Sound (w : Write) : Prop := w.registered = true ∧ w.version = w.committed

theorem sound_step (hgood : s.AllGood) (hg : ∀ key, s.GateAt key)
    (hh : ∀ d ∈ s.deltas, s.HeldAt d) (hc : a ≠ .clear) (hs : ∀ w ∈ s.writes, Sound w)
    (h : s.step a = some s') : ∀ w ∈ s'.writes, Sound w := by
  rcases step_kind hgood h with rfl | hlife | hgate
  · exact absurd rfl hc
  · rw [hlife.writes]
    exact hs
  rcases hgate.writes with heq | ⟨d, hd, hw, heq⟩
  · rw [heq]
    exact hs
  · rw [heq]
    intro w hmem
    rcases List.mem_cons.mp hmem with rfl | hmem
    · refine ⟨(hh d hd).lease hw, ?_⟩
      exact ((hh d hd).committed (hgood d.key) (hg d.key) (by simp [deltasOf, hd]) hw).symm
    · exact hs w hmem

structure Writing (s : System) : Prop where
  good : s.AllGood
  sound : ∀ w ∈ s.writes, Sound w
  gates : ((∀ key, s.GateAt key) ∧ ∀ d ∈ s.deltas, s.HeldAt d) ∨
    (s.Closed ∧ ∀ d ∈ s.deltas, d.writing = false)

theorem Writing.step (hs : s.Writing) (hok : AdoptsOwnToken s a) (h : s.step a = some s') :
    s'.Writing := by
  have hgood := good_step hs.good h
  rcases hs.gates with ⟨hg, hh⟩ | ⟨hcl, hidle⟩
  · rcases eq_or_ne a .clear with rfl | hclear
    · obtain ⟨hret, hidle, -, rfl⟩ := step_clear h
      refine ⟨hgood, hs.sound, .inr ⟨⟨hret, fun key => ?_⟩, hidle⟩⟩
      rw [reporter_cleared]
    · exact ⟨hgood, sound_step hs.good hg hh hclear hs.sound h,
        .inl ⟨gateAt_step hs.good hg hclear h, heldAt_step hs.good hg hh hclear hok h⟩⟩
  · obtain ⟨hcl', hfades⟩ := hcl.step hs.good h
    refine ⟨hgood, ?_, .inr ⟨hcl', fun d' hd' => ?_⟩⟩
    · rw [hfades.writes hidle]
      exact hs.sound
    · obtain ⟨d, hd, -, -, himp⟩ := hfades.deltas d' hd'
      by_contra hw
      exact absurd (hidle d hd) (by simp [himp (by simpa using hw)])

theorem writing_of_reach (h : eventReports.Reach AdoptsOwnToken s) : s.Writing := by
  refine h.inv (P := Writing) (fun s hs => ?_) (fun s a s' hs hok hstep => hs.step hok hstep)
  obtain ⟨b, hb, rfl⟩ := hs
  refine ⟨fun key => ?_, nofun,
    .inl ⟨fun key => gateAt_start hb key, nofun⟩⟩
  rw [reporter_start hb key]
  exact Good.empty

end System

open EventReport.System

/-- In every run in which requests adopt a generation only while their token
is the committed one, every metadata write of an ADD happens in the
registered generation its request holds and attaches the token that is
committed at that moment. -/
theorem writes_attach_committed {s : System} (h : eventReports.Reach AdoptsOwnToken s) :
    ∀ w ∈ s.writes, w.registered = true ∧ w.version = w.committed :=
  (writing_of_reach h).sound

/-- A request `ADD, HEARTBEAT` is admitted with the first token. A HOST_DOWN
and a request `REGISTER, ADD` come in between; the heartbeat is acknowledged
in the new generation, the request adopts it and writes its old token. -/
def adoptionRun : List Action :=
  let d : Delta := { key := host, version := tokenA, generation := 1, admittedAt := 1 }
  [.register host [] 100, .beginDelta host tokenA, .hostDown host, .register host [] 200,
    .beginDelta host tokenB, .heartbeatSteady host 210, .adopt d,
    .acquireWrite { d with generation := 2 }, .write { d with generation := 2, writing := true }]

theorem write_attaches_old_token : ∃ s, eventReports.Reach anyAction s ∧ ∃ w ∈ s.writes,
      w.version = tokenA ∧ w.committed = tokenB ∧ w.registered = true := by
  obtain ⟨s, hrun, hwrites⟩ : ∃ s,
      eventReports.run (.start (openBackend .eventReportL2)) adoptionRun = some s ∧
      s.writes = [{ key := host, version := tokenA, committed := tokenB, registered := true }] :=
    ⟨_, rfl, rfl⟩
  exact ⟨s, reach_of_run ⟨_, rfl, rfl⟩ hrun, _, hwrites ▸ List.mem_singleton_self _, rfl,
    rfl, rfl⟩

/-- The same request when the reporter only was unavailable for a while: the
heartbeat recovers it into a new generation, with the same token. -/
theorem writes_attach_committed_recovery :
    ∃ s, eventReports.Reach AdoptsOwnToken s ∧ ∃ w ∈ s.writes, w.key = host ∧
      w.registered = true ∧ w.version = w.committed := by
  let d : Delta := { key := host, version := tokenA, generation := 1, admittedAt := 1 }
  let before : List Action := [.register host [] 100, .beginDelta host tokenA,
    .setNodeUnavailable host 150, .heartbeatLocked host 160]
  let after : List Action := [.acquireWrite { d with generation := 2 },
    .write { d with generation := 2, writing := true }]
  obtain ⟨s₁, s₂, s₃, hbefore, hown, hadopt, hafter, hwrites⟩ : ∃ s₁ s₂ s₃,
      eventReports.run (.start (openBackend .eventReportL2)) before = some s₁ ∧
      (s₁.reporter d.key).committed = d.version ∧
      eventReports.step s₁ (.adopt d) = some s₂ ∧ eventReports.run s₂ after = some s₃ ∧
      s₃.writes = [{ key := host, version := tokenA, committed := tokenA, registered := true }] :=
    ⟨_, _, _, rfl, rfl, rfl, rfl, rfl⟩
  have hreach₁ : eventReports.Reach AdoptsOwnToken s₁ :=
    ⟨_, ⟨_, rfl, rfl⟩, steps_of_run hbefore (by simp [before, Machine.AllOk, AdoptsOwnToken])⟩
  have hnext : eventReports.Steps AdoptsOwnToken s₁ s₂ := by
    refine Relation.ReflTransGen.single ⟨_, fun x hx => ?_, hadopt⟩
    obtain rfl := Action.adopt.inj hx
    exact hown
  have hlast : eventReports.Steps AdoptsOwnToken s₂ s₃ :=
    steps_of_run hafter (by simp [after, Machine.AllOk, AdoptsOwnToken])
  have hreach := (hreach₁.steps hnext).steps hlast
  refine ⟨s₃, hreach, { key := host, version := tokenA, committed := tokenA, registered := true },
    by simp [hwrites], rfl, ?_⟩
  exact writes_attach_committed hreach _ (by simp [hwrites])

end TairKvCache.EventReport
