import TairKvCache.HostMatch.Sweep

/-!
# What a finished sweep knows

The stops only fall, the state bits are only set, and the two limits only fall,
so whatever a chunk has established stays established while the others run
(`PhaseOk.mono`). The invariant says for every chunk which keys it has *handled*:
a host that lacks the key has its stop at or before it, and a state bit is set
unless the host has stopped before.

The chunk that lowered a stop last has yet to load the stops, so it will publish
their true maximum: `Fresh` says that `visitor_stop` is no larger than some stop,
or some chunk under way will make it so.
-/

namespace TairKvCache.HostMatch

open Function Lib SweepState Machine

/-! ## Things only fall -/

structure Falls (s s' : SweepState) : Prop where
  stops : ∀ h, s'.stops h ≤ s.stops h
  words : ∀ h i, (s.stateWords h).getBit i = true → (s'.stateWords h).getBit i = true
  metadataStop : s'.metadataStop ≤ s.metadataStop
  visitorStop : s'.visitorStop ≤ s.visitorStop

theorem Falls.refl (s : SweepState) : Falls s s :=
  ⟨fun _ => le_rfl, fun _ _ h => h, le_rfl, le_rfl⟩

variable {s' : SweepState} {i k h : Nat} {p : Phase} {s : SweepState}

theorem Falls.move (h : Falls s s') (k : Nat) (p : Phase) :
    Falls s (s'.move k p) := { h with }

namespace Sweep

variable {S : Sweep}

def WordsFit (S : Sweep) (s : SweepState) : Prop :=
  ∀ h, (s.stateWords h).length = wordCountForBits S.layout.keyCount

theorem visitHost_words (s : SweepState) (i h g : Nat) : (S.visitHost s i h).stateWords g =
      if S.visitor.hasState i h = true ∧ g = h then (s.stateWords g).setBit i
      else s.stateWords g := by
  by_cases hs : S.visitor.hasState i h = true
  · rcases eq_or_ne g h with rfl | hg
    · simp [visitHost, hs]
    · simp [visitHost, hs, hg]
  · simp [visitHost, hs]

theorem visitHost_stops (s : SweepState) (i h g : Nat) : (S.visitHost s i h).stops g =
      if S.visitor.hasFull i h = false ∧ g = h then min (s.stops g) i else s.stops g := by
  by_cases hs : S.visitor.hasFull i h = true
  · simp [visitHost, hs]
  · rcases eq_or_ne g h with rfl | hg
    · simp [visitHost, hs]
    · simp [visitHost, hs, hg]

theorem getBit_visitHost (hfit : S.WordsFit s) (hi : i < S.layout.keyCount) (h g j : Nat) :
    ((S.visitHost s i h).stateWords g).getBit j =
      ((s.stateWords g).getBit j || (S.visitor.hasState i h && decide (g = h) && decide (i = j))) :=
        by
  rw [visitHost_words]
  split
  · next hc =>
    have hw : i / 64 < (s.stateWords g).length := hfit g ▸ lt_wordCountForBits hi
    rw [Words.getBit_setBit hw, hc.1, hc.2]
    simp
  · next hc =>
    have : (S.visitor.hasState i h && decide (g = h)) = false := by
      simpa [Bool.and_eq_true] using hc
    simp [this]

theorem visitHost_falls (hfit : S.WordsFit s) (hi : i < S.layout.keyCount) (h : Nat) :
    Falls s (S.visitHost s i h) where
  stops g := by
    rw [visitHost_stops]
    split
    · exact min_le_left ..
    · exact le_rfl
  words g j hj := by
    rw [getBit_visitHost hfit hi, hj, Bool.true_or]
  metadataStop := le_rfl
  visitorStop := le_rfl

theorem publish_falls (s : SweepState) (stop : Nat) : Falls s (S.publish s stop) :=
  ⟨fun _ => le_rfl, fun _ _ h => h, le_rfl, min_le_left ..⟩

theorem record_falls (s : SweepState) (k : Nat) : Falls s (S.record s k) := by
  unfold record
  split
  · exact ⟨fun _ => le_rfl, fun _ _ h => h, min_le_left .., le_rfl⟩
  · exact Falls.refl s

/-! ## The readable part of a chunk -/

theorem successfulCount_le (S : Sweep) (k : Nat) :
    S.successfulCount k ≤ S.layout.chunkSize k := leading_le _ _

theorem code_of_lt_successfulCount {j : Nat} (hj : j < S.successfulCount k) :
    S.code (S.layout.chunkBegin k + j) = .ok := by
  simpa using of_lt_leading hj

theorem code_at_successfulCount (h : S.successfulCount k < S.layout.chunkSize k) :
    S.code (S.layout.chunkBegin k + S.successfulCount k) ≠ .ok :=
  of_decide_eq_false (at_leading h)

/-! ## The invariant -/

/-- Key `i` has been taken into account for host `h`. -/
def Handled (S : Sweep) (s : SweepState) (i h : Nat) : Prop :=
  (S.visitor.hasFull i h = false → s.stops h ≤ i) ∧
    (S.visitor.hasState i h = true → (s.stateWords h).getBit i = true ∨ s.stops h ≤ i)

/-- The keys of chunk `k` before local index `n` have been taken into account. -/
def HandledBelow (S : Sweep) (s : SweepState) (k n : Nat) : Prop :=
  ∀ j, S.firstIndex k ≤ j → j < n → ∀ h < S.visitor.hosts,
    S.Handled s (S.layout.chunkBegin k + j) h

/-- What a chunk has established when it is in a phase. -/
def PhaseOk (S : Sweep) (s : SweepState) (k : Nat) : Phase → Prop
  | .waiting => True
  | .checking i h => S.HandledBelow s k i ∧
      ∀ g < h, g < S.visitor.hosts → s.stops g ≤ S.layout.chunkBegin k + i
  | .updating i h => i < S.successfulCount k ∧ S.HandledBelow s k i ∧
      ∀ g < h, g < S.visitor.hosts → S.Handled s (S.layout.chunkBegin k + i) g
  | .loading h last => S.HandledBelow s k (S.successfulCount k) ∧
      ∀ g < h, g < S.visitor.hosts → s.stops g ≤ last
  | .publishing stop => S.HandledBelow s k (S.successfulCount k) ∧
      ∀ g < S.visitor.hosts, s.stops g ≤ stop
  | .recording => S.HandledBelow s k (S.successfulCount k)
  | .finished =>
    s.metadataStop ≤ S.layout.chunkBegin k ∨ s.visitorStop ≤ S.layout.chunkBegin k ∨
      (S.HandledBelow s k (S.successfulCount k) ∧
        (S.successfulCount k < S.layout.chunkSize k →
          s.metadataStop ≤ S.layout.chunkBegin k + S.successfulCount k))

theorem Handled.mono (hf : Falls s s') (hh : S.Handled s i h) :
    S.Handled s' i h := by
  refine ⟨fun hno => (hf.stops h).trans (hh.1 hno), fun hst => ?_⟩
  rcases hh.2 hst with hbit | hle
  · exact .inl (hf.words h i hbit)
  · exact .inr ((hf.stops h).trans hle)

theorem HandledBelow.mono (hf : Falls s s') {n : Nat} (hh : S.HandledBelow s k n) :
    S.HandledBelow s' k n :=
  fun j hj hn h hlt => (hh j hj hn h hlt).mono hf

theorem PhaseOk.mono (hf : Falls s s') (hp : S.PhaseOk s k p) :
    S.PhaseOk s' k p := by
  cases p with
  | waiting => trivial
  | checking i h | loading h last =>
    exact ⟨hp.1.mono hf, fun g hg hlt => (hf.stops g).trans (hp.2 g hg hlt)⟩
  | updating i h =>
    exact ⟨hp.1, hp.2.1.mono hf, fun g hg hlt => (hp.2.2 g hg hlt).mono hf⟩
  | publishing stop =>
    exact ⟨hp.1.mono hf, fun g hlt => (hf.stops g).trans (hp.2 g hlt)⟩
  | recording => exact HandledBelow.mono hf hp
  | finished =>
    rcases hp with hm | hv | hall
    · exact .inl (hf.metadataStop.trans hm)
    · exact .inr (.inl (hf.visitorStop.trans hv))
    · exact .inr (.inr ⟨hall.1.mono hf, fun hlt =>
        hf.metadataStop.trans (hall.2 hlt)⟩)

structure Inv (S : Sweep) (s : SweepState) : Prop where
  wordsFit : S.WordsFit s
  /-- A stop is a key that was read and that the host lacks. -/
  stop_real : ∀ h, s.stops h = S.layout.keyCount ∨
    (s.stops h < S.layout.keyCount ∧ S.code (s.stops h) = .ok ∧
      S.visitor.hasFull (s.stops h) h = false)
  /-- A state bit is only set where the host has the state. -/
  bit_real : ∀ h i, (s.stateWords h).getBit i = true → S.visitor.hasState i h = true
  stop_le : ∀ h < S.visitor.hosts, s.stops h ≤ s.visitorStop
  /-- `metadata_stop` is the terminal of some chunk. -/
  metadata_real : s.metadataStop = S.layout.keyCount ∨
    ∃ k ec, s.terminals k = some (s.metadataStop, ec)
  terminal_real : ∀ k t, s.terminals k = some t →
    S.successfulCount k < S.layout.chunkSize k ∧
      t = (S.layout.chunkBegin k + S.successfulCount k,
        S.code (S.layout.chunkBegin k + S.successfulCount k))
  phases : ∀ k < S.layout.slotCount, S.PhaseOk s k (s.chunks k)

theorem Inv.stop_le_count (hi : S.Inv s) (h : Nat) :
    s.stops h ≤ S.layout.keyCount := by
  rcases hi.stop_real h with heq | ⟨hlt, -, -⟩
  · exact heq.le
  · exact hlt.le

theorem opened_ok (S : Sweep) (s : SweepState) (k : Nat) : S.PhaseOk s k (S.opened k) := by
  unfold opened
  split
  · next h =>
    intro j _ hj
    rw [h] at hj
    exact absurd hj (Nat.not_lt_zero j)
  · exact ⟨fun j hlo hhi => absurd hlo (Nat.not_le.mpr hhi),
      nofun⟩

theorem inv_initial (S : Sweep) : S.Inv S.initial where
  wordsFit h := by simp [initial]
  stop_real h := .inl rfl
  bit_real h i hb := by simp [initial] at hb
  stop_le h _ := le_rfl
  metadata_real := .inl rfl
  terminal_real k t h := by simp [initial] at h
  phases k _ := by
    rcases eq_or_ne k 0 with rfl | hk
    · simp only [initial, update_self]
      exact S.opened_ok _ 0
    · simp only [initial, update_of_ne hk]
      trivial

theorem Inv.move (hi : S.Inv s) (hp : S.PhaseOk s k p) : S.Inv (s.move k p) := by
  refine { hi with phases := fun j hj => ?_ }
  rcases eq_or_ne j k with rfl | hjk
  · rw [move_self]
    exact hp.mono ((Falls.refl s).move j p)
  · rw [move_of_ne s p hjk]
    exact (hi.phases j hj).mono ((Falls.refl s).move k p)

theorem Inv.visitHost (hi : S.Inv s) (hlt : i < S.layout.keyCount) (hcode : S.code i = .ok)
    (h : Nat) : S.Inv (S.visitHost s i h) where
  wordsFit g := by
    rw [visitHost_words]
    split
    · rw [Words.length_setBit, hi.wordsFit g]
    · exact hi.wordsFit g
  stop_real g := by
    rw [visitHost_stops]
    split
    · next hc =>
      rcases Nat.le_total (s.stops g) i with hle | hle
      · rw [Nat.min_eq_left hle]
        exact hi.stop_real g
      · rw [Nat.min_eq_right hle, hc.2]
        exact .inr ⟨hlt, hcode, hc.1⟩
    · exact hi.stop_real g
  bit_real g j hb := by
    rw [getBit_visitHost hi.wordsFit hlt] at hb
    rcases Bool.or_eq_true_iff.mp hb with hb | hb
    · exact hi.bit_real g j hb
    · obtain ⟨⟨hs, hg⟩, hj⟩ : (S.visitor.hasState i h = true ∧ g = h) ∧ i = j := by
        simpa using hb
      exact hj ▸ hg ▸ hs
  stop_le g hg := ((visitHost_falls hi.wordsFit hlt h).stops g).trans (hi.stop_le g hg)
  metadata_real := hi.metadata_real
  terminal_real := hi.terminal_real
  phases k hk := (hi.phases k hk).mono (visitHost_falls hi.wordsFit hlt h)

theorem Inv.publish (hi : S.Inv s) {stop : Nat} (hstop : ∀ g < S.visitor.hosts, s.stops g ≤ stop) :
    S.Inv (S.publish s stop) :=
  { hi with
    stop_le := fun h hh => Nat.le_min.mpr
      ⟨hi.stop_le h hh, Nat.le_min.mpr ⟨hi.stop_le_count h, hstop h hh⟩⟩
    phases := fun k hk => (hi.phases k hk).mono (publish_falls s stop) }

theorem Inv.record (hi : S.Inv s) (k : Nat) : S.Inv (S.record s k) := by
  have hph : ∀ j < S.layout.slotCount, S.PhaseOk (S.record s k) j (s.chunks j) :=
    fun j hj => (hi.phases j hj).mono (record_falls s k)
  unfold Sweep.record at hph ⊢
  split at hph
  · next hlt =>
    rw [if_pos hlt]
    refine ⟨hi.wordsFit, hi.stop_real, hi.bit_real, hi.stop_le, ?_, ?_, hph⟩
    · rcases Nat.le_total s.metadataStop (S.layout.chunkBegin k + S.successfulCount k)
        with hle | hle
      · simp only [Nat.min_eq_left hle]
        rcases hi.metadata_real with heq | ⟨j, ec, hj⟩
        · exact .inl heq
        · refine .inr ⟨j, ec, ?_⟩
          rcases eq_or_ne j k with rfl | hjk
          · rw [update_self, ← (hi.terminal_real j _ hj).2]
          · rw [update_of_ne hjk, hj]
      · simp only [Nat.min_eq_right hle]
        exact .inr ⟨k, S.code (S.layout.chunkBegin k + S.successfulCount k),
          update_self ..⟩
    · intro j t ht
      dsimp only at ht
      rcases eq_or_ne j k with rfl | hjk
      · rw [update_self] at ht
        exact ⟨hlt, (Option.some.inj ht).symm⟩
      · rw [update_of_ne hjk] at ht
        exact hi.terminal_real j t ht
  · next hlt =>
    rw [if_neg hlt]
    exact hi

theorem HandledBelow.of_stops {n : Nat} (hh : S.HandledBelow s k i)
    (hs : ∀ g < S.visitor.hosts, s.stops g ≤ S.layout.chunkBegin k + i) : S.HandledBelow s k n := by
  intro j hlo hhi h hlt
  by_cases hji : j < i
  · exact hh j hlo hji h hlt
  · have hle : s.stops h ≤ S.layout.chunkBegin k + j := (hs h hlt).trans (by omega)
    exact ⟨fun _ => hle, fun _ => .inr hle⟩

theorem handled_visitHost (hfit : S.WordsFit s) (hlt : i < S.layout.keyCount) (h : Nat) :
    S.Handled (S.visitHost s i h) i h := by
  refine ⟨fun hno => ?_, fun hst => .inl ?_⟩
  · rw [visitHost_stops, if_pos ⟨hno, rfl⟩]
    exact min_le_right ..
  · rw [getBit_visitHost hfit hlt, hst]
    simp

theorem inv_step (hi : S.Inv s) (hnext : S.step s k = some s') : S.Inv s' := by
  obtain ⟨hk, hstep⟩ := stepOf_of_step hnext
  have hp := hi.phases k hk
  cases hstep with
  | skip hc _ hstop =>
    refine hi.move ?_
    rcases min_le_iff.mp hstop with hm | hv
    · exact .inl hm
    · exact .inr (.inl hv)
  | read _ _ _ => exact hi.move (S.opened_ok s k)
  | noMoreKeys hc hge =>
    rw [hc] at hp
    exact hi.move ⟨fun j hlo hhi => hp.1 j hlo (hhi.trans_le hge),
      nofun⟩
  | noHostNeeds hc hge =>
    -- every host has stopped at or before this key, hence before the later ones
    rw [hc] at hp
    exact hi.move ⟨hp.1.of_stops fun g hg => hp.2 g (hg.trans_le hge) hg,
      nofun⟩
  | needed hc hlt _ _ =>
    rw [hc] at hp
    exact hi.move ⟨hlt, hp.1, nofun⟩
  | @stopped i h hc _ _ hs =>
    rw [hc] at hp
    refine hi.move ⟨hp.1, fun g hg hlt => ?_⟩
    rcases Nat.lt_succ_iff_lt_or_eq.mp hg with hg | rfl
    · exact hp.2 g hg hlt
    · exact hs
  | @nextKey i h hc hge =>
    rw [hc] at hp
    refine hi.move ⟨fun j hlo hhi g hg => ?_, nofun⟩
    rcases Nat.lt_succ_iff_lt_or_eq.mp hhi with hj | rfl
    · exact hp.2.1 j hlo hj g hg
    · exact hp.2.2 g (hg.trans_le hge) hg
  | @visit i h hc hlt =>
    rw [hc] at hp
    have hin : S.layout.chunkBegin k + i < S.layout.keyCount :=
      S.layout.chunk_le k (hp.1.trans_le (S.successfulCount_le k))
    have hf := visitHost_falls (S := S) hi.wordsFit hin h
    refine (hi.visitHost hin (code_of_lt_successfulCount hp.1) h).move
      ⟨hp.1, hp.2.1.mono hf, fun g hg hgl => ?_⟩
    rcases Nat.lt_succ_iff_lt_or_eq.mp hg with hg | rfl
    · exact (hp.2.2 g hg hgl).mono hf
    · exact handled_visitHost hi.wordsFit hin g
  | allStopped hc hge =>
    rw [hc] at hp
    exact hi.move ⟨hp.1, fun g hg => hp.2 g (hg.trans_le hge) hg⟩
  | running hc _ _ =>
    rw [hc] at hp
    exact hi.move ⟨hp.1, fun g _ => hi.stop_le_count g⟩
  | @load h last hc _ _ =>
    rw [hc] at hp
    refine hi.move ⟨hp.1, fun g hg hlt => ?_⟩
    rcases Nat.lt_succ_iff_lt_or_eq.mp hg with hg | rfl
    · exact (hp.2 g hg hlt).trans (le_max_left ..)
    · exact le_max_right ..
  | publish hc =>
    rw [hc] at hp
    exact (hi.publish hp.2).move (HandledBelow.mono (publish_falls s _) hp.1)
  | record hc =>
    rw [hc] at hp
    refine (hi.record k).move (.inr (.inr ⟨HandledBelow.mono (record_falls s k) hp, ?_⟩))
    intro hlt
    rw [Sweep.record, if_pos hlt]
    exact min_le_right ..

theorem reach_inv {P : SweepState → Prop} (h : S.machine.Reach anyAction s)
    (h0 : P S.initial) (hstep : ∀ s k s', P s → S.step s k = some s' → P s') : P s := by
  refine h.inv (fun s₀ h₀ => ?_) fun s k s' hs _ => hstep s k s' hs
  obtain rfl : s₀ = S.initial := h₀
  exact h0

theorem inv_reach (h : S.machine.Reach anyAction s) : S.Inv s :=
  reach_inv h S.inv_initial fun _ _ _ hi hstep => inv_step hi hstep

/-! ## The published stop -/

/-- No more than some host's stop. -/
def Reached (S : Sweep) (s : SweepState) (stop : Nat) : Prop :=
  stop = 0 ∨ ∃ h < S.visitor.hosts, stop ≤ s.stops h

/-- The chunk will publish no more than some host's stop. -/
def FreshPhase (S : Sweep) (s : SweepState) : Phase → Prop
  | .checking _ _ | .updating _ _ => True
  | .loading _ last => S.Reached s last
  | .publishing stop => S.Reached s stop
  | .waiting | .recording | .finished => False

def Fresh (S : Sweep) (s : SweepState) : Prop :=
  S.Reached s s.visitorStop ∨ ∃ k < S.layout.slotCount, S.FreshPhase s (s.chunks k)

theorem slotCount_pos (S : Sweep) : 0 < S.layout.slotCount := by
  unfold Layout.slotCount
  split
  · exact Nat.one_pos
  · exact Nat.add_pos_left Nat.one_pos _

theorem fresh_initial (h : 0 < S.successfulCount 0) : S.Fresh S.initial := by
  refine .inr ⟨0, S.slotCount_pos, ?_⟩
  simp only [initial, update_self, opened, if_neg (Nat.pos_iff_ne_zero.mp h)]
  trivial

theorem Fresh.move (hf : S.Fresh s) (hk : k < S.layout.slotCount)
    (hp : S.FreshPhase s (s.chunks k) → S.FreshPhase s p) : S.Fresh (s.move k p) := by
  rcases hf with hv | ⟨j, hj, hph⟩
  · exact .inl hv
  · refine .inr ⟨j, hj, ?_⟩
    rcases eq_or_ne j k with rfl | hjk
    · rw [move_self]
      exact hp hph
    · rw [move_of_ne s p hjk]
      exact hph

theorem Reached.le {a b : Nat} (h : S.Reached s b) (hab : a ≤ b) :
    S.Reached s a := by
  rcases h with rfl | ⟨g, hg, hle⟩
  · exact .inl (Nat.le_zero.mp hab)
  · exact .inr ⟨g, hg, hab.trans hle⟩

theorem Reached.max {a : Nat} (ha : S.Reached s a) (hh : h < S.visitor.hosts) :
    S.Reached s (max a (s.stops h)) := by
  rcases Nat.le_total a (s.stops h) with hle | hle
  · rw [Nat.max_eq_right hle]
    exact .inr ⟨h, hh, le_rfl⟩
  · rw [Nat.max_eq_left hle]
    exact ha

theorem fresh_step (hf : S.Fresh s) (h : S.step s k = some s') : S.Fresh s' := by
  obtain ⟨hk, hstep⟩ := stepOf_of_step h
  cases hstep with
  | skip hc _ _ | read hc _ _ => exact hf.move hk fun hp => by rw [hc] at hp; exact hp.elim
  | noMoreKeys _ _ | noHostNeeds _ _ => exact hf.move hk fun _ => .inl rfl
  | needed _ _ _ _ | stopped _ _ _ _ | nextKey _ _ => exact hf.move hk fun _ => trivial
  | visit _ _ =>
    -- the chunk itself has yet to load the stops it may have lowered
    refine .inr ⟨k, hk, ?_⟩
    rw [move_self]
    trivial
  | allStopped hc _ => exact hf.move hk fun hp => by rw [hc] at hp; exact hp
  | running _ hh hs => exact hf.move hk fun _ => .inr ⟨_, hh, Nat.le_of_eq hs.symm⟩
  | load hc hh _ => exact hf.move hk fun hp => by rw [hc] at hp; exact Reached.max hp hh
  | @publish stop hc =>
    rcases hf with hv | ⟨j, hj, hph⟩
    · exact .inl (Reached.le hv (min_le_left ..))
    · rcases eq_or_ne j k with rfl | hjk
      · rw [hc] at hph
        exact .inl (Reached.le (b := stop) hph
          ((min_le_right ..).trans (min_le_right ..)))
      · refine .inr ⟨j, hj, ?_⟩
        rw [move_of_ne _ _ hjk]
        exact hph
  | record hc =>
    rcases hf with hv | ⟨j, hj, hph⟩
    · left
      unfold Sweep.record
      split <;> exact hv
    · have hjk : j ≠ k := by
        rintro rfl
        rw [hc] at hph
        exact hph
      refine .inr ⟨j, hj, ?_⟩
      rw [move_of_ne _ _ hjk]
      unfold Sweep.record
      split <;> exact hph

theorem fresh_reach (h : S.machine.Reach anyAction s) (h0 : 0 < S.successfulCount 0) :
    S.Fresh s :=
  reach_inv h (fresh_initial h0) fun _ _ _ hf hstep => fresh_step hf hstep

/-! ## An unreadable first key -/

/-- Nothing is visited when the first key could not be read. -/
def Unread (S : Sweep) (s : SweepState) : Prop :=
  s.visitorStop = S.layout.keyCount ∧ (s.chunks 0 = .finished → s.metadataStop = 0) ∧
    ∀ k, s.chunks k = .waiting ∨ s.chunks k = .recording ∨ s.chunks k = .finished

theorem unread_initial (h : S.successfulCount 0 = 0) : S.Unread S.initial := by
  refine ⟨rfl, fun hfin => ?_, fun k => ?_⟩
  · simp [initial, opened, h] at hfin
  · by_cases hk : k = 0 <;> simp [initial, opened, h, hk]

theorem Unread.finish (hu : S.Unread s) (hm : k = 0 → s.metadataStop = 0) :
    S.Unread (s.move k .finished) := by
  refine ⟨hu.1, fun hfin => ?_, fun j => ?_⟩
  · by_cases hk : 0 = k
    · exact hm hk.symm
    · rw [move_of_ne _ _ hk] at hfin
      exact hu.2.1 hfin
  · by_cases hjk : j = k
    · exact .inr (.inr (hjk ▸ move_self ..))
    · rw [move_of_ne _ _ hjk]
      exact hu.2.2 j

theorem unread_step (h0 : S.successfulCount 0 = 0) (hu : S.Unread s) (h : S.step s k = some s') :
    S.Unread s' := by
  obtain ⟨-, hstep⟩ := stepOf_of_step h
  cases hstep with
  | skip _ hfirst _ => exact hu.finish fun _ => hu.2.1 hfirst
  | read _ hfirst hstop =>
    -- the first chunk has recorded its terminal at 0, so no chunk is read
    have := hstop.trans_le (Nat.min_le_left s.metadataStop s.visitorStop)
    rw [hu.2.1 hfirst] at this
    exact absurd this (Nat.not_lt_zero _)
  | record _ =>
    have hr : S.Unread (S.record s k) := by
      unfold Sweep.record
      split
      · exact ⟨hu.1, fun hfin => by simp [hu.2.1 hfin], hu.2.2⟩
      · exact hu
    refine hr.finish ?_
    rintro rfl
    rw [Sweep.record, if_pos (by exact h0.trans_lt S.layout.first_pos)]
    simp [h0, Layout.chunkBegin]
  | noMoreKeys hc _ | noHostNeeds hc _ | needed hc _ _ _ | stopped hc _ _ _ | nextKey hc _
  | visit hc _ | allStopped hc _ | running hc _ _ | load hc _ _ | publish hc =>
    have hphase := hu.2.2 k
    rw [hc] at hphase
    simp at hphase

theorem unread_reach (h : S.machine.Reach anyAction s) (h0 : S.successfulCount 0 = 0) :
    S.Unread s :=
  reach_inv h (unread_initial h0) fun _ _ _ hu hstep => unread_step h0 hu hstep

/-! ## Finished sweeps -/

/-- `m` is the length of the readable prefix. -/
structure ReadableTo (S : Sweep) (m : Nat) : Prop where
  le : m ≤ S.layout.keyCount
  ok : ∀ i < m, S.code i = .ok
  stop : m < S.layout.keyCount → S.code m ≠ .ok

/-- The keys the visitor passes over hold nothing for it. -/
def SkipsOk (S : Sweep) : Prop :=
  ∀ i < S.visitor.firstIndex, ∀ h < S.visitor.hosts,
    S.visitor.hasFull i h = true ∧ S.visitor.hasState i h = false

section Finished

variable {s : SweepState} {m : Nat}

theorem Inv.metadata_ge (hi : S.Inv s) (hm : S.ReadableTo m) : m ≤ s.metadataStop := by
  rcases hi.metadata_real with heq | ⟨k, ec, hk⟩
  · exact heq ▸ hm.le
  · obtain ⟨hlt, ht⟩ := hi.terminal_real k _ hk
    have hcode := code_at_successfulCount hlt
    have hidx : s.metadataStop = S.layout.chunkBegin k + S.successfulCount k :=
      congrArg Prod.fst ht
    rw [← hidx] at hcode
    exact not_lt.mp fun h => hcode (hm.ok _ h)

/-- The part of a chunk before the end of the readable prefix is read. -/
theorem lt_successfulCount (hm : S.ReadableTo m) {j : Nat} (hj : j < S.layout.chunkSize k)
    (hlt : S.layout.chunkBegin k + j < m) : j < S.successfulCount k := by
  by_contra hge
  have hsucc : S.successfulCount k ≤ j := not_lt.mp hge
  exact code_at_successfulCount (hsucc.trans_lt hj)
    (hm.ok _ ((Nat.add_le_add_left hsucc _).trans_lt hlt))

/-- Every readable key has been taken into account. -/
theorem handled_of_finished (hi : S.Inv s) (hfin : S.Finished s) (hskip : S.SkipsOk)
    (hm : S.ReadableTo m) (him : i < m) (hh : h < S.visitor.hosts) : S.Handled s i h := by
  obtain ⟨hk, hlo, hhi⟩ := S.layout.slotOf_spec (him.trans_le hm.le)
  generalize S.layout.slotOf i = k at hk hlo hhi
  obtain ⟨j, rfl⟩ := Nat.exists_eq_add_of_le hlo
  have hp := hi.phases k hk
  rw [hfin k hk] at hp
  rcases hp with hmeta | hvis | hall
  · have := hi.metadata_ge hm
    omega
  · have hle : s.stops h ≤ S.layout.chunkBegin k + j :=
      (hi.stop_le h hh).trans (hvis.trans hlo)
    exact ⟨fun _ => hle, fun _ => .inr hle⟩
  · by_cases hj : S.firstIndex k ≤ j
    · exact hall.1 j hj (lt_successfulCount hm (by omega) him) h hh
    · -- only the chunk at 0 passes over keys
      have hb : S.layout.chunkBegin k = 0 := by
        by_contra hb
        rw [firstIndex, if_neg hb] at hj
        omega
      rw [firstIndex, if_pos hb] at hj
      rw [hb, Nat.zero_add]
      obtain ⟨hfull, hstate⟩ := hskip j (not_le.mp hj) h hh
      refine ⟨fun hno => ?_, fun hst => ?_⟩
      · rw [hfull] at hno
        cases hno
      · rw [hstate] at hst
        cases hst

/-- The read error is recorded if the visitor still asked for its key. -/
theorem metadata_eq (hi : S.Inv s) (hfin : S.Finished s) (hm : S.ReadableTo m)
    (hlt : m < S.layout.keyCount) (hv : m < s.visitorStop) : s.metadataStop = m := by
  refine Nat.le_antisymm ?_ (hi.metadata_ge hm)
  obtain ⟨hk, hlo, hhi⟩ := S.layout.slotOf_spec hlt
  generalize S.layout.slotOf m = k at hk hlo hhi
  obtain ⟨j, rfl⟩ := Nat.exists_eq_add_of_le hlo
  have hsucc : S.successfulCount k = j := by
    refine leading_eq (by omega) (fun i hij => ?_) fun _ => ?_
    · exact decide_eq_true (hm.ok _ (by omega))
    · exact decide_eq_false (hm.stop hlt)
  have hp := hi.phases k hk
  rw [hfin k hk] at hp
  rcases hp with hmeta | hvis | hall
  · exact hmeta.trans hlo
  · omega
  · rw [← hsucc]
    exact hall.2 (by omega)

/-- The length of a host: its leading run within the readable prefix. -/
theorem prefix_len (hi : S.Inv s) (hfin : S.Finished s) (hskip : S.SkipsOk) (hm : S.ReadableTo m)
    (hh : h < S.visitor.hosts) :
    min s.currentStop (s.stops h) = leading (fun i => S.visitor.hasFull i h) m := by
  have hge := hi.metadata_ge hm
  have hle := hi.stop_le h hh
  have hcount := hi.stop_le_count h
  have hmin : min s.currentStop (s.stops h) = min m (s.stops h) := by
    rw [SweepState.currentStop]
    rcases Nat.lt_or_ge m (s.stops h) with hgt | hsm
    · have := metadata_eq hi hfin hm (by omega) (by omega)
      omega
    · omega
  rw [hmin]
  refine (leading_eq (min_le_left ..) (fun i hlt => ?_) fun hlt => ?_).symm
  · have hhandled := handled_of_finished hi hfin hskip hm (h := h) (i := i) (by omega) hh
    cases hf : S.visitor.hasFull i h with
    | true => rfl
    | false =>
      have := hhandled.1 hf
      omega
  · have hs : min m (s.stops h) = s.stops h := by omega
    rw [hs]
    rcases hi.stop_real h with heq | ⟨-, -, hno⟩
    · have := hm.le
      omega
    · exact hno

theorem state_bits (hi : S.Inv s) (hfin : S.Finished s) (hskip : S.SkipsOk) (hm : S.ReadableTo m)
    (hh : h < S.visitor.hosts) (hlt : i < leading (fun i => S.visitor.hasFull i h) m) :
    (s.stateWords h).getBit i = S.visitor.hasState i h := by
  have him : i < m := hlt.trans_le (leading_le _ _)
  rw [← prefix_len hi hfin hskip hm hh] at hlt
  cases hst : S.visitor.hasState i h with
  | false =>
    cases hb : (s.stateWords h).getBit i with
    | false => rfl
    | true =>
      rw [hi.bit_real h i hb] at hst
      exact hst
  | true =>
    rcases (handled_of_finished hi hfin hskip hm him hh).2 hst with hb | hle
    · exact hb
    · omega

/-- A read error is reported exactly if it is the first key's or some host has no
gap before it. -/
def Reports (S : Sweep) (m : Nat) : Prop :=
  m < S.layout.keyCount ∧
    (m = 0 ∨ ∃ h < S.visitor.hosts, ∀ i < m, S.visitor.hasFull i h = true)

theorem result_of_metadata (hi : S.Inv s) (hlt : s.metadataStop < S.layout.keyCount)
    (hv : s.metadataStop < s.visitorStop) :
    S.result s = ⟨S.code s.metadataStop, s.currentStop⟩ := by
  rcases hi.metadata_real with heq | ⟨k, ec, hk⟩
  · omega
  · obtain ⟨hsucc, ht⟩ := hi.terminal_real k _ hk
    have hidx : s.metadataStop = S.layout.chunkBegin k + S.successfulCount k :=
      congrArg Prod.fst ht
    have hslot : S.layout.slotOf s.metadataStop = k :=
      S.layout.slotOf_eq (by omega) (by omega)
    have hec : ec = S.code s.metadataStop := by
      rw [hidx]
      exact congrArg Prod.snd ht
    simp [result, hlt, hv, hslot, hk, hec]

theorem result_reports (hr : S.machine.Reach anyAction s) (hfin : S.Finished s)
    (hskip : S.SkipsOk) (hm : S.ReadableTo m) (hrep : S.Reports m) :
    S.result s = ⟨S.code m, s.currentStop⟩ ∧ s.currentStop < S.layout.keyCount := by
  have hi := inv_reach hr
  obtain ⟨hlt, hcase⟩ := hrep
  have hv : m < s.visitorStop := by
    rcases hcase with rfl | ⟨h, hh, hall⟩
    · have h0 : S.successfulCount 0 = 0 :=
        leading_eq (Nat.zero_le _) (nofun)
          fun _ => decide_eq_false (by simpa [Layout.chunkBegin] using hm.stop hlt)
      rw [(unread_reach hr h0).1]
      exact hlt
    · -- a host without a gap before `m` cannot have stopped at `m`, which is unreadable
      have hlen := prefix_len hi hfin hskip hm hh
      rw [leading_eq (Nat.le_refl m) hall fun h => absurd h (Nat.lt_irrefl m)] at hlen
      have hne : s.stops h ≠ m := by
        intro heq
        rcases hi.stop_real h with hc | ⟨-, hcode, -⟩
        · omega
        · exact hm.stop hlt (heq ▸ hcode)
      have := hi.stop_le h hh
      omega
  have hmeta := metadata_eq hi hfin hm hlt hv
  refine ⟨?_, (min_le_left ..).trans_lt (hmeta ▸ hlt)⟩
  rw [← hmeta]
  exact result_of_metadata hi (hmeta ▸ hlt) (hmeta ▸ hv)

theorem result_ok (hr : S.machine.Reach anyAction s) (hfin : S.Finished s)
    (hskip : S.SkipsOk) (hm : S.ReadableTo m) (hrep : ¬S.Reports m) :
    S.result s = ⟨.ok, s.currentStop⟩ := by
  have hi := inv_reach hr
  have hge := hi.metadata_ge hm
  have hnot : ¬(s.metadataStop < s.visitorStop ∧ s.metadataStop < S.layout.keyCount) := by
    rintro ⟨hv, hlt⟩
    have hml : m < S.layout.keyCount := hge.trans_lt hlt
    have hpos : m ≠ 0 := fun h => hrep ⟨hml, .inl h⟩
    have h0 : 0 < S.successfulCount 0 :=
      lt_successfulCount hm S.layout.first_pos (by simpa [Layout.chunkBegin] using by omega)
    rcases fresh_reach hr h0 with hzero | ⟨k, hk, hph⟩
    · rcases hzero with hz | ⟨h, hh, hle⟩
      · omega
      · -- the host whose stop bounds `visitor_stop` has a gap before `m`
        refine hrep ⟨hml, .inr ⟨h, hh, fun i him => ?_⟩⟩
        cases hf : S.visitor.hasFull i h with
        | true => rfl
        | false =>
          have := (handled_of_finished hi hfin hskip hm him hh).1 hf
          omega
    · rw [hfin k hk] at hph
      exact hph.elim
  rw [result, if_neg (by simpa using hnot)]

end Finished

/-! ## Every request ends -/

def rank (S : Sweep) (k : Nat) : Phase → Nat
  | .waiting => S.visitor.hosts + 6 + (S.layout.chunkSize k + 1) * (2 * S.visitor.hosts + 4)
  | .checking i h => S.visitor.hosts + 4
      + (S.layout.chunkSize k - i) * (2 * S.visitor.hosts + 4) + (S.visitor.hosts - h)
  | .updating i h => S.visitor.hosts + 4
      + (S.layout.chunkSize k - i - 1) * (2 * S.visitor.hosts + 4) + (S.visitor.hosts + 1)
      + (S.visitor.hosts - h)
  | .loading h _ => 3 + (S.visitor.hosts - h)
  | .publishing _ => 2
  | .recording => 1
  | .finished => 0

def work (S : Sweep) (s : SweepState) : Nat :=
  ∑ k ∈ Finset.range S.layout.slotCount, S.rank k (s.chunks k)

theorem work_move {t : SweepState} (hk : k < S.layout.slotCount) (hch : t.chunks = s.chunks)
    (hlt : S.rank k p < S.rank k (s.chunks k)) : S.work (t.move k p) < S.work s := by
  refine Finset.sum_lt_sum (fun j _ => ?_) ⟨k, Finset.mem_range.mpr hk, ?_⟩
  · rcases eq_or_ne j k with rfl | hjk
    · rw [move_self]
      exact hlt.le
    · rw [move_of_ne _ _ hjk, hch]
  · rw [move_self]
    exact hlt

theorem rank_opened (S : Sweep) (k : Nat) : S.rank k (S.opened k) < S.rank k .waiting := by
  unfold opened
  split
  · simp only [rank]
    omega
  · have hle : (S.layout.chunkSize k - S.firstIndex k) * (2 * S.visitor.hosts + 4)
        ≤ S.layout.chunkSize k * (2 * S.visitor.hosts + 4) :=
      Nat.mul_le_mul_right _ (Nat.sub_le _ _)
    simp only [rank, Nat.add_mul (S.layout.chunkSize k) 1, Nat.sub_zero]
    omega

theorem step_work (h : S.step s k = some s') : S.work s' < S.work s := by
  obtain ⟨hk, hstep⟩ := stepOf_of_step h
  cases hstep with
  | skip hc _ _ | noMoreKeys hc _ | noHostNeeds hc _ | stopped hc _ hh _ | visit hc hh
  | allStopped hc _ | running hc _ _ | load hc hh _ | publish hc =>
    refine work_move hk rfl ?_
    simp only [hc, rank]
    omega
  | read hc _ _ =>
    refine work_move hk rfl ?_
    rw [hc]
    exact S.rank_opened k
  | @needed i h hc hi _ _ =>
    refine work_move hk rfl ?_
    have hsize := S.successfulCount_le k
    obtain ⟨c, hcs⟩ : ∃ c, S.layout.chunkSize k - i = c + 1 :=
      ⟨S.layout.chunkSize k - i - 1, by omega⟩
    simp only [hc, rank, hcs, Nat.add_sub_cancel, Nat.succ_mul]
    omega
  | nextKey hc _ =>
    refine work_move hk rfl ?_
    simp only [hc, rank, Nat.sub_sub]
    omega
  | record hc =>
    refine work_move hk ?_ ?_
    · unfold Sweep.record
      split <;> rfl
    · simp only [hc, rank]
      omega

theorem started_step (h0 : s.chunks 0 ≠ .waiting) (h : S.step s k = some s') :
    s'.chunks 0 ≠ .waiting := by
  obtain ⟨-, hstep⟩ := stepOf_of_step h
  have hkeep : ∀ (t : SweepState) (p : Phase), t.chunks = s.chunks → p ≠ .waiting →
      (t.move k p).chunks 0 ≠ .waiting := by
    intro t p ht hp
    rcases eq_or_ne 0 k with rfl | hk
    · rw [move_self]
      exact hp
    · rw [move_of_ne _ _ hk, ht]
      exact h0
  cases hstep with
  | read _ _ _ =>
    refine hkeep _ _ rfl ?_
    unfold opened
    split <;> simp
  | record _ =>
    refine hkeep _ _ ?_ (by simp)
    unfold Sweep.record
    split <;> rfl
  | _ => exact hkeep _ _ rfl (by simp)

theorem started_reach (h : S.machine.Reach anyAction s) :
    s.chunks 0 ≠ .waiting := by
  refine reach_inv h ?_ fun _ _ _ h0 hstep => started_step h0 hstep
  simp only [initial, update_self, opened]
  split <;> simp

theorem exists_step (h0 : s.chunks 0 ≠ .waiting) (hfin : ¬S.Finished s) :
    ∃ k s', S.step s k = some s' := by
  obtain ⟨k, hk, hne⟩ : ∃ k < S.layout.slotCount, s.chunks k ≠ .finished := by
    simpa [Finished] using hfin
  by_cases hz : s.chunks 0 = .finished
  · obtain ⟨s', hs'⟩ := Option.isSome_iff_exists.mp (step_isSome hk (.inr hz) hne h0)
    exact ⟨k, s', hs'⟩
  · obtain ⟨s', hs'⟩ := Option.isSome_iff_exists.mp (step_isSome S.slotCount_pos (.inl rfl) hz h0)
    exact ⟨0, s', hs'⟩

/-- From every state a request reaches, it comes to its end; no run is longer than
the work left (`step_work`). -/
theorem finishes (hr : S.machine.Reach anyAction s) :
    ∃ s', S.machine.Steps anyAction s s' ∧ S.Finished s' := by
  refine (exists_steps_of_lt S.work (P := S.machine.Reach anyAction)
    (Q := S.Finished) ?_ hr).imp fun s' h => ⟨h.1, h.2.2⟩
  intro s hr hfin
  obtain ⟨k, t, ht⟩ := exists_step (started_reach hr) hfin
  have hnext : S.machine.Steps anyAction s t := .single ⟨k, trivial, ht⟩
  exact ⟨t, hnext, hr.steps hnext, step_work ht⟩

end Sweep

end TairKvCache.HostMatch
