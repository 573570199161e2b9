import TairKvCache.Lib.Runs
import TairKvCache.Optimizer.LiteHitMarkers

/-!
# LiteHit is exact

A simulation between the replay core and the unbounded reference cache. The
entries of the core above the watermark are the blocks of the reference in the
same order, and the epoch of an entry's position is the time of its last access
(`Sim`). Advancing the watermark drops the expired blocks, committing a request
accesses its keys, and compaction changes nothing.

The deadline is computed in `int64_t` from a TTL of type `uint64_t`. `Fits`
says that this does not overflow; with a TTL of `2^63` or more it does
(`huge_ttl_misses`).
-/

namespace TairKvCache.Optimizer

open Lib List LiteHit

/-! ## Epochs -/

/-- The time of the last epoch that starts at or before a position. -/
def epochTime : List PositionEpoch → Nat → Option Int
  | [], _ => none
  | e :: es, p => (epochTime es p).or (if e.startPosition ≤ p then some e.timestampNs else none)

def EpochsSorted (es : List PositionEpoch) : Prop :=
  es.Pairwise fun a b => a.startPosition ≤ b.startPosition ∧ a.timestampNs < b.timestampNs

theorem epochTime_concat (es : List PositionEpoch) (e : PositionEpoch) (p : Nat) :
    epochTime (es ++ [e]) p =
      if e.startPosition ≤ p then some e.timestampNs else epochTime es p := by
  induction es with
  | nil => simp [epochTime]
  | cons x es ih =>
    rw [cons_append, epochTime, ih, epochTime]
    split_ifs <;> simp

variable {es : List PositionEpoch} {p : Nat} {α : Type} {capacity : Nat}

theorem epochTime_some {t : Int} (h : epochTime es p = some t) :
    ∃ e ∈ es, e.startPosition ≤ p ∧ e.timestampNs = t := by
  induction es with
  | nil => cases h
  | cons e es ih =>
    rw [epochTime, Option.or_eq_some_iff] at h
    rcases h with h | ⟨-, h⟩
    · obtain ⟨x, hx, hxp⟩ := ih h
      exact ⟨x, mem_cons_of_mem _ hx, hxp⟩
    · obtain ⟨hp, h⟩ := Option.ite_none_right_eq_some.mp h
      exact ⟨e, mem_cons_self, hp, Option.some.inj h⟩

theorem epochTime_none (h : epochTime es p = none) : ∀ e ∈ es, p < e.startPosition := by
  induction es with
  | nil => simp
  | cons e es ih =>
    rw [epochTime, Option.or_eq_none_iff] at h
    intro x hx
    rcases mem_cons.mp hx with rfl | hx
    · by_contra hle
      rw [if_pos (by omega)] at h
      cases h.2
    · exact ih h.1 x hx

/-- Popping the epochs up to a deadline: a position at or above the old
watermark stays above the new one exactly if its time is after the deadline. -/
theorem popEpochs_spec (size : Nat) (deadline : Int) {dead : Nat} (hsorted : EpochsSorted es)
    (hstart : ∀ e ∈ es, dead ≤ e.startPosition ∧ e.startPosition ≤ size + 1)
    (hdead : dead ≤ size + 1) : let r := popEpochs size deadline es dead
    r.1 <:+ es ∧ dead ≤ r.2 ∧ r.2 ≤ size + 1 ∧ (∀ e ∈ r.1, r.2 ≤ e.startPosition) ∧
      ∀ p t, p ≤ size → dead ≤ p → epochTime es p = some t →
        (r.2 ≤ p ↔ deadline < t) ∧ (r.2 ≤ p → epochTime r.1 p = some t) := by
  induction es generalizing dead with
  | nil => exact ⟨suffix_rfl, le_rfl, hdead, by simp [popEpochs], nofun⟩
  | cons e es ih =>
    have hcons := pairwise_cons.mp hsorted
    rw [popEpochs]
    by_cases hpop : e.timestampNs ≤ deadline
    · rw [if_pos hpop]
      have hnext : dead ≤ nextStart size es ∧ nextStart size es ≤ size + 1 ∧
          ∀ x ∈ es, nextStart size es ≤ x.startPosition := by
        cases es with
        | nil => exact ⟨hdead, le_rfl, by simp⟩
        | cons x es =>
          have hx := hstart x (by simp)
          refine ⟨hx.1, hx.2, fun y hy => ?_⟩
          rcases mem_cons.mp hy with rfl | hy
          · exact le_rfl
          · exact ((pairwise_cons.mp hcons.2).1 y hy).1
      obtain ⟨hsuff, hle, hmax, hall, hpos⟩ := ih hcons.2
        (fun x hx => ⟨hnext.2.2 x hx, (hstart x (mem_cons_of_mem _ hx)).2⟩) hnext.2.1
      refine ⟨hsuff.trans (suffix_cons _ _), hnext.1.trans hle, hmax, hall, ?_⟩
      intro p t hp hdp ht
      rw [epochTime, Option.or_eq_some_iff] at ht
      rcases ht with ht | ⟨hnone, ht⟩
      · obtain ⟨x, hx, hxp, -⟩ := epochTime_some ht
        exact hpos p t hp ((hnext.2.2 x hx).trans hxp) ht
      · -- a position of the popped epoch itself
        obtain ⟨-, ht⟩ := Option.ite_none_right_eq_some.mp ht
        have hlt : p < nextStart size es := by
          cases es with
          | nil => exact Nat.lt_succ_of_le hp
          | cons x es => exact epochTime_none hnone x mem_cons_self
        obtain rfl := Option.some.inj ht
        exact ⟨iff_of_false (by omega) (by omega), fun h => absurd h (by omega)⟩
    · rw [if_neg hpop]
      refine ⟨suffix_rfl, le_rfl, hdead, fun x hx => (hstart x hx).1, ?_⟩
      intro p t hp hdp ht
      obtain ⟨x, hx, -, rfl⟩ := epochTime_some ht
      have : e.timestampNs ≤ x.timestampNs := by
        rcases mem_cons.mp hx with rfl | hx
        · exact le_rfl
        · exact (hcons.1 x hx).2.le
      exact ⟨iff_of_true hdp (by omega), fun _ => ht⟩

theorem dedupEpochs_spec (es : List PositionEpoch) :
    (dedupEpochs es).Sublist es ∧ ∀ p, epochTime (dedupEpochs es) p = epochTime es p := by
  fun_induction dedupEpochs es with
  | case1 e e' es heq ih =>
    refine ⟨ih.1.cons _, fun p => ?_⟩
    rw [ih.2]
    simp only [epochTime, heq]
    cases epochTime es p with
    | some t => rfl
    | none => split_ifs <;> rfl
  | case2 e e' es hne ih =>
    refine ⟨ih.1.cons_cons _, fun p => ?_⟩
    simp only [epochTime, ih.2]
  | case3 es => exact ⟨List.Sublist.refl _, fun _ => rfl⟩

theorem epochTime_map {g : Nat → Nat} {q : Nat}
    (h : ∀ e ∈ es, g e.startPosition ≤ q ↔ e.startPosition ≤ p) :
    epochTime (es.map fun e => { e with startPosition := g e.startPosition }) q =
      epochTime es p := by
  induction es with
  | nil => rfl
  | cons e es ih =>
    rw [map_cons, epochTime, epochTime, ih fun x hx => h x (mem_cons_of_mem _ hx)]
    simp only [h e mem_cons_self]

/-! ## The simulation -/

variable {K : Type}

/-- An entry of the core and the block of the reference that it stands for. -/
def StandsFor (lh : LiteHit K) (e : K × Nat) (block : K × Int) : Prop :=
  e.1 = block.1 ∧ (0 < lh.ttlNs → epochTime lh.positionEpochs e.2 = some block.2)

structure Sim (lh : LiteHit K) (stack : LruStack K) (now : Int) : Prop where
  marked : lh.Marked
  dead_le : lh.deadBelowPosition ≤ lh.fenwick.size + 1
  same : List.Forall₂ (StandsFor lh) lh.alive stack
  epochs : EpochsSorted lh.positionEpochs
  starts : ∀ e ∈ lh.positionEpochs,
    lh.deadBelowPosition ≤ e.startPosition ∧ e.startPosition ≤ lh.fenwick.size + 1
  times : ∀ e ∈ lh.positionEpochs, e.timestampNs ≤ now

/-- The deadline of a request does not overflow. -/
def Fits (ttl : Nat) (now : Int) : Prop :=
  ttl = 0 ∨ (ttl : Int) < 2 ^ 63 ∧ -2 ^ 63 ≤ now - ttl ∧ now < 2 ^ 63

theorem Fits.deadline {ttl : Nat} {now : Int} (h : Fits ttl now) (hpos : 0 < ttl) :
    toInt64 (now - toInt64 ttl) = now - ttl := by
  obtain ⟨h1, h2, h3⟩ := h.resolve_left (by omega)
  have hself : ∀ x : Int, -2 ^ 63 ≤ x → x < 2 ^ 63 → toInt64 x = x := by
    intro x hlo hhi
    exact Int.bmod_eq_of_le (by norm_num; omega) (by norm_num; omega)
  rw [hself ttl (by omega) h1, hself _ h2 (by omega)]

theorem forall₂_of_mem {β : Type} {R S : α → β → Prop} {as : List α} {bs : List β}
    (h : List.Forall₂ R as bs) (hRS : ∀ a b, a ∈ as → R a b → S a b) : List.Forall₂ S as bs := by
  induction h with
  | nil => exact .nil
  | cons hab _ ih =>
    exact .cons (hRS _ _ mem_cons_self hab) (ih fun a b ha => hRS a b (mem_cons_of_mem _ ha))

variable {lh : LiteHit K} {stack : LruStack K} {now now' : Int}

theorem Sim.map_fst (h : Sim lh stack now) : lh.alive.map (·.1) = stack.map (·.1) := by
  have hmap : ∀ {as : List (K × Nat)} {bs : LruStack K},
      List.Forall₂ (StandsFor lh) as bs → as.map (·.1) = bs.map (·.1) := by
    intro as bs hs
    induction hs with
    | nil => rfl
    | cons hab _ ih => rw [map_cons, map_cons, hab.1, ih]
  exact hmap h.same

theorem Sim.advance (h : Sim lh stack now) (hle : now ≤ now') (hpos : 0 < lh.ttlNs)
    (hfits : Fits lh.ttlNs now') :
    Sim (lh.advanceTtlWatermark now') (expire lh.ttlNs now' stack) now' ∧
      (lh.advanceTtlWatermark now').ttlExpiredBlocks =
        lh.ttlExpiredBlocks + (stack.length - (expire lh.ttlNs now' stack).length : Nat) := by
  obtain ⟨hsuff, hdead, hmax, hstart, htime⟩ :=
    popEpochs_spec lh.fenwick.size (now' - lh.ttlNs) h.epochs h.starts h.dead_le
  rw [advanceTtlWatermark, hfits.deadline hpos]
  generalize popEpochs lh.fenwick.size (now' - lh.ttlNs) lh.positionEpochs lh.deadBelowPosition
    = popped at hsuff hdead hmax hstart htime ⊢
  have hbounds : ∀ e ∈ lh.alive, e.2 ≤ lh.fenwick.size ∧ lh.deadBelowPosition ≤ e.2 := by
    intro e he
    obtain ⟨hmem, hd⟩ := mem_filter.mp he
    exact ⟨(h.marked.bounds e hmem).2, by simpa using hd⟩
  have halive : lh.lastPositions.filter (popped.2 ≤ ·.2) = lh.alive.filter (popped.2 ≤ ·.2) := by
    rw [alive, filter_filter]
    refine filter_congr fun e _ => ?_
    simp only [Bool.and_eq_decide, decide_eq_true_eq, decide_eq_decide]
    omega
  have hsame : List.Forall₂
      (fun e b => e.1 = b.1 ∧ (0 < lh.ttlNs → epochTime popped.1 e.2 = some b.2))
      (lh.lastPositions.filter (popped.2 ≤ ·.2)) (expire lh.ttlNs now' stack) := by
    rw [halive, expire, if_neg (by omega)]
    have hin : List.Forall₂ (fun e b => StandsFor lh e b ∧ e.2 ≤ lh.fenwick.size ∧
        lh.deadBelowPosition ≤ e.2) lh.alive stack :=
      forall₂_of_mem h.same fun e b he hab => ⟨hab, hbounds e he⟩
    refine forall₂_of_mem (rel_filter ?_ hin) ?_
    · rintro e b ⟨hab, hsize, hd⟩
      have := (htime e.2 b.2 hsize hd (hab.2 hpos)).1
      simp only [decide_eq_true_eq, this]
      omega
    · rintro e b he ⟨hab, hsize, hd⟩
      have hd' := (mem_filter.mp he).2
      exact ⟨hab.1, fun _ => (htime e.2 b.2 hsize hd (hab.2 hpos)).2 (by simpa using hd')⟩
  refine ⟨⟨⟨h.marked.nodup, h.marked.desc, h.marked.bounds, h.marked.marks⟩, hmax, hsame,
    h.epochs.sublist hsuff.sublist, fun e he => ⟨hstart e he, (h.starts e (hsuff.subset he)).2⟩,
    fun e he => (h.times e (hsuff.subset he)).trans hle⟩, ?_⟩
  have hlen : lh.alive.length = stack.length := h.same.length_eq
  have hbelow := h.marked.below lh.deadBelowPosition
  have hbelow' := h.marked.below popped.2
  change _ = _ - (lh.alive.length : Int) at hbelow
  rw [hsame.length_eq] at hbelow'
  have halready : (if 1 < lh.deadBelowPosition then
      lh.fenwick.prefixSum (lh.deadBelowPosition - 1) else 0) =
      lh.fenwick.prefixSum (lh.deadBelowPosition - 1) := by
    by_cases h1 : 1 < lh.deadBelowPosition
    · rw [if_pos h1]
    · rw [if_neg h1, show lh.deadBelowPosition - 1 = 0 by omega, Fenwick.prefixSum, Nat.zero_min]
      rfl
  dsimp only
  rw [halready]
  split_ifs with hmoved
  · have hsub : (expire lh.ttlNs now' stack).length ≤ stack.length := by
      rw [← hsame.length_eq, halive, ← hlen]
      exact length_filter_le _ _
    omega
  · have hstill : (expire lh.ttlNs now' stack).length = stack.length := by
      rw [← hsame.length_eq, show popped.2 = lh.deadBelowPosition by omega]
      exact hlen
    omega

/-! ## Commits -/

/-- What only the watermark changes. -/
def Kept (lh lh' : LiteHit K) : Prop :=
  lh'.ttlNs = lh.ttlNs ∧ lh'.ttlExpiredBlocks = lh.ttlExpiredBlocks

/-- A request at the time of the last epoch joins it; a later one begins an
epoch of its own. -/
theorem Sim.pushEpoch_cases (h : Sim lh stack now) :
    (lh.pushEpoch now = lh ∧ ∃ es e, lh.positionEpochs = es ++ [e] ∧ e.timestampNs = now) ∨
      lh.pushEpoch now =
          { lh with positionEpochs := lh.positionEpochs ++ [⟨lh.fenwick.size + 1, now⟩] } ∧
        ∀ e ∈ lh.positionEpochs, e.timestampNs < now := by
  rw [pushEpoch]
  cases hlast : lh.positionEpochs.getLast? with
  | none =>
    rw [getLast?_eq_none_iff.mp hlast]
    exact Or.inr ⟨rfl, by simp⟩
  | some e =>
    obtain ⟨es, hes⟩ := getLast?_eq_some_iff.mp hlast
    have hle := h.times e (by rw [hes]; simp)
    simp only [Option.map_some, Option.getD_some, max_eq_left hle, Option.some.injEq]
    by_cases heq : e.timestampNs = now
    · exact Or.inl ⟨if_pos heq, es, e, hes, heq⟩
    · refine Or.inr ⟨if_neg heq, fun x hx => ?_⟩
      have hsorted := h.epochs
      rw [EpochsSorted, hes, pairwise_append] at hsorted
      rw [hes, mem_append, mem_singleton] at hx
      rcases hx with hx | rfl
      · have := (hsorted.2.2 x hx e (mem_singleton_self _)).2
        omega
      · omega

theorem Sim.pushEpoch (h : Sim lh stack now) :
    Sim (lh.pushEpoch now) stack now ∧ Kept lh (lh.pushEpoch now) ∧
      (lh.pushEpoch now).fenwick = lh.fenwick ∧
      ∀ p, lh.fenwick.size < p → epochTime (lh.pushEpoch now).positionEpochs p = some now := by
  rcases h.pushEpoch_cases with ⟨heq, es, e, hes, he⟩ | ⟨heq, hlt⟩
  · rw [heq]
    refine ⟨h, ⟨rfl, rfl⟩, rfl, fun p hp => ?_⟩
    have := (h.starts e (by rw [hes]; simp)).2
    rw [hes, epochTime_concat, if_pos (by omega), he]
  · rw [heq]
    refine ⟨⟨⟨h.marked.nodup, h.marked.desc, h.marked.bounds, h.marked.marks⟩, h.dead_le,
      forall₂_of_mem h.same fun e b he hab => ⟨hab.1, fun hpos => ?_⟩, ?_, ?_, ?_⟩, ⟨rfl, rfl⟩, rfl, ?_⟩
    · have := (h.marked.bounds e (mem_of_mem_filter he)).2
      show epochTime (lh.positionEpochs ++ _) e.2 = _
      rw [epochTime_concat, if_neg (by dsimp only; omega), hab.2 hpos]
    · refine pairwise_append.mpr ⟨h.epochs, pairwise_singleton _ _, fun x hx y hy => ?_⟩
      rw [mem_singleton.mp hy]
      exact ⟨(h.starts x hx).2, hlt x hx⟩
    · intro x hx
      rcases mem_append.mp hx with hx | hx
      · exact h.starts x hx
      · rw [mem_singleton.mp hx]
        exact ⟨h.dead_le, le_rfl⟩
    · intro x hx
      rcases mem_append.mp hx with hx | hx
      · exact h.times x hx
      · rw [mem_singleton.mp hx]
    · intro p hp
      show epochTime (lh.positionEpochs ++ _) p = _
      rw [epochTime_concat, if_pos (Nat.succ_le_of_lt hp)]

theorem forall₂_numbered (keys : List K) (start : Nat)
    (h : ∀ p, start < p → 0 < lh.ttlNs → epochTime lh.positionEpochs p = some now) :
    List.Forall₂ (StandsFor lh) (numbered start keys) (keys.map (·, now)) := by
  induction keys with
  | nil => exact .nil
  | cons key keys ih => exact .cons ⟨rfl, h _ (by dsimp only; omega)⟩ ih

section

variable [DecidableEq K]

theorem Sim.commit (h : Sim lh stack now) (keys : List K) :
    Sim (lh.commitRequest keys now) (keys.foldr (touch none now) stack) now ∧
      Kept lh (lh.commitRequest keys now) := by
  rw [commitRequest]
  by_cases hnil : keys = []
  · subst hnil
    exact ⟨h, rfl, rfl⟩
  rw [if_neg hnil]
  obtain ⟨lh', hlh', h', hkept, htime⟩ : ∃ lh',
      (if 0 < lh.ttlNs then lh.pushEpoch now else lh) = lh' ∧ Sim lh' stack now ∧ Kept lh lh' ∧
        ∀ p, lh'.fenwick.size < p → 0 < lh'.ttlNs →
          epochTime lh'.positionEpochs p = some now := by
    by_cases hpos : 0 < lh.ttlNs
    · obtain ⟨hsim, hkept, hfen, htime⟩ := h.pushEpoch
      exact ⟨_, if_pos hpos, hsim, hkept, fun p hp _ => htime p (hfen ▸ hp)⟩
    · exact ⟨lh, if_neg hpos, h, ⟨rfl, rfl⟩, fun p _ hp => absurd hp hpos⟩
  rw [hlh']
  obtain ⟨f, hsize, heq, hmarked⟩ := foldl_removeMarker h'.marked (firstOccurrences keys)
  dsimp only
  rw [heq] at hmarked ⊢
  have hnew : ∀ k ∈ firstOccurrences keys,
      k ∉ (lh'.lastPositions.filter (·.1 ∉ firstOccurrences keys)).map (·.1) := by
    intro k hk hmem
    obtain ⟨e, he, rfl⟩ := mem_map.mp hmem
    exact absurd hk (by simpa using (mem_filter.mp he).2)
  obtain ⟨g, hsize', heq', hmarked'⟩ := appendMarkers_spec hmarked
    (nodup_firstOccurrences keys) hnew
  rw [heq'] at hmarked' ⊢
  dsimp only at hsize' hmarked' ⊢
  rw [hsize] at hsize' hmarked' ⊢
  refine ⟨⟨hmarked', ?_, ?_, h'.epochs, ?_, h'.times⟩, hkept⟩
  · have := h'.dead_le
    dsimp only
    omega
  · have hfilter : lh'.lastPositions.filter (·.1 ∉ firstOccurrences keys) =
        lh'.lastPositions.filter (·.1 ∉ keys) := by simp only [mem_firstOccurrences]
    have habove : (numbered lh'.fenwick.size (firstOccurrences keys)).filter
        (lh'.deadBelowPosition ≤ ·.2) = numbered lh'.fenwick.size (firstOccurrences keys) := by
      refine filter_eq_self.mpr fun e he => ?_
      have := (mem_numbered he).1
      have := h'.dead_le
      simp only [decide_eq_true_eq]
      omega
    rw [foldr_touch, alive]
    dsimp only
    rw [filter_append, habove, hfilter, filter_filter]
    refine rel_append (forall₂_numbered _ _ htime) ?_
    have hswap : (lh'.lastPositions.filter fun e =>
        decide (lh'.deadBelowPosition ≤ e.2) && decide (e.1 ∉ keys)) =
        lh'.alive.filter (·.1 ∉ keys) := by
      rw [alive, filter_filter]
      exact filter_congr fun e _ => Bool.and_comm _ _
    rw [hswap]
    exact rel_filter (fun e b hab => by simp only [hab.1]) h'.same
  · intro e he
    have := h'.starts e he
    dsimp only
    exact ⟨this.1, by omega⟩

end

/-! ## Compaction -/

/-- The sorted survivors are the alive entries from the last one up. -/
theorem Sim.ordered (h : Sim lh stack now) :
    lh.alive.mergeSort (fun a b => a.2 ≤ b.2) = lh.alive.reverse := by
  have hdesc : lh.alive.reverse.Pairwise fun a b => a.2 < b.2 :=
    pairwise_reverse.mpr (h.marked.desc.filter _)
  have hnodup : (lh.alive.reverse.map (·.2)).Nodup :=
    pairwise_map.mpr (hdesc.imp fun hlt => hlt.ne)
  have hsorted : (lh.alive.mergeSort fun a b => a.2 ≤ b.2).Pairwise fun a b => a.2 ≤ b.2 := by
    refine (pairwise_mergeSort ?_ ?_ lh.alive).imp fun hab => of_decide_eq_true hab
    · simp only [decide_eq_true_eq]
      omega
    · simp only [Bool.or_eq_true, decide_eq_true_eq]
      omega
  refine List.Perm.eq_of_pairwise ?_ hsorted (hdesc.imp Nat.le_of_lt)
    ((mergeSort_perm _ _).trans (reverse_perm _).symm)
  intro a b ha hb hab hba
  have ha := mem_reverse.mpr ((mergeSort_perm _ _).mem_iff.mp ha)
  exact inj_on_of_nodup_map hnodup ha hb (le_antisymm hab hba)

/-- The remapped boundary is at or below an entry's new position exactly if it
was at or below the old one. -/
theorem remapBoundary_le {above below : List (K × Nat)} {e : K × Nat} {s : Nat}
    (hbelow : ∀ x ∈ below, x.2 < e.2) :
    remapBoundary (above ++ e :: below).reverse s ≤ below.length + 1 ↔ s ≤ e.2 := by
  rw [remapBoundary, reverse_append, reverse_cons, append_assoc, Nat.add_le_add_iff_right]
  constructor
  · intro hlen
    by_contra hlt
    have hall : ∀ x ∈ below.reverse, decide (x.2 < s) = true := fun x hx => by
      have := hbelow x (mem_reverse.mp hx)
      simp only [decide_eq_true_eq]
      omega
    rw [takeWhile_append_of_pos hall, singleton_append,
      takeWhile_cons_of_pos (by simpa using hlt)] at hlen
    simp at hlen
  · intro hle
    rw [singleton_append, takeWhile_append]
    split_ifs
    · rw [takeWhile_cons_of_neg (by simpa using hle), append_nil, length_reverse]
    · exact (takeWhile_sublist _).length_le.trans (length_reverse).le

def remapped (lh : LiteHit K) : List PositionEpoch :=
  dedupEpochs (lh.positionEpochs.map fun e =>
    { e with startPosition := remapBoundary lh.alive.reverse e.startPosition })

theorem epochTime_remapped (h : Sim lh stack now) {above below : List (K × Nat)} {e : K × Nat}
    (hsplit : lh.alive = above ++ e :: below) :
    epochTime (remapped lh) (below.length + 1) = epochTime lh.positionEpochs e.2 := by
  have hdesc : lh.alive.Pairwise (·.2 > ·.2) := h.marked.desc.filter _
  rw [hsplit, pairwise_append, pairwise_cons] at hdesc
  rw [remapped, (dedupEpochs_spec _).2]
  refine epochTime_map fun x _ => ?_
  rw [hsplit]
  exact remapBoundary_le hdesc.2.1.1

theorem remapped_sorted (h : Sim lh stack now) : EpochsSorted (remapped lh) := by
  refine List.Pairwise.sublist (dedupEpochs_spec _).1 (pairwise_map.mpr ?_)
  refine h.epochs.imp fun {a b} hab => ⟨Nat.succ_le_succ ?_, hab.2⟩
  refine takeWhile_length_mono (fun e he => ?_) _
  simp only [decide_eq_true_eq] at he ⊢
  omega

theorem mem_remapped {x : PositionEpoch} (hx : x ∈ remapped lh) :
    ∃ e ∈ lh.positionEpochs, x.timestampNs = e.timestampNs ∧
      1 ≤ x.startPosition ∧ x.startPosition ≤ lh.alive.length + 1 := by
  obtain ⟨e, he, rfl⟩ := mem_map.mp ((dedupEpochs_spec _).1.subset hx)
  refine ⟨e, he, rfl, Nat.succ_pos _, Nat.succ_le_succ ?_⟩
  exact (takeWhile_sublist _).length_le.trans length_reverse.le

theorem remapBoundary_dead : remapBoundary lh.alive.reverse lh.deadBelowPosition = 1 := by
  rw [remapBoundary, takeWhile_eq_nil_iff.mpr]
  · rfl
  · intro hlen
    have := (mem_filter.mp (mem_reverse.mp (getElem_mem hlen))).2
    simpa using this

theorem Sim.compact (h : Sim lh stack now) :
    Sim lh.compact stack now ∧ Kept lh lh.compact := by
  obtain ⟨dead, hdead, hle⟩ : ∃ dead, (if 0 < lh.deadBelowPosition then
      remapBoundary lh.alive.reverse lh.deadBelowPosition
      else lh.deadBelowPosition) = dead ∧ dead ≤ 1 := by
    by_cases h0 : 0 < lh.deadBelowPosition
    · exact ⟨1, (if_pos h0).trans remapBoundary_dead, le_rfl⟩
    · exact ⟨_, if_neg h0, by omega⟩
  have hempty : ({ lh with
      fenwick := .empty, lastPositions := [], positionEpochs := remapped lh,
      deadBelowPosition := dead } : LiteHit K).Marked :=
    ⟨nodup_nil, List.Pairwise.nil, by simp, Fenwick.represents_empty _⟩
  obtain ⟨f, hsize, heq, hmarked⟩ := appendMarkers_spec hempty
    (h.marked.nodup.sublist (filter_sublist.map _)) (by simp)
  have hcompact : lh.compact = { lh with
      fenwick := f, lastPositions := numbered 0 (lh.alive.map (·.1)),
      positionEpochs := remapped lh, deadBelowPosition := dead } := by
    rw [LiteHit.compact, h.ordered, reverse_reverse, hdead]
    exact heq.trans (by rw [append_nil]; rfl)
  rw [heq] at hmarked
  dsimp only at hmarked hsize
  rw [append_nil] at hmarked
  have hlen : f.size = lh.alive.length := by
    rw [hsize, length_map]
    exact Nat.zero_add _
  rw [hcompact]
  refine ⟨⟨hmarked, ?_, ?_, remapped_sorted h, ?_, ?_⟩, rfl, rfl⟩
  · dsimp only
    omega
  · have hall : (numbered 0 (lh.alive.map (·.1))).filter (dead ≤ ·.2) =
        numbered 0 (lh.alive.map (·.1)) := by
      refine filter_eq_self.mpr fun e he => ?_
      have := (mem_numbered he).1
      simp only [decide_eq_true_eq]
      omega
    show List.Forall₂ _ ((numbered 0 (lh.alive.map (·.1))).filter (dead ≤ ·.2)) stack
    rw [hall]
    -- over the suffixes of the alive entries
    suffices hsuffix : ∀ above l bs, lh.alive = above ++ l → List.Forall₂ (StandsFor lh) l bs →
        List.Forall₂ (StandsFor { lh with
          fenwick := f, lastPositions := numbered 0 (lh.alive.map (·.1)),
          positionEpochs := remapped lh, deadBelowPosition := dead })
          (numbered 0 (l.map (·.1))) bs from hsuffix [] _ _ rfl h.same
    intro above l bs hsplit hl
    induction hl generalizing above with
    | nil => exact .nil
    | @cons e b l bs hab _ ih =>
      refine .cons ⟨hab.1, fun hpos => ?_⟩ (ih (above ++ [e]) (by simp [hsplit]))
      show epochTime (remapped lh) (0 + (l.map (·.1)).length + 1) = _
      rw [Nat.zero_add, length_map, epochTime_remapped h hsplit]
      exact hab.2 hpos
  · intro x hx
    obtain ⟨-, -, -, hlo, hhi⟩ := mem_remapped hx
    dsimp only
    omega
  · intro x hx
    obtain ⟨e, he, hxe, -⟩ := mem_remapped hx
    exact hxe ▸ h.times e he

/-! ## Requests -/

variable [DecidableEq K]

omit [DecidableEq K] in
theorem Sim.maybeCompact (h : Sim lh stack now) :
    Sim lh.maybeCompactPositions stack now ∧ Kept lh lh.maybeCompactPositions := by
  rw [maybeCompactPositions]
  split_ifs
  · exact ⟨h, rfl, rfl⟩
  · exact ⟨h, rfl, rfl⟩
  · exact h.compact

theorem Sim.request {r : LruReference K} (h : Sim lh r.stack now) (hle : now ≤ now')
    (hfits : Fits lh.ttlNs now') (keys : List K) : (lh.processRequest keys now').1 =
        ⟨curveLoop (depthOf ((expire lh.ttlNs now' r.stack).map (·.1))) 0 0 [] keys⟩ ∧
      Sim (lh.processRequest keys now').2 (r.request lh.ttlNs none keys now').2.stack now' ∧
      (lh.processRequest keys now').2.ttlNs = lh.ttlNs ∧
      (lh.processRequest keys now').2.ttlExpiredBlocks - lh.ttlExpiredBlocks =
        (r.request lh.ttlNs none keys now').2.expired - (r.expired : Int) := by
  obtain ⟨lh', hlh', hsim, httl, hexp⟩ : ∃ lh',
      (if 0 < lh.ttlNs then lh.advanceTtlWatermark now' else lh) = lh' ∧
        Sim lh' (expire lh.ttlNs now' r.stack) now' ∧ lh'.ttlNs = lh.ttlNs ∧
        lh'.ttlExpiredBlocks = lh.ttlExpiredBlocks +
          (r.stack.length - (expire lh.ttlNs now' r.stack).length : Nat) := by
    by_cases hpos : 0 < lh.ttlNs
    · obtain ⟨hsim, hexp⟩ := h.advance hle hpos hfits
      exact ⟨_, if_pos hpos, hsim, rfl, hexp⟩
    · have hself : expire lh.ttlNs now' r.stack = r.stack := if_pos (by omega)
      rw [hself]
      exact ⟨lh, if_neg hpos, ⟨h.marked, h.dead_le, h.same, h.epochs, h.starts,
        fun e he => (h.times e he).trans hle⟩, rfl, by simp⟩
  have hproc : lh.processRequest keys now' =
      (lh'.buildHitCurve keys, (lh'.commitRequest keys now').maybeCompactPositions) := by
    rw [processRequest, hlh']
  obtain ⟨hcommitted, hcommit, hcommit'⟩ := hsim.commit keys
  obtain ⟨hdone, hkept⟩ := hcommitted.maybeCompact
  have hreq : lh'.required = depthOf ((expire lh.ttlNs now' r.stack).map (·.1)) :=
    funext fun key => (hsim.marked.required key).trans (by rw [hsim.map_fst])
  rw [hproc]
  refine ⟨by rw [buildHitCurve, hreq], hdone, hkept.1.trans (hcommit.trans httl), ?_⟩
  rw [hkept.2, hcommit', hexp]
  show _ = ((r.expired + (r.stack.length - (expire lh.ttlNs now' r.stack).length) : Nat) : Int) - _
  omega

/-! ## Replays -/

/-- For each request its fact and, after it, `current_unique_blocks` and
`ttl_expired_blocks`. -/
def LiteHit.replay : LiteHit K → List (List K × Int) → List (RequestFact × Int × Int)
  | _, [] => []
  | lh, q :: qs =>
    let r := lh.processRequest q.1 q.2
    (r.1, r.2.aliveMarkerCount, r.2.ttlExpiredBlocks) :: replay r.2 qs

/-- For each request the leading keys found and, after it, the blocks in the
cache and those expired so far. -/
def LruReference.replay (ttl : Nat) (capacity : Option Nat) :
    LruReference K → List (List K × Int) → List (Nat × Int × Int)
  | _, [] => []
  | r, q :: qs =>
    let s := r.request ttl capacity q.1 q.2
    (s.1, s.2.stack.length, s.2.expired) :: replay ttl capacity s.2 qs

variable {r v : LruReference K} {requests : List (List K × Int)}

theorem Sim.replay_counts (h : Sim lh r.stack now) (hexp : lh.ttlExpiredBlocks = r.expired)
    (hmono : requests.Pairwise (·.2 ≤ ·.2)) (hle : ∀ q ∈ requests, now ≤ q.2)
    (hfits : ∀ q ∈ requests, Fits lh.ttlNs q.2) :
    (lh.replay requests).map (·.2) = (r.replay lh.ttlNs none requests).map (·.2) := by
  induction requests generalizing lh r now with
  | nil => rfl
  | cons q qs ih =>
    rw [pairwise_cons] at hmono
    obtain ⟨-, hsim, httl, hgrow⟩ := h.request (hle q mem_cons_self)
      (hfits q mem_cons_self) q.1
    have hexp' : (lh.processRequest q.1 q.2).2.ttlExpiredBlocks =
        (r.request lh.ttlNs none q.1 q.2).2.expired := by omega
    have hrest := ih hsim hexp' hmono.2 hmono.1
      (httl.symm ▸ fun x hx => hfits x (mem_cons_of_mem _ hx))
    rw [replay, LruReference.replay, map_cons, map_cons, hrest, httl, hexp',
      hsim.marked.aliveMarkerCount, hsim.same.length_eq]

/-- The projection of one request, with the keys in any order. -/
theorem Sim.request_le (h : Sim lh r.stack now) (hord : Ordered r.stack now) (hle : now ≤ now')
    (hfits : Fits lh.ttlNs now') (hv : v.stack = r.stack.take capacity) (keys : List K) :
    projectBlocks (lh.processRequest keys now').1 capacity ≤
      (v.request lh.ttlNs (some capacity) keys now').1 := by
  rw [(h.request hle hfits keys).1, (take_request hord hle hv lh.ttlNs keys).1]
  have hempty : CurveUpTo [] 0 := ⟨.nil, by simp⟩
  refine (curveLoop_le capacity _ hempty keys).trans ?_
  rw [projectCurve, Nat.zero_add]

theorem Sim.request_eq (h : Sim lh r.stack now) (hord : Ordered r.stack now) (hle : now ≤ now')
    (hfits : Fits lh.ttlNs now') (hv : v.stack = r.stack.take capacity) {pre : K → List K}
    (hchain : Chained pre (r.stack.map (·.1))) {keys : List K} (hkeys : Prefixed pre keys) :
    projectBlocks (lh.processRequest keys now').1 capacity =
      (v.request lh.ttlNs (some capacity) keys now').1 := by
  rw [(h.request hle hfits keys).1, (take_request hord hle hv lh.ttlNs keys).1]
  refine (curveLoop_eq capacity _ ⟨.nil, by simp⟩ keys ?_).trans ?_
  · exact (hchain.expire hord.sorted lh.ttlNs now').deeper hkeys
  · rw [projectCurve, Nat.zero_add]

theorem Sim.replay_projections (h : Sim lh r.stack now) (hord : Ordered r.stack now)
    (hmono : requests.Pairwise (·.2 ≤ ·.2)) (hle : ∀ q ∈ requests, now ≤ q.2)
    (hfits : ∀ q ∈ requests, Fits lh.ttlNs q.2) (hv : v.stack = r.stack.take capacity) :
    List.Forall₂ (fun f o => projectBlocks f.1 capacity ≤ o.1) (lh.replay requests)
        (v.replay lh.ttlNs (some capacity) requests) ∧
      ∀ pre : K → List K, Chained pre (r.stack.map (·.1)) → (∀ q ∈ requests, Prefixed pre q.1) →
        (lh.replay requests).map (projectBlocks ·.1 capacity) =
          (v.replay lh.ttlNs (some capacity) requests).map (·.1) := by
  induction requests generalizing lh r v now with
  | nil => exact ⟨.nil, fun _ _ _ => rfl⟩
  | cons q qs ih =>
    rw [pairwise_cons] at hmono
    have hq := hle q mem_cons_self
    have hfit := hfits q mem_cons_self
    obtain ⟨-, hsim, httl, -⟩ := h.request hq hfit q.1
    obtain ⟨hrest, hchained⟩ := ih hsim ((hord.expire hq lh.ttlNs).touch q.1) hmono.2 hmono.1
      (httl.symm ▸ fun x hx => hfits x (mem_cons_of_mem _ hx))
      (take_request hord hq hv lh.ttlNs q.1).2
    rw [httl] at hrest hchained
    refine ⟨.cons (h.request_le hord hq hfit hv q.1) hrest, fun pre hchain hpre => ?_⟩
    have hkeys := hpre q mem_cons_self
    rw [replay, LruReference.replay, map_cons, map_cons,
      hchained pre ((hchain.expire hord.sorted lh.ttlNs q.2).touch hkeys q.2)
        fun x hx => hpre x (mem_cons_of_mem _ hx),
      h.request_eq hord hq hfit hv hchain hkeys]

omit [DecidableEq K] in
theorem sim_initial (ttl : Nat) (now : Int) : Sim ({ ttlNs := ttl } : LiteHit K) [] now :=
  ⟨⟨nodup_nil, .nil, by simp, Fenwick.represents_empty _⟩, Nat.zero_le _, .nil, .nil,
    by simp, by simp⟩

/-- With deadlines that do not overflow the core is exact: its projections are
what a cache of any capacity finds if each key always has the same prefix, and
never more in general, and its counts are those of the cache without a
capacity. -/
theorem replay_exact (ttl : Nat) (requests : List (List K × Int))
    (hmono : requests.Pairwise (·.2 ≤ ·.2)) (hfits : ∀ q ∈ requests, Fits ttl q.2) :
    ((replay { ttlNs := ttl } requests).map (·.2) =
        (LruReference.replay ttl none {} requests).map (·.2)) ∧
      ∀ capacity,
        List.Forall₂ (fun f o => projectBlocks f.1 capacity ≤ o.1)
            (replay { ttlNs := ttl } requests)
            (LruReference.replay ttl (some capacity) {} requests) ∧
          ((∃ pre, ∀ q ∈ requests, Prefixed pre q.1) →
            (replay { ttlNs := ttl } requests).map (projectBlocks ·.1 capacity) =
              (LruReference.replay ttl (some capacity) {} requests).map (·.1)) := by
  obtain ⟨now, hnow⟩ : ∃ now, ∀ q ∈ requests, now ≤ q.2 := by
    cases requests with
    | nil => exact ⟨0, by simp⟩
    | cons q qs =>
      refine ⟨q.2, fun x hx => ?_⟩
      rcases mem_cons.mp hx with rfl | hx
      · exact le_rfl
      · exact (pairwise_cons.mp hmono).1 x hx
  have hsim := sim_initial (K := K) ttl now
  have hord : Ordered ([] : LruStack K) now := ⟨nodup_nil, .nil, by simp⟩
  refine ⟨hsim.replay_counts (r := {}) rfl hmono hnow hfits, fun capacity => ?_⟩
  obtain ⟨hbelow, hequal⟩ := hsim.replay_projections (r := {}) (v := {}) hord hmono hnow hfits
    (take_nil (i := capacity)).symm
  refine ⟨hbelow, fun ⟨pre, hpre⟩ => hequal pre ?_ hpre⟩
  intro l k r hsplit
  simp at hsplit

/-- Two requests with a TTL of ten nanoseconds; the second one is in time. -/
theorem replay_exact_ten :
    (replay { ttlNs := 10 } [([1, 2], 0), ([1, 2, 3], 9)]).map (projectBlocks ·.1 2) =
      (LruReference.replay 10 (some 2) {} [([1, 2], 0), ([1, 2, 3], 9)]).map (·.1) := by
  refine ((replay_exact 10 [([1, 2], 0), ([1, 2, 3], 9)] (by simp) ?_).2 2).2
    ⟨fun k => (List.range k).tail, ?_⟩
  · intro q hq
    simp only [mem_cons, not_mem_nil, or_false] at hq
    rcases hq with rfl | rfl <;> exact Or.inr (by norm_num)
  · intro q hq
    simp only [mem_cons, not_mem_nil, or_false] at hq
    rcases hq with rfl | rfl <;> exact prefixed_iff.mpr (by decide)

/-- A TTL of ten thousand million seconds lets every block expire at once. -/
theorem huge_ttl_misses :
    ((replay { ttlNs := 10 ^ 19 } [([1], 0), ([1], 1)]).map (projectBlocks ·.1 1) =
        [0, 0]) ∧
      (LruReference.replay (10 ^ 19) (some 1) {} [([1], 0), ([1], 1)]).map (·.1) = [0, 1] := by
  decide +kernel

end TairKvCache.Optimizer
