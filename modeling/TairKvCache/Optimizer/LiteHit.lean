import TairKvCache.Lib.Fenwick

/-!
# LiteHit

The replay core of `optimizer/liteHit`. It keeps for each block the position
of its last access and marks these positions in a Fenwick tree; the marks
above a block's own are the blocks accessed since, so a cache of one block more
holds it. A request yields the capacities from which on each further block of
its prefix is a hit, run-length encoded. With a TTL, the positions of an
expired request lie below a watermark.
-/

namespace TairKvCache.Optimizer

open Lib List

/-! ## Hit curves -/

structure HitCurveSegment where
  startRequiredBlocks : Nat
  runLength : Nat
deriving DecidableEq, Repr

structure RequestFact where
  hitCurve : List HitCurveSegment := []
deriving DecidableEq, Repr

/-- The loop of `ProjectBlocks`. -/
def projectCurve (capacity : Nat) : List HitCurveSegment → Nat
  | [] => 0
  | s :: rest =>
    if capacity < s.startRequiredBlocks then 0
    else min s.runLength (capacity - s.startRequiredBlocks + 1) + projectCurve capacity rest

def projectBlocks (fact : RequestFact) (capacity : Nat) : Nat := projectCurve capacity fact.hitCurve

/-- One more threshold at the end of a curve. -/
def pushThreshold (curve : List HitCurveSegment) (threshold : Nat) : List HitCurveSegment :=
  match curve.getLast? with
  | some back =>
    if back.startRequiredBlocks + back.runLength = threshold then
      curve.dropLast ++ [{ back with runLength := back.runLength + 1 }]
    else curve ++ [⟨threshold, 1⟩]
  | none => curve ++ [⟨threshold, 1⟩]

/-- The second loop of `BuildHitCurve`; `required` gives the snapshot entries. -/
def curveLoop {K : Type} (required : K → Option Nat) :
    Nat → Nat → List HitCurveSegment → List K → List HitCurveSegment
  | _, _, curve, [] => curve
  | prefixRequired, lastEncoded, curve, key :: rest =>
    match required key with
    | none => curve
    | some blocks =>
      let prefixRequired' := max prefixRequired blocks
      let threshold := max prefixRequired' (lastEncoded + 1)
      curveLoop required prefixRequired' threshold (pushThreshold curve threshold) rest

/-! ## The core -/

structure PositionEpoch where
  startPosition : Nat
  timestampNs : Int
deriving DecidableEq, Repr

/-- `lastPositions` lists the entries of the table, last access first. -/
structure LiteHit (K : Type) where
  ttlNs : Nat
  fenwick : Fenwick := .empty
  lastPositions : List (K × Nat) := []
  positionEpochs : List PositionEpoch := []
  deadBelowPosition : Nat := 0
  ttlExpiredBlocks : Int := 0

/-- A value as `int64_t`. -/
def toInt64 (x : Int) : Int := x.bmod (2 ^ 64)

def kCompactionSlackPositions : Nat := 4096

/-- Each key at its first occurrence. -/
def firstOccurrences {K : Type} [DecidableEq K] : List K → List K
  | [] => []
  | key :: rest => key :: (firstOccurrences rest).filter (· ≠ key)

/-- The watermark in front of the remaining epochs. -/
def nextStart (size : Nat) (epochs : List PositionEpoch) : Nat :=
  (epochs.head?.map (·.startPosition)).getD (size + 1)

/-- The loop of `AdvanceTtlWatermark`: the remaining epochs and the watermark. -/
def popEpochs (size : Nat) (deadline : Int) : List PositionEpoch → Nat → List PositionEpoch × Nat
  | [], dead => ([], dead)
  | e :: es, dead =>
    if e.timestampNs ≤ deadline then popEpochs size deadline es (nextStart size es)
    else (e :: es, dead)

/-- Of epochs with one start only the last is kept. -/
def dedupEpochs : List PositionEpoch → List PositionEpoch
  | e :: e' :: es =>
    if e.startPosition = e'.startPosition then dedupEpochs (e' :: es)
    else e :: dedupEpochs (e' :: es)
  | es => es

namespace LiteHit

variable {K : Type} [DecidableEq K] (lh : LiteHit K)

def advanceTtlWatermark (now : Int) : LiteHit K :=
  let deadline := toInt64 (now - toInt64 lh.ttlNs)
  let popped := popEpochs lh.fenwick.size deadline lh.positionEpochs lh.deadBelowPosition
  let alreadyDead :=
    if 1 < lh.deadBelowPosition then lh.fenwick.prefixSum (lh.deadBelowPosition - 1) else 0
  { lh with
    positionEpochs := popped.1
    deadBelowPosition := popped.2
    ttlExpiredBlocks :=
      if lh.deadBelowPosition < popped.2 then
        lh.ttlExpiredBlocks + (lh.fenwick.prefixSum (popped.2 - 1) - alreadyDead)
      else lh.ttlExpiredBlocks }

def reuseDistance (position : Nat) : Int :=
  lh.fenwick.prefixSum lh.fenwick.size - lh.fenwick.prefixSum position

/-- The snapshot entry of a key: the blocks a cache must hold for a hit. -/
def required (key : K) : Option Nat :=
  match lh.lastPositions.lookup key with
  | some position =>
    if lh.deadBelowPosition ≤ position then some (lh.reuseDistance position + 1).toNat else none
  | none => none

def buildHitCurve (keys : List K) : RequestFact := ⟨curveLoop lh.required 0 0 [] keys⟩

def pushEpoch (now : Int) : LiteHit K :=
  let epoch := (lh.positionEpochs.getLast?.map fun e => max now e.timestampNs).getD now
  if lh.positionEpochs.getLast?.map (·.timestampNs) = some epoch then lh
  else
    { lh with positionEpochs := lh.positionEpochs ++ [⟨lh.fenwick.size + 1, epoch⟩] }

def removeMarker (key : K) : LiteHit K :=
  match lh.lastPositions.lookup key with
  | some position =>
    { lh with
      fenwick := lh.fenwick.add position (-1)
      lastPositions := lh.lastPositions.filter (·.1 ≠ key) }
  | none => lh

def appendMarker (key : K) : LiteHit K :=
  let grown := lh.fenwick.appendZero
  { lh with
    fenwick := grown.add grown.size 1
    lastPositions := (key, grown.size) :: lh.lastPositions }

/-- Markers in the order of the list, the first one last. -/
def appendMarkers (keys : List K) : LiteHit K := keys.foldr (fun key lh => lh.appendMarker key) lh

def commitRequest (keys : List K) (now : Int) : LiteHit K :=
  if keys = [] then lh
  else
    let lh := if 0 < lh.ttlNs then lh.pushEpoch now else lh
    ((firstOccurrences keys).foldl removeMarker lh).appendMarkers (firstOccurrences keys)

def aliveMarkerCount : Int :=
  let total := lh.fenwick.prefixSum lh.fenwick.size
  if lh.deadBelowPosition ≤ 1 then total
  else total - lh.fenwick.prefixSum (lh.deadBelowPosition - 1)

def alive : List (K × Nat) := lh.lastPositions.filter (lh.deadBelowPosition ≤ ·.2)

/-- `remap_boundary`: a lower bound in the sorted positions. -/
def remapBoundary (ordered : List (K × Nat)) (position : Nat) : Nat :=
  (ordered.takeWhile (·.2 < position)).length + 1

def compact : LiteHit K :=
  let ordered := lh.alive.mergeSort fun a b => a.2 ≤ b.2
  { lh with
    fenwick := .empty
    lastPositions := []
    positionEpochs := dedupEpochs (lh.positionEpochs.map fun e =>
      { e with startPosition := remapBoundary ordered e.startPosition })
    deadBelowPosition :=
      if 0 < lh.deadBelowPosition then remapBoundary ordered lh.deadBelowPosition
      else lh.deadBelowPosition : LiteHit K }.appendMarkers (ordered.reverse.map (·.1))

def maybeCompactPositions : LiteHit K :=
  if lh.fenwick.size ≤ kCompactionSlackPositions then lh
  else if ((lh.fenwick.size - kCompactionSlackPositions + 1) / 2 : Nat) ≤ lh.aliveMarkerCount then lh
  else lh.compact

def processRequest (keys : List K) (now : Int) : RequestFact × LiteHit K :=
  let lh := if 0 < lh.ttlNs then lh.advanceTtlWatermark now else lh
  (lh.buildHitCurve keys, (lh.commitRequest keys now).maybeCompactPositions)

end LiteHit

/-! ## What a curve projects to -/

variable (capacity : Nat) {curve : List HitCurveSegment}

/-- The starts of a curve grow, and the last threshold is `last`. -/
structure CurveUpTo (curve : List HitCurveSegment) (last : Nat) : Prop where
  sorted : curve.Pairwise (·.startRequiredBlocks ≤ ·.startRequiredBlocks)
  le : ∀ s ∈ curve, s.startRequiredBlocks ≤ last

/-- A last segment counts for itself: the loop does not stop before it where
it would count. -/
theorem projectCurve_concat {s : HitCurveSegment}
    (h : ∀ x ∈ curve, x.startRequiredBlocks ≤ s.startRequiredBlocks) :
    projectCurve capacity (curve ++ [s]) = projectCurve capacity curve +
      if s.startRequiredBlocks ≤ capacity then
        min s.runLength (capacity - s.startRequiredBlocks + 1) else 0 := by
  induction curve with
  | nil =>
    simp only [nil_append, projectCurve]
    split_ifs <;> omega
  | cons x curve ih =>
    have hx := h x mem_cons_self
    rw [cons_append, projectCurve, projectCurve, ih fun y hy => h y (mem_cons_of_mem _ hy)]
    split_ifs <;> omega

theorem pushThreshold_spec {last threshold : Nat} (h : CurveUpTo curve last)
    (hlt : last < threshold) : CurveUpTo (pushThreshold curve threshold) threshold ∧
      projectCurve capacity (pushThreshold curve threshold) =
        projectCurve capacity curve + if threshold ≤ capacity then 1 else 0 := by
  have hnew : CurveUpTo (curve ++ [⟨threshold, 1⟩]) threshold ∧
      projectCurve capacity (curve ++ [⟨threshold, 1⟩]) =
        projectCurve capacity curve + if threshold ≤ capacity then 1 else 0 := by
    have hle : ∀ x ∈ curve, x.startRequiredBlocks ≤ threshold := fun x hx =>
      (h.le x hx).trans hlt.le
    refine ⟨⟨pairwise_append.mpr ⟨h.sorted, pairwise_singleton _ _, fun x hx y hy => ?_⟩,
      fun x hx => ?_⟩, ?_⟩
    · rw [mem_singleton.mp hy]
      exact hle x hx
    · rcases mem_append.mp hx with hx | hx
      · exact hle x hx
      · rw [mem_singleton.mp hx]
    · rw [projectCurve_concat capacity hle]
      split_ifs <;> simp
  rw [pushThreshold]
  cases hback : curve.getLast? with
  | none => exact hnew
  | some back =>
    obtain ⟨front, rfl⟩ : ∃ front, curve = front ++ [back] :=
      getLast?_eq_some_iff.mp hback
    by_cases heq : back.startRequiredBlocks + back.runLength = threshold
    · -- the run of the last segment grows by one
      have hsorted := pairwise_append.mp h.sorted
      have hfront : ∀ x ∈ front, x.startRequiredBlocks ≤ back.startRequiredBlocks := fun x hx =>
        hsorted.2.2 x hx back (mem_singleton_self _)
      simp only [if_pos heq, dropLast_concat]
      refine ⟨⟨pairwise_append.mpr ⟨hsorted.1, pairwise_singleton _ _,
        fun x hx y hy => ?_⟩, fun x hx => ?_⟩, ?_⟩
      · rw [mem_singleton.mp hy]
        exact hfront x hx
      · rcases mem_append.mp hx with hx | hx
        · exact (h.le x (mem_append_left _ hx)).trans hlt.le
        · rw [mem_singleton.mp hx, ← heq]
          exact Nat.le_add_right ..
      · rw [projectCurve_concat capacity (s := ⟨back.startRequiredBlocks, back.runLength + 1⟩)
          hfront, projectCurve_concat capacity hfront]
        dsimp only
        split_ifs <;> omega
    · simp only [if_neg heq]
      exact hnew

section

variable {K : Type} (required : K → Option Nat)

/-- The leading keys that a cache of `capacity` blocks holds. -/
def leading : List K → Nat
  | [] => 0
  | key :: rest => if (required key).any (· ≤ capacity) then leading rest + 1 else 0

theorem curveLoop_done {prefixRequired last : Nat} (hcurve : CurveUpTo curve last)
    (hlast : capacity ≤ last) (keys : List K) :
    projectCurve capacity (curveLoop required prefixRequired last curve keys) =
      projectCurve capacity curve := by
  induction keys generalizing prefixRequired last curve with
  | nil => rfl
  | cons key keys ih =>
    rw [curveLoop]
    cases required key with
    | none => rfl
    | some blocks =>
      have hlt : last < max (max prefixRequired blocks) (last + 1) := by omega
      obtain ⟨hcurve', hproj⟩ := pushThreshold_spec capacity hcurve hlt
      exact (ih hcurve' (by omega)).trans (by rw [hproj, if_neg (by omega), Nat.add_zero])

theorem curveLoop_le {prefixRequired last : Nat} (hcurve : CurveUpTo curve last) (keys : List K) :
    projectCurve capacity (curveLoop required prefixRequired last curve keys) ≤
      projectCurve capacity curve + leading capacity required keys := by
  induction keys generalizing prefixRequired last curve with
  | nil => exact Nat.le_add_right ..
  | cons key keys ih =>
    rw [curveLoop, leading]
    cases required key with
    | none => exact Nat.le_add_right ..
    | some blocks =>
      have hlt : last < max (max prefixRequired blocks) (last + 1) := by omega
      obtain ⟨hcurve', hproj⟩ := pushThreshold_spec capacity hcurve hlt
      by_cases hcap : max (max prefixRequired blocks) (last + 1) ≤ capacity
      · refine (ih hcurve').trans ?_
        rw [hproj, if_pos hcap, if_pos (by simp; omega)]
        omega
      · refine (curveLoop_done capacity required hcurve' (by omega) keys).le.trans ?_
        rw [hproj, if_neg hcap]
        exact Nat.le_add_right ..

/-- Where each key needs more blocks than those before it, every threshold is
what its key needs. -/
theorem curveLoop_eq {last : Nat} (hcurve : CurveUpTo curve last) (keys : List K)
    (hgrow : ∀ l k r, keys = l ++ k :: r → ∀ blocks, required k = some blocks →
      last < blocks ∧ ∀ j ∈ l, ∀ b, required j = some b → b < blocks) :
    projectCurve capacity (curveLoop required last last curve keys) =
      projectCurve capacity curve + leading capacity required keys := by
  induction keys generalizing last curve with
  | nil => rfl
  | cons key keys ih =>
    rw [curveLoop, leading]
    cases hreq : required key with
    | none => rfl
    | some blocks =>
      have hlt := (hgrow [] key keys rfl blocks hreq).1
      obtain ⟨hcurve', hproj⟩ := pushThreshold_spec capacity hcurve hlt
      simp only [show max last blocks = blocks by omega,
        show max blocks (last + 1) = blocks by omega]
      by_cases hcap : blocks ≤ capacity
      · rw [ih hcurve' fun l k r hkeys b hb => ?_, hproj, if_pos hcap, if_pos (by simpa using hcap)]
        · omega
        · have := (hgrow (key :: l) k r (by rw [hkeys, cons_append]) b hb).2
          exact ⟨this key mem_cons_self blocks hreq, fun j hj =>
            this j (mem_cons_of_mem _ hj)⟩
      · rw [curveLoop_done capacity required hcurve' (by omega), hproj, if_neg hcap,
          if_neg (by simpa using hcap)]

/-! ## Run-length encoding -/

/-- The thresholds of the loop of `BuildHitCurve`, one by one. -/
def thresholds : Nat → Nat → List K → List Nat
  | _, _, [] => []
  | prefixRequired, last, key :: rest =>
    match required key with
    | none => []
    | some blocks =>
      let threshold := max (max prefixRequired blocks) (last + 1)
      threshold :: thresholds (max prefixRequired blocks) threshold rest

def HitCurveSegment.expand (s : HitCurveSegment) : List Nat :=
  range' s.startRequiredBlocks s.runLength

theorem expand_pushThreshold (curve : List HitCurveSegment) (threshold : Nat) :
    (pushThreshold curve threshold).flatMap HitCurveSegment.expand =
      curve.flatMap HitCurveSegment.expand ++ [threshold] := by
  rw [pushThreshold]
  cases hback : curve.getLast? with
  | none => simp [HitCurveSegment.expand]
  | some back =>
    obtain ⟨front, rfl⟩ : ∃ front, curve = front ++ [back] := getLast?_eq_some_iff.mp hback
    dsimp only
    split_ifs with heq
    · simp [HitCurveSegment.expand, range'_1_concat, heq]
    · simp [HitCurveSegment.expand]

theorem expand_curveLoop (prefixRequired last : Nat) (curve : List HitCurveSegment)
    (keys : List K) :
    (curveLoop required prefixRequired last curve keys).flatMap HitCurveSegment.expand =
      curve.flatMap HitCurveSegment.expand ++ thresholds required prefixRequired last keys := by
  induction keys generalizing prefixRequired last curve with
  | nil => simp [curveLoop, thresholds]
  | cons key keys ih =>
    rw [curveLoop, thresholds]
    cases required key with
    | none => simp
    | some blocks => simp [ih, expand_pushThreshold]

theorem thresholds_sorted (prefixRequired last : Nat) (keys : List K) :
    (last :: thresholds required prefixRequired last keys).Pairwise (· < ·) := by
  induction keys generalizing prefixRequired last with
  | nil => simp [thresholds]
  | cons key keys ih =>
    rw [thresholds]
    cases required key with
    | none => simp
    | some blocks =>
      have hlt : last < max (max prefixRequired blocks) (last + 1) := by omega
      have hrest := ih (max prefixRequired blocks) (max (max prefixRequired blocks) (last + 1))
      refine pairwise_cons.mpr ⟨fun t ht => ?_, hrest⟩
      rcases mem_cons.mp ht with rfl | ht
      · exact hlt
      · exact hlt.trans ((pairwise_cons.mp hrest).1 t ht)

theorem projectCurve_curveLoop {prefixRequired last : Nat} (hcurve : CurveUpTo curve last)
    (keys : List K) :
    projectCurve capacity (curveLoop required prefixRequired last curve keys) =
      projectCurve capacity curve +
        (thresholds required prefixRequired last keys).countP (· ≤ capacity) := by
  induction keys generalizing prefixRequired last curve with
  | nil => rfl
  | cons key keys ih =>
    rw [curveLoop, thresholds]
    cases required key with
    | none => rfl
    | some blocks =>
      have hlt : last < max (max prefixRequired blocks) (last + 1) := by omega
      obtain ⟨hcurve', hproj⟩ := pushThreshold_spec capacity hcurve hlt
      rw [ih hcurve', hproj, countP_cons]
      simp only [decide_eq_true_eq]
      omega

end

/-- A curve encodes the capacities from which on the blocks of the prefix are
hits, which grow strictly, and `ProjectBlocks` counts them off the encoding. -/
theorem hitCurve_lossless {K : Type} [DecidableEq K] (lh : LiteHit K) (keys : List K) :
    (lh.buildHitCurve keys).hitCurve.flatMap HitCurveSegment.expand =
        thresholds lh.required 0 0 keys ∧
      (thresholds lh.required 0 0 keys).Pairwise (· < ·) ∧
      ∀ capacity, projectBlocks (lh.buildHitCurve keys) capacity =
        (thresholds lh.required 0 0 keys).countP (· ≤ capacity) := by
  refine ⟨?_, (pairwise_cons.mp (thresholds_sorted lh.required 0 0 keys)).2, fun capacity => ?_⟩
  · exact (expand_curveLoop lh.required 0 0 [] keys).trans (nil_append _)
  · have hempty : CurveUpTo [] 0 := ⟨.nil, by simp⟩
    exact (projectCurve_curveLoop capacity lh.required hempty keys).trans (Nat.zero_add _)

end TairKvCache.Optimizer
