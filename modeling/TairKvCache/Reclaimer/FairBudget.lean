import Mathlib

/-!
# Fair budgets

`CacheReclaimer::AllocateFairBudget` divides a budget by weight: everyone gets
the floor of the exact share, and the units that are left go to the largest
remainders, ties by instance id. The share of an instance depends on the set
of instances only (`shareOf`), not on the order in which they come.
-/

namespace TairKvCache.Reclaimer

open List

variable {I : Type}

/-- `instanceId` is `instance_ids[index]`. -/
structure RemainderEntry (I : Type) where
  index : Nat
  instanceId : I
  remainder : Nat

def RemainderEntry.before [LinearOrder I] (a b : RemainderEntry I) : Prop :=
  b.remainder < a.remainder ∨ a.remainder = b.remainder ∧
    (a.instanceId < b.instanceId ∨ a.instanceId = b.instanceId ∧ a.index < b.index)

instance [LinearOrder I] (a b : RemainderEntry I) : Decidable (a.before b) :=
  inferInstanceAs (Decidable (_ ∨ _ ∧ (_ ∨ _ ∧ _)))

def kUint128Max : Nat := 2 ^ 128 - 1

def kSizeMax : Nat := 2 ^ 64 - 1

def totalWeight : List Nat → Nat → Option Nat
  | [], total => some total
  | weight :: rest, total =>
    if kUint128Max - weight < total then none else totalWeight rest (total + weight)

/-- The loop over the weights: the floors, and the remainders of the weights
that are not zero. -/
def floorLoop (budget total : Nat) :
    Nat → List (I × Nat) → Nat → Option (List Nat × List (RemainderEntry I))
  | _, [], _ => some ([], [])
  | i, (id, weight) :: rest, allocated =>
    if weight = 0 then
      (floorLoop budget total (i + 1) rest allocated).map fun r => (0 :: r.1, r.2)
    else
      let numerator := budget * weight % 2 ^ 128
      let quotient := numerator / total
      if kSizeMax < quotient then none
      else if budget - allocated < quotient then none
      else (floorLoop budget total (i + 1) rest (allocated + quotient)).map fun r =>
        (quotient :: r.1, ⟨i, id, numerator % total⟩ :: r.2)

def allocateFairBudget [LinearOrder I] (totalBudget : Nat) (weights : List Nat)
    (instanceIds : List I) : Option (List Nat) :=
  if weights.length ≠ instanceIds.length then none
  else if totalBudget = 0 then some (weights.map fun _ => 0)
  else do
    let total ← totalWeight weights 0
    if total = 0 then none
    else
      let (allocations, remainders) ← floorLoop totalBudget total 0 (instanceIds.zip weights) 0
      let unallocated := totalBudget - allocations.sum
      if remainders.length < unallocated then none
      else
        let sorted := remainders.mergeSort fun a b => ¬ b.before a
        some ((sorted.take unallocated).foldl (fun out e => out.modify e.index (· + 1)) allocations)

/-! ## Sorting -/

def RemainderEntry.key (a : RemainderEntry I) : Natᵒᵈ ×ₗ (I ×ₗ Nat) :=
  toLex (OrderDual.toDual a.remainder, toLex (a.instanceId, a.index))

theorem RemainderEntry.before_iff [LinearOrder I] (a b : RemainderEntry I) :
    a.before b ↔ a.key < b.key := by
  rw [before, key, key, Prod.Lex.toLex_lt_toLex, Prod.Lex.toLex_lt_toLex]
  simp

/-- The sort puts entries of distinct indices into the order. -/
theorem pairwise_sorted [LinearOrder I] {l : List (RemainderEntry I)} (h : (l.map (·.index)).Nodup) :
    (l.mergeSort fun a b => ¬ b.before a).Pairwise fun a b => a.key < b.key := by
  have hle : ∀ a b : RemainderEntry I, decide (¬ b.before a) = decide (a.key ≤ b.key) := by
    intro a b
    exact decide_eq_decide.mpr ((not_congr (b.before_iff a)).trans not_lt)
  have hweak : (l.mergeSort fun a b => ¬ b.before a).Pairwise fun a b => a.key ≤ b.key := by
    simp only [hle]
    refine (pairwise_mergeSort ?_ ?_ l).imp fun hab => of_decide_eq_true hab
    · simp only [decide_eq_true_eq]
      exact fun _ _ _ => le_trans
    · simp only [Bool.or_eq_true, decide_eq_true_eq]
      exact fun a b => le_total a.key b.key
  have hne : (l.mergeSort fun a b => ¬ b.before a).Pairwise fun a b => a.index ≠ b.index :=
    pairwise_map.mp (((mergeSort_perm l _).map _).nodup_iff.mpr h)
  refine (hweak.and hne).imp fun hab => lt_of_le_of_ne hab.1 fun heq => hab.2 ?_
  exact congrArg (fun k => (ofLex (ofLex k).2).2) heq

/-- In a sorted list an element is among the first `n` exactly if fewer than
`n` come before it. -/
theorem mem_take_iff {O : Type} [LinearOrder O] {key : I → O} {l : List I}
    (hl : l.Pairwise fun a b => key a < key b) {a : I} (ha : a ∈ l) (n : Nat) :
    a ∈ l.take n ↔ l.countP (key · < key a) < n := by
  obtain ⟨l₁, l₂, rfl⟩ := append_of_mem ha
  rw [pairwise_append, pairwise_cons] at hl
  have habove : ∀ x ∈ l₁, key x < key a := fun x hx => hl.2.2 x hx a mem_cons_self
  have hcount : (l₁ ++ a :: l₂).countP (key · < key a) = l₁.length := by
    rw [countP_append, countP_cons, countP_eq_length.mpr (by simpa using habove),
      countP_eq_zero.mpr (by simpa using fun x hx => (hl.2.1.1 x hx).le)]
    simp
  rw [hcount, take_append, mem_append]
  constructor
  · rintro (h | h)
    · exact absurd (habove a (mem_of_mem_take h)) (lt_irrefl _)
    · by_contra hle
      rw [Nat.sub_eq_zero_of_le (by omega), take_zero] at h
      cases h
  · intro hlt
    refine .inr ?_
    rw [show n - l₁.length = n - l₁.length - 1 + 1 by omega, take_succ_cons]
    exact mem_cons_self

/-! ## The loops -/

theorem totalWeight_eq {weights : List Nat} {total : Nat} (h : total + weights.sum ≤ kUint128Max) :
    totalWeight weights total = some (total + weights.sum) := by
  induction weights generalizing total with
  | nil => rfl
  | cons w ws ih =>
    rw [sum_cons] at h ⊢
    rw [totalWeight, if_neg (by omega), ih (by omega), Nat.add_assoc]

section

variable (budget : Nat) (entries : List (I × Nat))

def weightSum : Nat := (entries.map (·.2)).sum

def floorOf (e : I × Nat) : Nat := budget * e.2 / weightSum entries

def remOf (e : I × Nat) : Nat := budget * e.2 % weightSum entries

/-- The remainder entries of a list whose first index is `i`. -/
def entriesFrom (i : Nat) (l : List (I × Nat)) : List (RemainderEntry I) :=
  (l.zipIdx i).filterMap fun p =>
    if p.1.2 = 0 then none else some ⟨p.2, p.1.1, remOf budget entries p.1⟩

def unallocated : Nat := budget - (entries.map (floorOf budget entries)).sum

theorem floorLoop_eq (hbudget : budget < 2 ^ 64) {l : List (I × Nat)} (hw : ∀ e ∈ l, e.2 < 2 ^ 64)
    (i : Nat) {allocated : Nat} (h : allocated + (l.map (floorOf budget entries)).sum ≤ budget) :
    floorLoop budget (weightSum entries) i l allocated =
      some (l.map (floorOf budget entries), entriesFrom budget entries i l) := by
  induction l generalizing i allocated with
  | nil => rfl
  | cons e l ih =>
    obtain ⟨id, w⟩ := e
    rw [map_cons, sum_cons] at h
    have hl := fun x hx => hw x (mem_cons_of_mem _ hx)
    have hlt : budget * w < 2 ^ 128 := by
      have := hw _ mem_cons_self
      calc budget * w < 2 ^ 64 * 2 ^ 64 := Nat.mul_lt_mul'' hbudget this
        _ = 2 ^ 128 := by norm_num
    rw [floorLoop, entriesFrom, zipIdx_cons, filterMap_cons]
    by_cases hzero : w = 0
    · rw [if_pos hzero, ih hl _ (by omega)]
      simp [hzero, floorOf, entriesFrom]
    · rw [if_neg hzero, Nat.mod_eq_of_lt hlt]
      have hq : budget * w / weightSum entries = floorOf budget entries (id, w) := rfl
      have hsize : ¬ kSizeMax < floorOf budget entries (id, w) := by
        rw [kSizeMax]
        omega
      dsimp only
      rw [hq, if_neg hsize, if_neg (by omega), ih hl _ (by omega)]
      simp [hzero, entriesFrom, remOf]

/-! ## Sums -/

theorem sum_floor_rem (l : List (I × Nat)) :
    weightSum entries * (l.map (floorOf budget entries)).sum + (l.map (remOf budget entries)).sum =
      budget * (l.map (·.2)).sum := by
  induction l with
  | nil => simp
  | cons e l ih =>
    have := Nat.div_add_mod (budget * e.2) (weightSum entries)
    simp only [map_cons, sum_cons, Nat.mul_add, floorOf, remOf] at ih ⊢
    omega

variable {entries}

theorem sum_rem_le (htotal : 0 < weightSum entries) (l : List (I × Nat)) :
    (l.map (remOf budget entries)).sum ≤
      weightSum entries * l.countP (0 < remOf budget entries ·) := by
  induction l with
  | nil => simp
  | cons e l ih =>
    have := Nat.mod_lt (budget * e.2) htotal
    rw [map_cons, sum_cons, countP_cons, Nat.mul_add]
    by_cases hpos : 0 < remOf budget entries e
    · simp only [hpos, decide_true, if_true]
      rw [remOf]
      omega
    · simp only [hpos, decide_false]
      omega

theorem sum_floor_le (htotal : 0 < weightSum entries) :
    (entries.map (floorOf budget entries)).sum ≤ budget := by
  have hsum := sum_floor_rem budget entries entries
  change _ = budget * weightSum entries at hsum
  refine Nat.le_of_mul_le_mul_left ?_ htotal
  rw [Nat.mul_comm (weightSum entries) budget, ← hsum]
  exact Nat.le_add_right ..

/-- There are enough instances with a remainder for what is left. -/
theorem unallocated_le (htotal : 0 < weightSum entries) :
    unallocated budget entries ≤ entries.countP (0 < remOf budget entries ·) := by
  have hsum := sum_floor_rem budget entries entries
  change _ = budget * weightSum entries at hsum
  refine Nat.le_of_mul_le_mul_left ((sum_rem_le budget htotal entries).trans' ?_) htotal
  rw [unallocated, Nat.mul_sub, Nat.mul_comm (weightSum entries) budget]
  omega

variable (entries)

/-! ## Entries -/

theorem countP_zipIdx (l : List (I × Nat)) (q : I × Nat → Bool) :
    l.zipIdx.countP (q ·.1) = l.countP q := by
  conv_rhs => rw [← zipIdx_map_fst 0 l, countP_map]
  rfl

theorem mem_entriesFrom {i : Nat} {l : List (I × Nat)} {r : RemainderEntry I} :
    r ∈ entriesFrom budget entries i l ↔ ∃ e, (e, r.index) ∈ l.zipIdx i ∧ e.2 ≠ 0 ∧
      r = ⟨r.index, e.1, remOf budget entries e⟩ := by
  rw [entriesFrom, mem_filterMap]
  constructor
  · rintro ⟨⟨e, j⟩, hmem, h⟩
    obtain ⟨hne, h⟩ := Option.ite_none_left_eq_some.mp h
    obtain rfl := Option.some.inj h
    exact ⟨e, hmem, hne, rfl⟩
  · rintro ⟨e, hmem, hne, hr⟩
    exact ⟨(e, r.index), hmem, by rw [if_neg hne, ← hr]⟩

theorem nodup_entriesFrom (i : Nat) (l : List (I × Nat)) :
    ((entriesFrom budget entries i l).map (·.index)).Nodup := by
  have hsub : ((entriesFrom budget entries i l).map (·.index)).Sublist ((l.zipIdx i).map (·.2)) := by
    rw [entriesFrom]
    induction l.zipIdx i with
    | nil => exact .slnil
    | cons p ps ih =>
      rw [filterMap_cons, map_cons]
      by_cases hp : p.1.2 = 0
      · rw [if_pos hp]
        exact ih.cons _
      · rw [if_neg hp]
        exact ih.cons_cons _
  refine hsub.nodup ?_
  simpa using nodup_range'

theorem getElem?_foldl_modify (es : List (RemainderEntry I)) (out : List Nat) (j : Nat) :
    (es.foldl (fun out e => out.modify e.index (· + 1)) out)[j]? =
      out[j]?.map (· + (es.map (·.index)).count j) := by
  induction es generalizing out with
  | nil => simp
  | cons e es ih =>
    rw [foldl_cons, ih, getElem?_modify, map_cons, count_cons]
    cases out[j]? with
    | none => rfl
    | some n =>
      by_cases hj : e.index = j
      · simp [hj]
        omega
      · simp [hj]

theorem sum_modify_succ {out : List Nat} {i : Nat} (h : i < out.length) :
    (out.modify i (· + 1)).sum = out.sum + 1 := by
  induction out generalizing i with
  | nil => cases h
  | cons n out ih =>
    cases i with
    | zero => simp; omega
    | succ i =>
      rw [modify_succ_cons, sum_cons, sum_cons, ih (Nat.lt_of_succ_lt_succ h)]
      omega

theorem sum_foldl_modify {es : List (RemainderEntry I)} {out : List Nat}
    (h : ∀ e ∈ es, e.index < out.length) :
    (es.foldl (fun out e => out.modify e.index (· + 1)) out).sum = out.sum + es.length := by
  induction es generalizing out with
  | nil => rfl
  | cons e es ih =>
    rw [foldl_cons, ih fun x hx => ?_, sum_modify_succ (h e mem_cons_self), length_cons]
    · omega
    · rw [length_modify]
      exact h x (mem_cons_of_mem _ hx)

variable {budget entries}

/-- The bounds of the source's types: `size_t` and `uint64_t`. -/
structure InRange (budget : Nat) (entries : List (I × Nat)) : Prop where
  budget : budget < 2 ^ 64
  weights : ∀ e ∈ entries, e.2 < 2 ^ 64
  length : entries.length < 2 ^ 64

theorem InRange.total_le (h : InRange budget entries) : weightSum entries ≤ kUint128Max := by
  have hsum : (entries.map (·.2)).sum ≤ (entries.map (·.2)).length • (2 ^ 64 - 1) := by
    refine sum_le_card_nsmul _ _ fun w hw => ?_
    obtain ⟨e, he, rfl⟩ := mem_map.mp hw
    have := h.weights e he
    omega
  rw [length_map, smul_eq_mul] at hsum
  have hlen := Nat.mul_le_mul_right (2 ^ 64 - 1) h.length.le
  rw [weightSum, kUint128Max]
  omega

theorem unallocated_le_length (htotal : 0 < weightSum entries) :
    unallocated budget entries ≤ (entriesFrom budget entries 0 entries).length := by
  rw [entriesFrom, length_filterMap_eq_countP]
  refine (unallocated_le budget htotal).trans ?_
  rw [← countP_zipIdx entries]
  refine countP_mono_left fun p _ hpos => ?_
  have hne : p.1.2 ≠ 0 := by
    rintro h0
    simp [remOf, h0] at hpos
  simp [hne]

end

variable [LinearOrder I] (budget : Nat) (entries : List (I × Nat))

/-! ## Shares -/

/-- An instance that comes before another one when the rest is handed out. -/
def ComesBefore (x e : I × Nat) : Prop :=
  remOf budget entries e < remOf budget entries x ∨
    remOf budget entries x = remOf budget entries e ∧ x.1 < e.1

instance (x e : I × Nat) : Decidable (ComesBefore budget entries x e) :=
  inferInstanceAs (Decidable (_ ∨ _ ∧ _))

def shareOf (e : I × Nat) : Nat :=
  floorOf budget entries e + if e.2 ≠ 0 ∧
    entries.countP (fun x => x.2 ≠ 0 ∧ ComesBefore budget entries x e) < unallocated budget entries
  then 1 else 0

def rank (e : I × Nat) : Nat :=
  entries.countP fun x => x.2 ≠ 0 ∧ ComesBefore budget entries x e

def taken : List (RemainderEntry I) :=
  ((entriesFrom budget entries 0 entries).mergeSort fun a b => ¬ b.before a).take
    (unallocated budget entries)

variable {budget entries}

theorem countP_entriesFrom (hids : (entries.map (·.1)).Nodup) {e : I × Nat} {j : Nat}
    (hj : (e, j) ∈ entries.zipIdx) : (entriesFrom budget entries 0 entries).countP
        (·.key < RemainderEntry.key ⟨j, e.1, remOf budget entries e⟩) = rank budget entries e := by
  rw [entriesFrom, countP_filterMap, rank, ← countP_zipIdx entries]
  refine countP_congr fun ⟨x, i⟩ hx => ?_
  -- an id stands at one place only
  have hsame : x.1 = e.1 → i = j := by
    intro heq
    rw [mem_zipIdx_iff_getElem?] at hx hj
    obtain ⟨hi, -⟩ := List.getElem?_eq_some_iff.mp hx
    refine (getElem?_inj (by simpa using hi) hids).mp ?_
    rw [getElem?_map, getElem?_map, hx, hj, Option.map_some, Option.map_some, heq]
  by_cases hzero : x.2 = 0
  · simp [hzero]
  · have := RemainderEntry.before_iff ⟨i, x.1, remOf budget entries x⟩
      ⟨j, e.1, remOf budget entries e⟩
    simp only [hzero, if_false, Option.map_some, Option.getD_some, decide_eq_true_eq, ← this,
      RemainderEntry.before, ComesBefore, ne_eq, not_false_eq_true, true_and]
    refine or_congr_right (and_congr_right fun _ => or_iff_left ?_)
    rintro ⟨heq, hlt⟩
    exact absurd (hsame heq) hlt.ne

theorem mem_of_mem_taken {r : RemainderEntry I} (hr : r ∈ taken budget entries) :
    r ∈ entriesFrom budget entries 0 entries :=
  (mergeSort_perm _ _).mem_iff.mp (mem_of_mem_take hr)

theorem nodup_taken : ((taken budget entries).map (·.index)).Nodup := by
  have hsorted := ((mergeSort_perm (entriesFrom budget entries 0 entries)
    fun a b => ¬ b.before a).map (·.index)).nodup_iff.mpr (nodup_entriesFrom budget entries 0 entries)
  exact hsorted.sublist ((take_sublist _ _).map _)

/-- The instance at a place gets a unit if few enough come before it. -/
theorem mem_taken_iff (hids : (entries.map (·.1)).Nodup) {e : I × Nat} {j : Nat}
    (hj : (e, j) ∈ entries.zipIdx) : j ∈ (taken budget entries).map (·.index) ↔
      e.2 ≠ 0 ∧ rank budget entries e < unallocated budget entries := by
  have hperm := mergeSort_perm (entriesFrom budget entries 0 entries) fun a b => ¬ b.before a
  have hsorted := pairwise_sorted (nodup_entriesFrom budget entries 0 entries)
  rw [← countP_entriesFrom hids hj, ← hperm.countP_eq]
  constructor
  · intro h
    obtain ⟨r, hr, rfl⟩ := mem_map.mp h
    obtain ⟨x, hx, hne, hrx⟩ := (mem_entriesFrom budget entries).mp (mem_of_mem_taken hr)
    rw [mem_zipIdx_iff_getElem?] at hx hj
    obtain rfl := Option.some.inj (hx.symm.trans hj)
    rw [← hrx]
    exact ⟨hne, (mem_take_iff hsorted (mem_of_mem_take hr) _).mp hr⟩
  · rintro ⟨hne, hlt⟩
    have hr : (⟨j, e.1, remOf budget entries e⟩ : RemainderEntry I) ∈
        entriesFrom budget entries 0 entries := (mem_entriesFrom budget entries).mpr ⟨e, hj, hne, rfl⟩
    exact mem_map.mpr ⟨_, (mem_take_iff hsorted (hperm.mem_iff.mpr hr) _).mpr hlt, rfl⟩

/-! ## The allocation -/

theorem allocateFairBudget_run (h : InRange budget entries) (htotal : 0 < weightSum entries)
    (hpos : budget ≠ 0) : allocateFairBudget budget (entries.map (·.2)) (entries.map (·.1)) =
      some ((taken budget entries).foldl (fun out e => out.modify e.index (· + 1))
        (entries.map (floorOf budget entries))) := by
  have hzip : (entries.map (·.1)).zip (entries.map (·.2)) = entries := by
    rw [zip_map', map_id']
  have hweight : totalWeight (entries.map (·.2)) 0 = some (weightSum entries) := by
    rw [totalWeight_eq, Nat.zero_add, weightSum]
    rw [Nat.zero_add]
    exact h.total_le
  have hfloor : floorLoop budget (weightSum entries) 0 entries 0 = _ :=
    floorLoop_eq budget entries h.budget h.weights 0 ((Nat.zero_add _).le.trans
      (sum_floor_le budget htotal))
  have hroom : budget - _ ≤ _ := unallocated_le_length htotal
  rw [allocateFairBudget, if_neg (by simp), if_neg hpos, hweight, hzip]
  simp only [Option.bind_eq_bind, Option.bind_some, if_neg htotal.ne', hfloor, if_neg hroom.not_gt]
  rfl

theorem allocateFairBudget_eq (h : InRange budget entries) (hids : (entries.map (·.1)).Nodup)
    (htotal : 0 < weightSum entries) :
    allocateFairBudget budget (entries.map (·.2)) (entries.map (·.1)) =
        some (entries.map (shareOf budget entries)) ∧
      (entries.map (shareOf budget entries)).sum = budget := by
  rcases eq_or_ne budget 0 with rfl | hzero
  · have hnone : shareOf 0 entries = fun _ => 0 := by
      funext e
      simp [shareOf, floorOf, unallocated]
    simp [hnone, allocateFairBudget, Function.comp_def]
  have hshares : (taken budget entries).foldl (fun out e => out.modify e.index (· + 1))
      (entries.map (floorOf budget entries)) = entries.map (shareOf budget entries) := by
    refine ext_getElem? fun j => ?_
    rw [getElem?_foldl_modify, getElem?_map, getElem?_map, nodup_taken.count]
    cases hj : entries[j]? with
    | none => rfl
    | some e =>
      simp only [Option.map_some, mem_taken_iff hids (mem_zipIdx_iff_getElem?.mpr hj)]
      rfl
  rw [allocateFairBudget_run h htotal hzero, hshares]
  refine ⟨rfl, ?_⟩
  rw [← hshares, sum_foldl_modify, taken, length_take, length_mergeSort,
    Nat.min_eq_left (unallocated_le_length htotal), unallocated]
  · have := sum_floor_le budget htotal
    omega
  · intro r hr
    obtain ⟨e, he, -⟩ := (mem_entriesFrom budget entries).mp (mem_of_mem_taken hr)
    rw [mem_zipIdx_iff_getElem?] at he
    rw [length_map]
    exact (List.getElem?_eq_some_iff.mp he).1

/-! ## Fairness -/

/-- Whoever gets one of the units left has a remainder. -/
theorem rem_pos_of_count_lt (htotal : 0 < weightSum entries) {e : I × Nat}
    (h : rank budget entries e < unallocated budget entries) : 0 < remOf budget entries e := by
  by_contra hrem
  refine absurd ((unallocated_le budget htotal).trans ?_) h.not_ge
  refine countP_mono_left fun x _ hpos => ?_
  rw [decide_eq_true_eq] at hpos ⊢
  refine ⟨fun h0 => ?_, .inl (by omega)⟩
  simp [remOf, h0] at hpos

theorem shareOf_near (htotal : 0 < weightSum entries) (e : I × Nat) :
    shareOf budget entries e * weightSum entries < budget * e.2 + weightSum entries ∧
      budget * e.2 < shareOf budget entries e * weightSum entries + weightSum entries := by
  have hdiv : _ = budget * e.2 := Nat.div_add_mod (budget * e.2) (weightSum entries)
  have hmod := Nat.mod_lt (budget * e.2) htotal
  rw [shareOf, Nat.mul_comm (floorOf _ _ _ + _), Nat.mul_add, floorOf]
  split_ifs with hunit
  · have hrem : 0 < budget * e.2 % weightSum entries := rem_pos_of_count_lt htotal hunit.2
    omega
  · omega

theorem shareOf_mono {p q : I × Nat} (hlt : p.2 < q.2) :
    shareOf budget entries p ≤ shareOf budget entries q := by
  have hfloor : floorOf budget entries p ≤ floorOf budget entries q :=
    Nat.div_le_div_right (Nat.mul_le_mul_left _ hlt.le)
  rw [shareOf]
  split_ifs with hunit
  · obtain hfloor | hfloor := hfloor.lt_or_eq
    · exact hfloor.trans_le (Nat.le_add_right ..)
    · -- with equal floors the larger weight has the larger remainder
      have hbudget : 0 < budget := by
        have := hunit.2
        rw [unallocated] at this
        omega
      have hmul : budget * p.2 < budget * q.2 := Nat.mul_lt_mul_of_pos_left hlt hbudget
      have hrem : remOf budget entries p < remOf budget entries q := by
        have hp := Nat.div_add_mod (budget * p.2) (weightSum entries)
        have hq := Nat.div_add_mod (budget * q.2) (weightSum entries)
        rw [floorOf, floorOf] at hfloor
        rw [hfloor] at hp
        rw [remOf, remOf]
        omega
      have hfew : rank budget entries q < unallocated budget entries := by
        refine (countP_mono_left fun x _ hx => ?_).trans_lt hunit.2
        rw [decide_eq_true_eq] at hx ⊢
        refine ⟨hx.1, .inl ?_⟩
        rcases hx.2 with hx | ⟨hx, -⟩ <;> omega
      rw [shareOf, if_pos ⟨by omega, hfew⟩, hfloor]
  · exact hfloor.trans (Nat.le_add_right ..)

theorem shareOf_perm {entries' : List (I × Nat)} (h : entries'.Perm entries) :
    shareOf budget entries' = shareOf budget entries := by
  have htotal : weightSum entries' = weightSum entries := (h.map _).sum_eq
  have hfloor : floorOf budget entries' = floorOf budget entries := by
    funext e
    rw [floorOf, floorOf, htotal]
  have hbefore : ∀ x e, ComesBefore budget entries' x e ↔ ComesBefore budget entries x e := by
    intro x e
    rw [ComesBefore, ComesBefore, remOf, remOf, remOf, remOf, htotal]
  have hleft : unallocated budget entries' = unallocated budget entries := by
    rw [unallocated, unallocated, hfloor, (h.map (floorOf budget entries)).sum_eq]
  funext e
  have hcount : rank budget entries' e = rank budget entries e :=
    (h.countP_eq _).trans (countP_congr fun x _ => by simp only [decide_eq_true_eq, hbefore x e])
  rw [rank, rank] at hcount
  rw [shareOf, shareOf, hfloor, hleft, hcount]

theorem allocateFairBudget_fair (budget : Nat) (entries : List (I × Nat))
    (h : InRange budget entries) (hids : (entries.map (·.1)).Nodup)
    (htotal : 0 < weightSum entries) :
    (∀ e ∈ entries, budget * e.2 ≤ kUint128Max) ∧
      ∃ shares, allocateFairBudget budget (entries.map (·.2)) (entries.map (·.1)) = some shares ∧
        shares.length = entries.length ∧ shares.sum = budget ∧
        (∀ p ∈ entries.zip shares,
          p.2 * weightSum entries < budget * p.1.2 + weightSum entries ∧
            budget * p.1.2 < p.2 * weightSum entries + weightSum entries ∧ (p.1.2 = 0 → p.2 = 0)) ∧
        (∀ p ∈ entries.zip shares, ∀ q ∈ entries.zip shares, p.1.2 < q.1.2 → p.2 ≤ q.2) ∧
        ∀ entries' : List (I × Nat), entries'.Perm entries →
          ∃ shares', allocateFairBudget budget (entries'.map (·.2)) (entries'.map (·.1)) =
              some shares' ∧ (entries'.zip shares').Perm (entries.zip shares) := by
  have hzip : ∀ l : List (I × Nat), l.zip (l.map (shareOf budget entries)) =
      l.map fun e => (e, shareOf budget entries e) := fun l => by
    simpa using zip_map' (f := id) (g := shareOf budget entries) (l := l)
  have hof : ∀ p ∈ entries.zip (entries.map (shareOf budget entries)),
      p.2 = shareOf budget entries p.1 := by
    intro p hp
    rw [hzip] at hp
    obtain ⟨e, -, rfl⟩ := mem_map.mp hp
    rfl
  obtain ⟨hrun, hsum⟩ := allocateFairBudget_eq h hids htotal
  refine ⟨fun e he => ?_, _, hrun, length_map _, hsum, fun p hp => ?_, fun p hp q hq hlt => ?_,
    fun entries' hperm => ?_⟩
  · have := Nat.mul_lt_mul'' h.budget (h.weights e he)
    rw [kUint128Max]
    omega
  · rw [hof p hp]
    refine ⟨(shareOf_near htotal p.1).1, (shareOf_near htotal p.1).2, fun h0 => ?_⟩
    rw [shareOf, if_neg (fun hunit => hunit.1 h0), floorOf, h0, Nat.mul_zero, Nat.zero_div]
  · rw [hof p hp, hof q hq]
    exact shareOf_mono hlt
  · have htotal' : 0 < weightSum entries' := by
      rw [weightSum, (hperm.map (·.2)).sum_eq]
      exact htotal
    obtain ⟨hrun', -⟩ := allocateFairBudget_eq
      ⟨h.budget, fun e he => h.weights e (hperm.mem_iff.mp he), hperm.length_eq ▸ h.length⟩
      ((hperm.map _).nodup_iff.mpr hids) htotal'
    rw [shareOf_perm hperm] at hrun'
    refine ⟨_, hrun', ?_⟩
    rw [hzip, hzip]
    exact hperm.map _

/-- Four units over three equal weights. -/
theorem allocateFairBudget_fair_four :
    ∃ shares, allocateFairBudget 4 [1, 1, 1] ["c", "a", "b"] = some shares ∧ shares.sum = 4 := by
  obtain ⟨-, shares, hrun, -, hsum, -⟩ := allocateFairBudget_fair 4
    [("c", 1), ("a", 1), ("b", 1)] ⟨by norm_num, by simp, by norm_num⟩ (by decide +kernel)
    (by decide)
  exact ⟨shares, hrun, hsum⟩

end TairKvCache.Reclaimer
