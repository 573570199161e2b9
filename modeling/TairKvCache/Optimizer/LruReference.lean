import TairKvCache.Optimizer.LiteHit

/-!
# The LRU cache that LiteHit stands for

A cache with a capacity, or without one, as the list of its blocks with the
times of their last access. A request drops the blocks whose age reached the
TTL, looks all its keys up, and then accesses them from the tail to the head.

A cache of capacity `c` is always the first `c` blocks of the one without
(`take_request`), so a block is found in it exactly if the other one holds
fewer than `c` blocks above it (`depthOf`).
-/

namespace TairKvCache.Optimizer

open List Function

variable {K : Type} {keys : List K}

/-! ## Age -/

abbrev LruStack (K : Type) := List (K × Int)

def expire (ttl : Nat) (now : Int) (stack : LruStack K) : LruStack K :=
  if ttl = 0 then stack else stack.filter (now - ·.2 < ttl)

/-- Distinct blocks, the later accessed the earlier in the list. -/
structure Ordered (stack : LruStack K) (now : Int) : Prop where
  nodup : (stack.map (·.1)).Nodup
  sorted : stack.Pairwise (·.2 ≥ ·.2)
  le : ∀ e ∈ stack, e.2 ≤ now

variable {pre : K → List K} {stack : LruStack K}

theorem Ordered.filter {now now' : Int} (h : Ordered stack now) (hle : now ≤ now')
    (p : K × Int → Bool) : Ordered (stack.filter p) now' where
  nodup := h.nodup.sublist (filter_sublist.map _)
  sorted := h.sorted.filter p
  le e he := (h.le e (mem_of_mem_filter he)).trans hle

theorem Ordered.expire {now now' : Int} (h : Ordered stack now) (hle : now ≤ now') (ttl : Nat) :
    Ordered (expire ttl now' stack) now' := by
  rw [Optimizer.expire]
  split_ifs
  · exact ⟨h.nodup, h.sorted, fun e he => (h.le e he).trans hle⟩
  · exact h.filter hle _

theorem expire_eq (h : stack.Pairwise (·.2 ≥ ·.2)) (ttl : Nat) (now : Int) :
    expire ttl now stack = stack.takeWhile fun e => ttl = 0 ∨ now - e.2 < ttl := by
  rw [expire]
  by_cases h0 : ttl = 0
  · rw [if_pos h0]
    exact (takeWhile_eq_self_iff.mpr fun e _ => by simp [h0]).symm
  rw [if_neg h0]
  induction stack with
  | nil => rfl
  | cons e stack ih =>
    rw [pairwise_cons] at h
    by_cases he : now - e.2 < ttl
    · rw [filter_cons_of_pos (by simpa using he), ih h.2, takeWhile_cons_of_pos (by simp [he])]
    · rw [takeWhile_cons_of_neg (by simp [h0, he]), filter_eq_nil_iff]
      intro x hx
      rcases mem_cons.mp hx with rfl | hx
      · simpa using he
      · have := h.1 x hx
        simp only [decide_eq_true_eq]
        omega

theorem expire_take (h : stack.Pairwise (·.2 ≥ ·.2)) (ttl c : Nat) (now : Int) :
    expire ttl now (stack.take c) = (expire ttl now stack).take c := by
  rw [expire_eq h, expire_eq (h.sublist (take_sublist _ _)), take_takeWhile]

/-! ## Prefix chains -/

/-- Each key comes after `pre` of it. -/
def Prefixed (pre : K → List K) (keys : List K) : Prop :=
  ∀ l k r, keys = l ++ k :: r → l = pre k

/-- What a block is always preceded by has been accessed after it. -/
def Chained (pre : K → List K) (ks : List K) : Prop :=
  ∀ l k r, ks = l ++ k :: r → pre k ⊆ l

theorem prefixed_iff :
    Prefixed pre keys ↔ ∀ i (hi : i < keys.length), keys.take i = pre keys[i] := by
  constructor
  · intro h i hi
    exact h _ _ (keys.drop (i + 1)) (by rw [getElem_cons_drop, take_append_drop])
  · rintro h l k r rfl
    simpa using h l.length (by simp)

theorem Prefixed.nodup (h : Prefixed pre keys) : keys.Nodup := by
  have hsplit := prefixed_iff.mp h
  rw [nodup_iff_injective_getElem]
  intro i j hij
  have htake : keys.take i = keys.take j :=
    (hsplit i i.2).trans ((congrArg pre hij).trans (hsplit j j.2).symm)
  have hlen := congrArg List.length htake
  rw [length_take_of_le i.2.le, length_take_of_le j.2.le] at hlen
  exact Fin.ext hlen

theorem Chained.expire (hsorted : stack.Pairwise (·.2 ≥ ·.2)) (h : Chained pre (stack.map (·.1)))
    (ttl : Nat) (now : Int) : Chained pre ((expire ttl now stack).map (·.1)) := by
  intro l k r hsplit
  obtain ⟨rest, hrest⟩ := takeWhile_prefix (l := stack)
    fun e => decide (ttl = 0 ∨ now - e.2 < ttl)
  rw [← expire_eq hsorted] at hrest
  refine h l k (r ++ rest.map (·.1)) ?_
  rw [← hrest, map_append, hsplit, append_assoc, cons_append]

/-! ## Requests -/

variable [DecidableEq K]

def touch (capacity : Option Nat) (now : Int) (key : K) (stack : LruStack K) : LruStack K :=
  let moved := (key, now) :: stack.filter (·.1 ≠ key)
  match capacity with
  | some c => moved.take c
  | none => moved

structure LruReference (K : Type) where
  stack : LruStack K := []
  expired : Nat := 0

def found (stack : LruStack K) (keys : List K) : Nat :=
  (keys.takeWhile fun key => stack.any (·.1 = key)).length

/-- The leading keys found, and the cache afterwards. -/
def LruReference.request (ttl : Nat) (capacity : Option Nat) (r : LruReference K) (keys : List K)
    (now : Int) : Nat × LruReference K :=
  let alive := expire ttl now r.stack
  (found alive keys,
    ⟨keys.foldr (touch capacity now) alive, r.expired + (r.stack.length - alive.length)⟩)

/-! ## Depths -/

/-- How many blocks the cache must hold to have the key, one for the first. -/
def depthOf : List K → K → Option Nat
  | [], _ => none
  | k :: ks, key => if k = key then some 1 else (depthOf ks key).map (· + 1)

theorem depthOf_eq_none {ks : List K} {key : K} (h : key ∉ ks) : depthOf ks key = none := by
  induction ks with
  | nil => rfl
  | cons k ks ih =>
    rw [mem_cons, not_or] at h
    rw [depthOf, if_neg (Ne.symm h.1), ih h.2, Option.map_none]

theorem depthOf_split {l : List K} {key : K} (h : key ∉ l) (r : List K) :
    depthOf (l ++ key :: r) key = some (l.length + 1) := by
  induction l with
  | nil => exact if_pos rfl
  | cons k l ih =>
    rw [mem_cons, not_or] at h
    rw [cons_append, depthOf, if_neg (Ne.symm h.1), ih h.2]
    rfl

theorem depthOf_append_lt {l : List K} {key : K} (h : key ∈ l) (r : List K) {d : Nat}
    (hd : depthOf (l ++ r) key = some d) : d ≤ l.length := by
  obtain ⟨l₁, l₂, rfl, hnot⟩ := eq_append_cons_of_mem h
  rw [append_assoc, cons_append, depthOf_split hnot] at hd
  cases hd
  simp

theorem any_depthOf (capacity : Nat) (stack : LruStack K) (key : K) :
    (depthOf (stack.map (·.1)) key).any (· ≤ capacity) =
      (stack.take capacity).any (·.1 = key) := by
  induction stack generalizing capacity with
  | nil => simp [depthOf]
  | cons e stack ih =>
    rw [map_cons, depthOf]
    cases capacity with
    | zero => cases h : depthOf (stack.map (·.1)) key <;> by_cases he : e.1 = key <;> simp [he]
    | succ c =>
      by_cases he : e.1 = key
      · simp [he]
      · rw [if_neg he, take_succ_cons, any_cons, ← ih c]
        cases depthOf (stack.map (·.1)) key <;> simp [he]

theorem found_take (capacity : Nat) (stack : LruStack K) (keys : List K) :
    found (stack.take capacity) keys = leading capacity (depthOf (stack.map (·.1))) keys := by
  induction keys with
  | nil => rfl
  | cons key keys ih =>
    rw [leading, any_depthOf, ← ih, found, takeWhile_cons]
    split_ifs <;> rfl

/-! ## Accesses -/

/-- The accessed keys come first, each at its first occurrence. -/
theorem foldr_touch (now : Int) (keys : List K) (stack : LruStack K) :
    keys.foldr (touch none now) stack =
      (firstOccurrences keys).map (·, now) ++ stack.filter (·.1 ∉ keys) := by
  induction keys with
  | nil => simp [firstOccurrences]
  | cons key keys ih =>
    rw [foldr_cons, ih, firstOccurrences, touch, filter_append, filter_filter,
      map_cons, cons_append, filter_map]
    simp [comp_def, not_or]

theorem mem_firstOccurrences {key : K} :
    key ∈ firstOccurrences keys ↔ key ∈ keys := by
  induction keys with
  | nil => rfl
  | cons k keys ih =>
    rw [firstOccurrences, mem_cons, mem_cons, mem_filter, ih, decide_eq_true_eq]
    tauto

theorem nodup_firstOccurrences (keys : List K) : (firstOccurrences keys).Nodup := by
  induction keys with
  | nil => exact nodup_nil
  | cons k keys ih =>
    rw [firstOccurrences, nodup_cons]
    exact ⟨by simp, ih.filter _⟩

theorem firstOccurrences_of_nodup (h : keys.Nodup) :
    firstOccurrences keys = keys := by
  induction keys with
  | nil => rfl
  | cons k keys ih =>
    rw [nodup_cons] at h
    rw [firstOccurrences, ih h.2, filter_eq_self.mpr]
    intro j hj
    simpa using ne_of_mem_of_not_mem hj h.1

/-! ## Capacities -/

theorem Ordered.touch {now : Int} (h : Ordered stack now) (keys : List K) :
    Ordered (keys.foldr (touch none now) stack) now := by
  rw [foldr_touch]
  have hrest := h.filter le_rfl fun e => e.1 ∉ keys
  refine ⟨?_, pairwise_append.mpr ⟨?_, hrest.sorted, ?_⟩, ?_⟩
  · rw [map_append, nodup_append]
    refine ⟨by simpa [comp_def] using nodup_firstOccurrences keys, hrest.nodup, ?_⟩
    rintro a ha b hb rfl
    obtain ⟨e, he, rfl⟩ := mem_map.mp hb
    have hmem : e.1 ∈ firstOccurrences keys := by simpa [comp_def] using ha
    have := (mem_filter.mp he).2
    simp only [decide_eq_true_eq] at this
    exact this (mem_firstOccurrences.mp hmem)
  · exact pairwise_map.mpr (pairwise_of_forall fun _ _ => le_rfl)
  · rintro a ha b hb
    obtain ⟨k, -, rfl⟩ := mem_map.mp ha
    exact hrest.le b hb
  · intro e he
    rcases mem_append.mp he with he | he
    · obtain ⟨k, -, rfl⟩ := mem_map.mp he
      exact le_rfl
    · exact hrest.le e he

theorem touch_take (h : (stack.map (·.1)).Nodup) (c : Nat) (now : Int) (key : K) :
    touch (some c) now key (stack.take c) = (touch none now key stack).take c := by
  have hfilter : ∀ n, ((stack.take (n + 1)).filter (·.1 ≠ key)).take n =
      (stack.filter (·.1 ≠ key)).take n := by
    induction stack with
    | nil => simp
    | cons e stack ih =>
      intro n
      rw [map_cons, nodup_cons] at h
      rw [take_succ_cons]
      by_cases he : e.1 = key
      · -- the only entry of the key: nothing else is dropped
        have hself : ∀ l, l ⊆ stack → l.filter (·.1 ≠ key) = l := by
          intro l hl
          refine filter_eq_self.mpr fun x hx => ?_
          have : x.1 ≠ key := fun hxk => h.1 (he ▸ hxk ▸ mem_map_of_mem (hl hx))
          simpa using this
        rw [filter_cons_of_neg (by simpa using he), filter_cons_of_neg (by simpa using he),
          hself _ (take_subset _ _), hself _ (fun _ hx => hx), take_take, min_self]
      · rw [filter_cons_of_pos (by simpa using he), filter_cons_of_pos (by simpa using he)]
        cases n with
        | zero => rfl
        | succ n => rw [take_succ_cons, take_succ_cons, ih h.2 n]
  cases c with
  | zero => rfl
  | succ n =>
    show (_ :: _).take (n + 1) = (_ :: _).take (n + 1)
    rw [take_succ_cons, take_succ_cons, hfilter n]

theorem foldr_touch_take {now : Int} (h : Ordered stack now) (c : Nat) (keys : List K) :
    keys.foldr (touch (some c) now) (stack.take c) =
      (keys.foldr (touch none now) stack).take c := by
  induction keys with
  | nil => rfl
  | cons key keys ih =>
    rw [foldr_cons, foldr_cons, ih, touch_take (h.touch keys).nodup]

/-- A request keeps the bounded cache the beginning of the unbounded one, and
finds the leading keys that are deep enough in it. -/
theorem take_request {r v : LruReference K} {now now' : Int} (h : Ordered r.stack now)
    (hle : now ≤ now') {c : Nat} (hv : v.stack = r.stack.take c) (ttl : Nat) (keys : List K) :
    (v.request ttl (some c) keys now').1 =
        leading c (depthOf ((expire ttl now' r.stack).map (·.1))) keys ∧
      (v.request ttl (some c) keys now').2.stack =
        (r.request ttl none keys now').2.stack.take c := by
  simp only [LruReference.request, hv, expire_take h.sorted]
  exact ⟨found_take c _ keys, foldr_touch_take (h.expire hle ttl) c keys⟩

/-! ## Depths in a chain -/

/-- Each key of a chain is deeper than the keys before it. -/
theorem Chained.deeper {ks : List K} (h : Chained pre ks) (hkeys : Prefixed pre keys) (l : List K)
    (k : K) (r : List K) (hsplit : keys = l ++ k :: r) (blocks : Nat)
    (hk : depthOf ks k = some blocks) :
    0 < blocks ∧ ∀ j ∈ l, ∀ b, depthOf ks j = some b → b < blocks := by
  have hmem : k ∈ ks := by
    by_contra hnot
    rw [depthOf_eq_none hnot] at hk
    cases hk
  obtain ⟨l', r', rfl, hnot⟩ := eq_append_cons_of_mem hmem
  rw [depthOf_split hnot] at hk
  cases hk
  refine ⟨Nat.succ_pos _, fun j hj b hb => Nat.lt_succ_of_le (depthOf_append_lt ?_ _ hb)⟩
  exact h l' k r' rfl ((hkeys l k r hsplit) ▸ hj)

theorem Chained.touch (h : Chained pre (stack.map (·.1))) (hkeys : Prefixed pre keys) (now : Int) :
    Chained pre ((keys.foldr (touch none now) stack).map (·.1)) := by
  have hmap : (keys.foldr (Optimizer.touch none now) stack).map (·.1) =
      keys ++ (stack.map (·.1)).filter (· ∉ keys) := by
    rw [foldr_touch, firstOccurrences_of_nodup hkeys.nodup, map_append, filter_map]
    simp [comp_def]
  rw [hmap]
  intro l k r hsplit
  rcases append_eq_append_iff.mp hsplit with ⟨l', rfl, hold⟩ | ⟨m, hkeys', hm⟩
  · -- an old block: what it follows is still before it, or was just accessed
    obtain ⟨a₁, a₂, ha, rfl, ha₂⟩ := filter_eq_append_iff.mp hold
    obtain ⟨b₁, b₂, rfl, hb₁, -, -⟩ := filter_eq_cons_iff.mp ha₂
    intro j hj
    have hmem : j ∈ a₁ ++ b₁ := h (a₁ ++ b₁) k b₂ (by rw [ha, append_assoc]) hj
    by_cases hjk : j ∈ keys
    · exact mem_append_left _ hjk
    · refine mem_append_right _ (mem_filter.mpr ⟨?_, by simpa using hjk⟩)
      rcases mem_append.mp hmem with hj | hj
      · exact hj
      · exact absurd (by simpa using hjk) (hb₁ j hj)
  · cases m with
    | nil =>
      -- the split is at the end of the keys
      rw [append_nil] at hkeys'
      subst hkeys'
      rw [nil_append] at hm
      obtain ⟨b₁, b₂, hb, hb₁, -, -⟩ := filter_eq_cons_iff.mp hm.symm
      intro j hj
      by_contra hjk
      exact hb₁ j (h b₁ k b₂ hb hj) (by simpa using hjk)
    | cons x m =>
      rw [cons_append] at hm
      obtain ⟨rfl, -⟩ := List.cons.inj hm
      exact (hkeys l k m hkeys' ▸ List.Subset.refl _ : pre k ⊆ l)

end TairKvCache.Optimizer
