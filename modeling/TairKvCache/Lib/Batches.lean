import Mathlib

/-!
# Batches of indices

A request over `n` slots is split into batches class by class (`batches`):
the slots of one class always stay together, and a batch is closed as soon as
it has reached the size limit. What a caller relies on is independent of the
limit:

* every slot is in exactly one batch (`batches_perm`);
* slots of different batches are of different classes (`batches_separated`).

The results come back in batch order, labelled with their slot.
-/

namespace TairKvCache.Lib

open List Option

/-! ## Splitting -/

/-- Append whole groups to the current batch, and close it when it has
reached the limit or when there is no group left. -/
def pack (limit : Nat) : List Nat → List (List Nat) → List (List Nat)
  | _, [] => []
  | cur, g :: gs =>
    if limit ≤ (cur ++ g).length ∨ gs = [] then (cur ++ g) :: pack limit [] gs
    else pack limit (cur ++ g) gs

/-- The slots of each inhabited class, class by class. -/
def groups (cls : Nat → Nat) (classes n : Nat) : List (List Nat) :=
  ((List.range classes).map fun c => (List.range n).filter fun i => cls i = c).filter
    fun g => !g.isEmpty

def batches (cls : Nat → Nat) (classes limit n : Nat) : List (List Nat) :=
  pack limit [] (groups cls classes n)

theorem pack_flatten (limit : Nat) (cur : List Nat) (gs : List (List Nat))
    (h : gs = [] → cur = []) : (pack limit cur gs).flatten = cur ++ gs.flatten := by
  induction gs generalizing cur with
  | nil => simp [pack, h rfl]
  | cons g gs ih =>
    rw [pack]
    split
    · rw [flatten_cons, ih [] (fun _ => rfl)]
      simp
    · rename_i hopen
      rw [ih (cur ++ g) (fun hgs => absurd (Or.inr hgs) hopen)]
      simp

/-- No slot of one batch is of the class of a slot of the other. -/
def Separated (cls : Nat → Nat) (g g' : List Nat) : Prop :=
  ∀ i ∈ g, ∀ j ∈ g', cls i ≠ cls j

variable {cls : Nat → Nat} {α : Type*} {i : Nat}

theorem separated_of_pack {limit : Nat} {cur b : List Nat} {gs : List (List Nat)}
    (hcur : Separated cls b cur) (hgs : ∀ g ∈ gs, Separated cls b g) :
    ∀ b' ∈ pack limit cur gs, Separated cls b b' := by
  induction gs generalizing cur with
  | nil => simp [pack]
  | cons g gs ih =>
    have hg := hgs g (mem_cons_self ..)
    have hrest := fun g' h => hgs g' (mem_cons_of_mem _ h)
    have happ : Separated cls b (cur ++ g) := by
      intro i hi j hj
      rcases mem_append.mp hj with h | h
      · exact hcur i hi j h
      · exact hg i hi j h
    intro b' hb'
    rw [pack] at hb'
    split at hb'
    · rcases mem_cons.mp hb' with rfl | h
      · exact happ
      · exact ih (fun _ _ _ hj => by simp at hj) hrest b' h
    · exact ih happ hrest b' hb'

theorem pack_separated {limit : Nat} {cur : List Nat} {gs : List (List Nat)}
    (hcur : ∀ g ∈ gs, Separated cls cur g) (hgs : gs.Pairwise (Separated cls)) :
    (pack limit cur gs).Pairwise (Separated cls) := by
  induction gs generalizing cur with
  | nil => exact List.Pairwise.nil
  | cons g gs ih =>
    rw [pairwise_cons] at hgs
    have happ : ∀ g' ∈ gs, Separated cls (cur ++ g) g' := by
      intro g' hg' i hi
      rcases mem_append.mp hi with h | h
      · exact hcur g' (mem_cons_of_mem _ hg') i h
      · exact hgs.1 g' hg' i h
    have hnil : ∀ g' ∈ gs, Separated cls [] g' := fun _ _ i hi => by simp at hi
    rw [pack]
    split
    · refine pairwise_cons.mpr ⟨?_, ih hnil hgs.2⟩
      exact separated_of_pack (fun _ _ _ hj => by simp at hj) happ
    · exact ih happ hgs.2

theorem groups_separated (cls : Nat → Nat) (classes n : Nat) :
    (groups cls classes n).Pairwise (Separated cls) := by
  refine List.Pairwise.filter _ (pairwise_map.mpr ?_)
  refine nodup_range.imp fun {c c'} hne i hi j hj heq => hne ?_
  simp only [mem_filter, decide_eq_true_eq] at hi hj
  rw [← hi.2, ← hj.2, heq]

theorem groups_perm {classes n : Nat} (h : ∀ i < n, cls i < classes) :
    (groups cls classes n).flatten.Perm (List.range n) := by
  refine (perm_ext_iff_of_nodup ?_ nodup_range).mpr fun i => ?_
  · refine nodup_flatten.mpr ⟨fun g hg => ?_, ?_⟩
    · obtain ⟨c, -, rfl⟩ := mem_map.mp (mem_of_mem_filter hg)
      exact nodup_range.filter _
    · exact (groups_separated cls classes n).imp fun hsep i hi hi' => hsep i hi i hi' rfl
  · simp only [mem_flatten, mem_range]
    constructor
    · rintro ⟨g, hg, hi⟩
      obtain ⟨c, -, rfl⟩ := mem_map.mp (mem_of_mem_filter hg)
      exact mem_range.mp (mem_of_mem_filter hi)
    · intro hi
      have hmem : i ∈ (List.range n).filter fun j => cls j = cls i := by simp [hi]
      refine ⟨_, mem_filter.mpr ⟨mem_map_of_mem (mem_range.mpr (h i hi)), ?_⟩, hmem⟩
      simpa using ⟨i, hi, rfl⟩

theorem batches_perm {classes n : Nat} (limit : Nat) (h : ∀ i < n, cls i < classes) :
    (batches cls classes limit n).flatten.Perm (List.range n) := by
  rw [batches, pack_flatten limit [] _ (fun _ => rfl), nil_append]
  exact groups_perm h

theorem batches_separated (cls : Nat → Nat) (classes limit n : Nat) :
    (batches cls classes limit n).Pairwise (Separated cls) :=
  pack_separated (fun _ _ _ hi => by simp at hi) (groups_separated cls classes n)

theorem filterMap_range (as : List α) : (List.range as.length).filterMap (as[·]?) = as := by
  induction as with
  | nil => rfl
  | cons a as ih =>
    rw [length_cons, range_succ_eq_map, filterMap_cons_some (b := a) (by simp), filterMap_map]
    exact congrArg (a :: ·) ih

/-! ## Collecting -/

variable {β : Type*} {outs : List (Nat × β)}

/-- The value labelled `i`. -/
def labelled (d : β) (outs : List (Nat × β)) (i : Nat) : β := (outs.lookup i).getD d

theorem lookup_of_mem (hnd : (outs.map (·.1)).Nodup) {x : β} (h : (i, x) ∈ outs) :
    outs.lookup i = some x := by
  induction outs with
  | nil => simp at h
  | cons o outs ih =>
    obtain ⟨j, y⟩ := o
    rw [map_cons, nodup_cons] at hnd
    rcases mem_cons.mp h with heq | hmem
    · obtain ⟨rfl, rfl⟩ := Prod.mk.inj heq
      simp
    · have hne : i ≠ j := by
        rintro rfl
        exact hnd.1 (mem_map.mpr ⟨_, hmem, rfl⟩)
      rw [lookup_cons, beq_eq_false_iff_ne.mpr hne]
      exact ih hnd.2 hmem

theorem labelled_of_mem (d : β) (hnd : (outs.map (·.1)).Nodup) {x : β} (h : (i, x) ∈ outs) :
    labelled d outs i = x := by
  rw [labelled, lookup_of_mem hnd h, getD_some]

theorem lookup_of_not_mem (h : i ∉ outs.map (·.1)) : outs.lookup i = none := by
  rw [lookup_eq_none_iff]
  intro o ho
  refine bne_iff_ne.mpr ?_
  rintro rfl
  exact h (mem_map.mpr ⟨o, ho, rfl⟩)

theorem labelled_of_not_mem (d : β) (h : i ∉ outs.map (·.1)) : labelled d outs i = d := by
  rw [labelled, lookup_of_not_mem h, getD_none]

theorem labelled_append_right (d : β) {xs ys : List (Nat × β)} (h : i ∉ xs.map (·.1)) :
    labelled d (xs ++ ys) i = labelled d ys i := by
  rw [labelled, lookup_append, lookup_of_not_mem h, none_or, labelled]

theorem labelled_perm (d : β) {outs' : List (Nat × β)} (h : outs.Perm outs')
    (hnd : (outs.map (·.1)).Nodup) : labelled d outs i = labelled d outs' i := by
  have hlabels := h.map (·.1)
  by_cases hi : i ∈ outs.map (·.1)
  · obtain ⟨⟨j, x⟩, hx, rfl⟩ := mem_map.mp hi
    rw [labelled_of_mem d hnd hx, labelled_of_mem d (hlabels.nodup_iff.mp hnd) (h.mem_iff.mp hx)]
  · rw [labelled_of_not_mem d hi, labelled_of_not_mem d (mt hlabels.mem_iff.mpr hi)]

theorem map_labelled_zip (d : β) {is : List Nat} {xs : List β} (hnd : is.Nodup)
    (hlen : xs.length = is.length) :
    (is.map fun i => (i, labelled d (is.zip xs) i)) = is.zip xs := by
  rw [map_prod_left_eq_zip]
  refine congrArg is.zip (ext_getElem (by simp [hlen]) fun n hn hn' => ?_)
  rw [getElem_map]
  refine labelled_of_mem d (by rwa [map_fst_zip hlen.ge]) (mem_iff_getElem.mpr ⟨n, ?_, ?_⟩)
  · simpa [hlen] using hlen ▸ hn'
  · exact getElem_zip

/-- Labels that come from a filtered list are still a sublist of all labels. -/
theorem filterMap_labels_sublist {γ ι : Type*} {f : α → Option γ} {g : γ → ι} {h : α → ι}
    {l : List α} (hgh : ∀ a ∈ l, ∀ c, f a = some c → g c = h a) :
    ((l.filterMap f).map g).Sublist (l.map h) := by
  induction l with
  | nil => exact List.Sublist.slnil
  | cons a l ih =>
    have hrest := ih fun b hb => hgh b (mem_cons_of_mem _ hb)
    cases hf : f a with
    | none =>
      rw [filterMap_cons_none hf, map_cons]
      exact hrest.cons _
    | some c =>
      rw [filterMap_cons_some hf, map_cons, map_cons, hgh a mem_cons_self c hf]
      exact hrest.cons_cons _

end TairKvCache.Lib
