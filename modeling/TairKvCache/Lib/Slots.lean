import Mathlib

/-!
# Slot-by-slot batches

A batch operation runs one slot after another against a shared state and
collects one result per slot. `runSlots` is that loop; the rules below are
the ones a batch proof needs:

* `runSlots_inv`: a property every slot preserves is preserved;
* `runSlots_result`: each collected result comes from *some* intermediate
  state that still satisfies the invariant;
* `runSlots_forall`: what every slot answers is true of every result.

A batch that gives up at the first slot it cannot serve is `List.mapM` into
`Option`; `mapM_forall₂` relates its results to the slots.
-/

namespace TairKvCache.Lib

open List Option

variable {σ α ε : Type*} (f : σ → α → σ × ε) {as : List α}

/-- Run `f` over the slots, threading the state and collecting results. -/
def runSlots (f : σ → α → σ × ε) : σ → List α → σ × List ε
  | s, [] => (s, [])
  | s, a :: as =>
    ((runSlots f (f s a).1 as).1, (f s a).2 :: (runSlots f (f s a).1 as).2)

@[simp] theorem runSlots_nil (s : σ) : runSlots f s [] = (s, []) := rfl

@[simp] theorem runSlots_cons (s : σ) (a : α) (as : List α) :
    runSlots f s (a :: as)
      = ((runSlots f (f s a).1 as).1, (f s a).2 :: (runSlots f (f s a).1 as).2) := rfl

@[simp] theorem runSlots_length (s : σ) (as : List α) :
    (runSlots f s as).2.length = as.length := by
  induction as generalizing s with
  | nil => rfl
  | cons a as ih => simp [ih]

theorem runSlots_map {β : Type*} (g : β → α) (s : σ) (bs : List β) :
    runSlots f s (bs.map g) = runSlots (fun s b => f s (g b)) s bs := by
  induction bs generalizing s with
  | nil => rfl
  | cons b bs ih => simp [ih]

theorem runSlots_inv {f : σ → α → σ × ε} {P : σ → Prop} (hf : ∀ s, ∀ a ∈ as, P s → P (f s a).1)
    {s : σ} (hs : P s) : P (runSlots f s as).1 := by
  induction as generalizing s with
  | nil => exact hs
  | cons a as ih =>
    refine ih (fun s b hb => hf s b (mem_cons_of_mem _ hb)) ?_
    exact hf s a (mem_cons_self ..) hs

/-- Every slot of the batch runs in a state that still satisfies the
invariant, and the rest of the batch runs after it. -/
theorem runSlots_slot {f : σ → α → σ × ε} {P : σ → Prop} (hf : ∀ s, ∀ a ∈ as, P s → P (f s a).1)
    {s : σ} (hs : P s) {i : Nat} {a : α} (ha : as[i]? = some a) :
    ∃ t, P t ∧ (runSlots f s as).2[i]? = some (f t a).2
      ∧ (runSlots f s as).1 = (runSlots f (f t a).1 (as.drop (i + 1))).1 := by
  induction as generalizing s i with
  | nil => cases ha
  | cons b as ih =>
    cases i with
    | zero =>
      obtain rfl := some.inj ha
      exact ⟨s, hs, rfl, rfl⟩
    | succ i =>
      exact ih (fun s c hc => hf s c (mem_cons_of_mem _ hc)) (hf s b mem_cons_self hs) ha

theorem runSlots_forall {f : σ → α → σ × ε} {P : ε → Prop} (h : ∀ s, ∀ a ∈ as, P (f s a).2)
    (s : σ) : ∀ e ∈ (runSlots f s as).2, P e := by
  induction as generalizing s with
  | nil => simp
  | cons a as ih =>
    refine forall_mem_cons.mpr ⟨h s a mem_cons_self, ?_⟩
    exact ih (fun s b hb => h s b (mem_cons_of_mem _ hb)) _

/-! ## All or nothing -/

theorem mapM_forall₂ {f : α → Option ε} {es : List ε} (h : as.mapM f = some es) :
    List.Forall₂ (fun a e => f a = some e) as es := by
  induction as generalizing es with
  | nil =>
    rw [mapM_nil] at h
    rw [← some.inj h]
    exact .nil
  | cons a as ih =>
    rw [mapM_cons] at h
    obtain ⟨e, he, h⟩ := bind_eq_some_iff.mp h
    obtain ⟨es', hes', h⟩ := bind_eq_some_iff.mp h
    rw [← some.inj h]
    exact .cons he (ih hes')

theorem forall₂_mem_left {R : α → ε → Prop} {es : List ε} (h : List.Forall₂ R as es) {a : α}
    (ha : a ∈ as) : ∃ e ∈ es, R a e := by
  induction h with
  | nil => cases ha
  | cons hR _ ih =>
    rcases mem_cons.mp ha with rfl | htail
    · exact ⟨_, mem_cons_self, hR⟩
    · obtain ⟨e, he, hae⟩ := ih htail
      exact ⟨e, mem_cons_of_mem _ he, hae⟩

theorem forall₂_mem_right {R : α → ε → Prop} {es : List ε} (h : List.Forall₂ R as es) {e : ε}
    (he : e ∈ es) : ∃ a ∈ as, R a e :=
  forall₂_mem_left h.flip he

end TairKvCache.Lib
