import Mathlib

/-!
# Machines and guarded runs

A machine is a set of initial states and a deterministic step function over
labelled actions; all the nondeterminism (scheduling, failures, random
choices) sits in the actions. A *guard* restricts which actions a run may
take in which state: `Reach ok` are the states reached by runs all of whose
steps meet `ok`, and the unrestricted runs are those of the trivial guard.

The two rules used everywhere are `Reach.inv` (a property of the initial
states that every guarded step preserves holds in every state reached) and
`Steps.preserve` (the same, from an arbitrary state on). `steps_of_run`
turns an evaluated list of actions into a run, which is how concrete runs
are exhibited.
-/

namespace TairKvCache.Lib

open Option

structure Machine (σ α : Type*) where
  init : σ → Prop
  step : σ → α → Option σ

namespace Machine

variable {σ α : Type*} {m : Machine σ α} {ok ok' : σ → α → Prop} {as : List α}

/-- One step whose action meets the guard. -/
def Next (m : Machine σ α) (ok : σ → α → Prop) (s s' : σ) : Prop :=
  ∃ a, ok s a ∧ m.step s a = some s'

/-- Finitely many guarded steps. -/
def Steps (m : Machine σ α) (ok : σ → α → Prop) : σ → σ → Prop :=
  Relation.ReflTransGen (m.Next ok)

/-- Reached from an initial state by guarded steps. -/
def Reach (m : Machine σ α) (ok : σ → α → Prop) (s : σ) : Prop :=
  ∃ s₀, m.init s₀ ∧ m.Steps ok s₀ s

/-- The guard that lets every action through. -/
def anyAction (_ : σ) (_ : α) : Prop := True

theorem Steps.preserve {P : σ → Prop} {s s' : σ} (h : m.Steps ok s s')
    (hstep : ∀ s a s', P s → ok s a → m.step s a = some s' → P s') (hs : P s) : P s' := by
  induction h with
  | refl => exact hs
  | tail _ hnext ih =>
    obtain ⟨a, hok, ha⟩ := hnext
    exact hstep _ a _ ih hok ha

theorem Reach.inv {P : σ → Prop} {s : σ} (h : m.Reach ok s) (hinit : ∀ s, m.init s → P s)
    (hstep : ∀ s a s', P s → ok s a → m.step s a = some s' → P s') : P s := by
  obtain ⟨s₀, h₀, hsteps⟩ := h
  exact hsteps.preserve hstep (hinit s₀ h₀)

theorem Reach.steps {s s' : σ} (h : m.Reach ok s) (h' : m.Steps ok s s') : m.Reach ok s' := by
  obtain ⟨s₀, h₀, hsteps⟩ := h
  exact ⟨s₀, h₀, hsteps.trans h'⟩

/-- A run to the goal, when from every other state some steps make `μ` smaller. -/
theorem exists_steps_of_lt {P Q : σ → Prop} (μ : σ → Nat)
    (hstep : ∀ s, P s → ¬Q s → ∃ s', m.Steps ok s s' ∧ P s' ∧ μ s' < μ s) {s : σ} (hs : P s) :
    ∃ s', m.Steps ok s s' ∧ P s' ∧ Q s' := by
  induction hμ : μ s using Nat.strong_induction_on generalizing s with
  | _ n ih =>
    by_cases hgoal : Q s
    · exact ⟨s, Relation.ReflTransGen.refl, hs, hgoal⟩
    · obtain ⟨t, ht, hpt, hlt⟩ := hstep s hs hgoal
      obtain ⟨s', hs', hp', hgoal'⟩ := ih (μ t) (hμ ▸ hlt) hpt rfl
      exact ⟨s', ht.trans hs', hp', hgoal'⟩

/-! ## Steps behind a condition -/

theorem of_guard {c : Prop} [Decidable c] {s s' : σ} (h : (if c then none else some s) = some s') :
    ¬c ∧ s = s' :=
  (ite_none_left_eq_some.mp h).imp_right some.inj

theorem of_enabled {c : Prop} [Decidable c] {s s' : σ}
    (h : (if c then some s else none) = some s') : c ∧ s = s' :=
  (ite_none_right_eq_some.mp h).imp_right some.inj

/-! ## Evaluated runs -/

/-- Run a list of actions; `none` as soon as one is not enabled. -/
def run (m : Machine σ α) (s : σ) : List α → Option σ
  | [] => some s
  | a :: as => (m.step s a).bind fun s' => m.run s' as

/-- The guard holds at every step of the run of `as` from `s`. -/
def AllOk (m : Machine σ α) (ok : σ → α → Prop) (s : σ) : List α → Prop
  | [] => True
  | a :: as => ok s a ∧ ∀ s', m.step s a = some s' → m.AllOk ok s' as

theorem steps_of_run {s s' : σ} (h : m.run s as = some s') (hok : m.AllOk ok s as) :
    m.Steps ok s s' := by
  induction as generalizing s with
  | nil =>
    obtain rfl : s = s' := some.inj h
    exact Relation.ReflTransGen.refl
  | cons a as ih =>
    obtain ⟨t, hst, hrun⟩ := bind_eq_some_iff.mp h
    exact Relation.ReflTransGen.head ⟨a, hok.1, hst⟩ (ih hrun (hok.2 t hst))

/-- A guard that holds of the actions in whatever state they are taken. -/
theorem allOk_of_forall (h : ∀ a ∈ as, ∀ s, ok s a) (s : σ) : m.AllOk ok s as := by
  induction as generalizing s with
  | nil => trivial
  | cons a as ih =>
    exact ⟨h a List.mem_cons_self s,
      fun s' _ => ih (fun a' ha' => h a' (List.mem_cons_of_mem _ ha')) s'⟩

/-- Evaluate a guard along a run. -/
def checkRun (m : Machine σ α) (test : σ → α → Bool) (s : σ) : List α → Bool
  | [] => true
  | a :: as => test s a && (m.step s a).all fun s' => m.checkRun test s' as

theorem allOk_of_checkRun {test : σ → α → Bool} (htest : ∀ s a, test s a = true → ok s a) {s : σ}
    (h : m.checkRun test s as = true) : m.AllOk ok s as := by
  induction as generalizing s with
  | nil => trivial
  | cons a as ih =>
    rw [checkRun, Bool.and_eq_true] at h
    refine ⟨htest s a h.1, fun s' hs' => ih ?_⟩
    have hrest := h.2
    rwa [hs', all_some] at hrest

theorem allOk_anyAction (s : σ) (as : List α) : m.AllOk anyAction s as :=
  allOk_of_forall (fun _ _ _ => trivial) s

/-- A run that is evaluated from an initial state reaches its end. -/
theorem reach_of_run {s s' : σ} (hinit : m.init s) (h : m.run s as = some s') :
    m.Reach anyAction s' :=
  ⟨s, hinit, steps_of_run h (allOk_anyAction s as)⟩

end Machine

end TairKvCache.Lib
