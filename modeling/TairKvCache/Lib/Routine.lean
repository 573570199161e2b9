import Mathlib

/-!
# Message loops that may raise

A routine handles one message at a time: it changes its state, emits
effects, or raises, and a raise ends the loop. `loop` runs it over a list of
messages, `loop_append` cuts a run in two, and `loop_inv` is the induction on
the last message: a relation between the messages so far, the state and the
effects so far that every turn keeps holds of every run that has not raised.
-/

namespace TairKvCache.Lib

namespace Routine

variable {σ μ φ ε : Type*} {f : σ → Except ε (σ × List φ)}

/-- Go on with `f`, keeping the effects emitted so far. -/
def chain (r : Except ε (σ × List φ)) (f : σ → Except ε (σ × List φ)) :
    Except ε (σ × List φ) :=
  match r with
  | .error err => .error err
  | .ok (c, effs) =>
    match f c with
    | .error err => .error err
    | .ok (d, effs') => .ok (d, effs ++ effs')

@[simp] theorem chain_error (err : ε) (f : σ → Except ε (σ × List φ)) :
    chain (.error err) f = .error err := rfl

theorem chain_ok {c d : σ} {effs effs' : List φ} (h : f c = .ok (d, effs')) :
    chain (.ok (c, effs)) f = .ok (d, effs ++ effs') := by
  simp [chain, h]

theorem chain_raise {c : σ} {effs : List φ} {err : ε} (h : f c = .error err) :
    chain (.ok (c, effs)) f = .error err := by
  simp [chain, h]

theorem chain_assoc (r : Except ε (σ × List φ)) (f g : σ → Except ε (σ × List φ)) :
    chain (chain r f) g = chain r fun c => chain (f c) g := by
  cases r with
  | error err => rfl
  | ok p =>
    obtain ⟨c, effs⟩ := p
    cases hf : f c with
    | error err => rw [chain_raise hf, chain_error, chain_raise (by rw [hf, chain_error])]
    | ok q =>
      obtain ⟨d, effs'⟩ := q
      rw [chain_ok hf]
      cases hg : g d with
      | error err => rw [chain_raise hg, chain_raise (by rw [hf, chain_raise hg])]
      | ok q' =>
        obtain ⟨e, effs''⟩ := q'
        rw [chain_ok hg, chain_ok (by rw [hf, chain_ok hg]), List.append_assoc]

/-- The loop over the messages in their order of arrival. -/
def loop (handle : σ → μ → Except ε (σ × List φ)) : σ → List μ → Except ε (σ × List φ)
  | c, [] => .ok (c, [])
  | c, m :: ms => chain (handle c m) fun c' => loop handle c' ms

variable {handle : σ → μ → Except ε (σ × List φ)} {c d e : σ} {pre : List μ} {m : μ}
  {effs effs' : List φ} {err : ε}

theorem loop_append (c : σ) (pre post : List μ) :
    loop handle c (pre ++ post) = chain (loop handle c pre) fun d => loop handle d post := by
  induction pre generalizing c with
  | nil =>
    rw [List.nil_append, loop]
    cases h : loop handle c post with
    | error err => rw [chain_raise h]
    | ok q => rw [chain_ok h, List.nil_append]
  | cons m ms ih =>
    rw [List.cons_append, loop, loop, chain_assoc]
    simp only [ih]

theorem loop_concat (hrun : loop handle c pre = .ok (d, effs)) (hstep : handle d m = .ok (e, effs')) :
    loop handle c (pre ++ [m]) = .ok (e, effs ++ effs') := by
  rw [loop_append, hrun]
  refine chain_ok ?_
  rw [loop, hstep, chain_ok rfl, List.append_nil]

theorem loop_concat_raise (hrun : loop handle c pre = .ok (d, effs))
    (hstep : handle d m = .error err) : loop handle c (pre ++ [m]) = .error err := by
  rw [loop_append, hrun]
  exact chain_raise (by rw [loop, hstep, chain_error])

/-- After a raise nothing that arrives changes anything. -/
theorem loop_append_raise (hrun : loop handle c pre = .error err) (post : List μ) :
    loop handle c (pre ++ post) = .error err := by
  rw [loop_append, hrun, chain_error]

theorem loop_concat_inv (hrun : loop handle c (pre ++ [m]) = .ok (e, effs')) :
    ∃ d effs out, loop handle c pre = .ok (d, effs) ∧ handle d m = .ok (e, out) ∧
      effs' = effs ++ out := by
  cases hpre : loop handle c pre with
  | error err => rw [loop_append_raise hpre] at hrun; cases hrun
  | ok p =>
    obtain ⟨d, effs⟩ := p
    cases hstep : handle d m with
    | error err => rw [loop_concat_raise hpre hstep] at hrun; cases hrun
    | ok q =>
      obtain ⟨e', out⟩ := q
      rw [loop_concat hpre hstep] at hrun
      obtain ⟨rfl, rfl⟩ := Prod.mk.inj (Except.ok.inj hrun)
      exact ⟨d, effs, out, rfl, hstep, rfl⟩

/-- Induction on the last message, for message lists of a kind `A` that is
closed under prefixes. -/
theorem loop_inv {A : List μ → Prop} {P : List μ → σ → List φ → Prop}
    (hA : ∀ pre m, A (pre ++ [m]) → A pre) (hnil : P [] c [])
    (hstep : ∀ pre m d effs e out, A (pre ++ [m]) → P pre d effs → handle d m = .ok (e, out) →
      P (pre ++ [m]) e (effs ++ out))
    {ms : List μ} (hms : A ms) (hrun : loop handle c ms = .ok (d, effs)) : P ms d effs := by
  induction ms using List.reverseRecOn generalizing d effs with
  | nil =>
    obtain ⟨rfl, rfl⟩ := Prod.mk.inj (Except.ok.inj hrun)
    exact hnil
  | append_singleton pre m ih =>
    obtain ⟨d', effs', out, hpre, hm, rfl⟩ := loop_concat_inv hrun
    exact hstep pre m d' effs' d out hms (ih (hA pre m hms) hpre) hm

end Routine

end TairKvCache.Lib
