import TairKvCache.Manager

/-!
# What a whole-key delete leaves behind

`Delete(keys)` sends the delete to the persistent layer, and the cache
repeats the slots that layer answered with `EC_OK`. A key the persistent
layer no longer has is answered with `EC_NOENT`, and the cache is not asked:
a copy that is only in the cache stays there and is still served. The
maintenance delete turns that `EC_NOENT` into an `EC_OK` before it asks the
cache.

Such a copy is left by a persistent delete that was applied and not
acknowledged, and the retry of that delete is what leaves it for good.
-/

namespace TairKvCache

open Lib Backend Option

namespace Backend

theorem lookup_deleteForOneKey (b : Backend) (k k' : KeyType) :
    (b.deleteForOneKey k').1.store.lookup k = if k = k' then none else b.store.lookup k := by
  unfold deleteForOneKey
  by_cases hk : k = k'
  · subst hk
    split
    · simp
    · rename_i h
      simpa [has] using h
  · split
    · simp [AList.lookup_erase_ne hk]
    · rfl

/-- The first delete of `k` that the backend applies is acknowledged. -/
def acknowledges (faults : Nat → Option Fault) (k : KeyType) : List (KeyType × Nat) → Bool
  | [] => false
  | (k', j) :: slots =>
    if k' = k then
      match faults j with
      | none => true
      | some (.rejected _) => acknowledges faults k slots
      | some (.unacked _) => false
    else acknowledges faults k slots

/-- `EC_OK` is answered for `k` once: where the delete that removes it is
acknowledged. -/
theorem mem_zip_delete_iff (faults : Nat → Option Fault) (k : KeyType) (b : Backend)
    (slots : List (KeyType × Nat)) : (k, ErrorCode.ok) ∈ (slots.map (·.1)).zip
        (runSlots (fun b p => Fault.apply b (b.deleteForOneKey p.1) (faults p.2)) b slots).2
      ↔ b.has k = true ∧ acknowledges faults k slots = true := by
  induction slots generalizing b with
  | nil => simp [acknowledges]
  | cons p slots ih =>
    obtain ⟨k', j⟩ := p
    simp only [runSlots_cons, List.map_cons, List.zip_cons_cons, List.mem_cons, ih, acknowledges,
      Prod.mk.injEq]
    by_cases hk : k' = k
    · subst hk
      cases hf : faults j with
      | none =>
        by_cases hhas : b.has k' = true <;> simp [Fault.apply, deleteForOneKey, hhas]
      | some fl =>
        cases fl with
        | rejected c => simp [Fault.apply, c.ne_ok.symm]
        | unacked c => simp [Fault.apply, c.ne_ok.symm, has, lookup_deleteForOneKey]
    · have hother : (Fault.apply b (b.deleteForOneKey k') (faults j)).1.has k = b.has k := by
        rcases faults j with _ | (c | c) <;>
          simp [Fault.apply, has, lookup_deleteForOneKey, Ne.symm hk]
      simp [hk, Ne.symm hk, hother]

end Backend

theorem Hot.conditional_delete_lookup_iff (s : Store) (k : KeyType) (keys : List KeyType)
    (prev : List ErrorCode) : (Hot.conditional Hot.delete s keys prev).1.lookup k = none
      ↔ s.lookup k = none ∨ (k, ErrorCode.ok) ∈ keys.zip prev := by
  unfold conditional
  generalize keys.zip prev = slots
  induction slots generalizing s with
  | nil => simp
  | cons p slots ih =>
    obtain ⟨k', ec⟩ := p
    simp only [runSlots_cons, ih, List.mem_cons, Prod.mk.injEq]
    by_cases hec : ec = .ok
    · have hlook : (delete s k').1.lookup k = if k = k' then none else s.lookup k :=
        (backend s).lookup_deleteForOneKey k k'
      by_cases hk : k = k' <;> simp [hec, hlook, hk]
    · simp [hec, Ne.symm hec]

namespace Manager

variable (m : Manager)

/-- `Get` of one key: a cached key is served from the cache. -/
def get (rf : Option FaultCode) (k : KeyType) : ErrorCode × Option KeyEntry :=
  let persistentRead := match rf, m.persistent.getForOneKey k with
    | some fc, _ => (fc.ec, none)
    | none, some e => (.ok, some e)
    | none, none => (.noent, none)
  match m.cache with
  | none => persistentRead
  | some c =>
    match c.lookup k with
    | some e => (.ok, some e)
    | none => if m.recoverState = .running then (.noent, none) else persistentRead

/-- Neither layer holds the key, and it is not read. -/
structure Gone (k : KeyType) : Prop where
  persistent : m.persistent.has k = false
  cache : ∀ c, m.cache = some c → c.lookup k = none
  get : ∀ rf, (m.get rf k).2 = none

variable {m}

theorem Gone.of_layers {k : KeyType} (hp : m.persistent.has k = false)
    (hc : ∀ c, m.cache = some c → c.lookup k = none) : m.Gone k where
  persistent := hp
  cache := hc
  get := by
    intro rf
    have hnone : m.persistent.getForOneKey k = none := by
      simpa [has, getForOneKey] using hp
    unfold Manager.get
    cases hcache : m.cache with
    | none => cases rf <;> simp [hnone]
    | some c =>
      simp only [hnone, hc c hcache]
      split
      · rfl
      · cases rf <;> rfl

/-- A slot answered with `EC_OK` or `EC_NOENT` met no fault, and the
persistent layer is left without the key. -/
theorem batch_delete_has {faults : Nat → Option Fault} {b : Backend} {keys : List KeyType}
    {i : Nat} {k : KeyType} {e : ErrorCode} (hk : keys[i]? = some k)
    (he : (batch deleteForOneKey faults b keys).2[i]? = some e)
    (hgone : e = .ok ∨ e = .noent) :
    (batch deleteForOneKey faults b keys).1.has k = false := by
  cases hf : faults i with
  | some fl =>
    obtain ⟨hok, hnoent⟩ := batch_faulted hf he
    exact absurd hgone (not_or.mpr ⟨hok, hnoent⟩)
  | none =>
    obtain ⟨t, -, -, hrest⟩ := batch_slot deleteForOneKey (P := fun _ => True)
      (fun _ _ _ _ => trivial) faults (b := b) trivial hk hf
    refine hrest (fun b' => b'.has k = false) (fun b' k' _ h => ?_) ?_
    · simp_all [has, lookup_deleteForOneKey]
    · simp [has, lookup_deleteForOneKey]

theorem conditional_delete_code {c : Store} {keys : List KeyType} {prev : List ErrorCode} {i : Nat}
    {e : ErrorCode} (he : (Hot.conditional Hot.delete c keys prev).2[i]? = some e)
    (hgone : e = .ok ∨ e = .noent) : ∃ e', prev[i]? = some e' ∧ (e' = .ok ∨ e' = .noent) := by
  have hlt : i < (keys.zip prev).length := by
    simpa [Hot.conditional] using (List.getElem?_eq_some_iff.mp he).1
  obtain ⟨hk, he'⟩ := List.getElem?_zip_eq_some.mp (List.getElem?_eq_getElem hlt)
  refine ⟨_, he', ?_⟩
  by_cases hok : (keys.zip prev)[i].2 = .ok
  · exact .inl hok
  · rwa [some.inj ((Hot.conditional_skipped hk he' hok).symm.trans he)]

theorem delete_gone_iff (m : Manager) (f : WriteFaults) (keys : List KeyType) {i : Nat}
    {k : KeyType} {e : ErrorCode} (hk : keys[i]? = some k)
    (he : (m.delete f keys).2[i]? = some e) (hgone : e = .ok ∨ e = .noent) :
    (m.delete f keys).1.Gone k ↔ ∀ c, m.cache = some c → c.lookup k = none
      ∨ (m.persistent.has k = true ∧ acknowledges f.delete k keys.zipIdx = true) := by
  have hacked : (k, ErrorCode.ok) ∈ keys.zip
      (batch deleteForOneKey f.delete m.persistent keys).2
      ↔ m.persistent.has k = true ∧ acknowledges f.delete k keys.zipIdx = true := by
    simpa [batch] using
      mem_zip_delete_iff f.delete k m.persistent keys.zipIdx
  unfold delete at he ⊢
  cases hcache : m.cache with
  | none =>
    simp only [hcache] at he ⊢
    refine ⟨by simp, fun _ => Gone.of_layers ?_ fun c hc => ?_⟩
    · exact batch_delete_has hk he hgone
    · cases hc
  | some c =>
    simp only [hcache, some.injEq, forall_eq', ← hacked] at he ⊢
    rw [← Hot.conditional_delete_lookup_iff]
    refine ⟨fun h => h.cache _ rfl, fun h => Gone.of_layers ?_ fun c' hc' => ?_⟩
    · obtain ⟨ep, hep, hepg⟩ := conditional_delete_code he hgone
      exact batch_delete_has hk hep hepg
    · obtain rfl := some.inj hc'
      exact h

def heldByBoth (e : KeyEntry) : Manager :=
  { persistent := { kind := .redis, store := (∅ : Store).insert 1 e }
    cache := some ((∅ : Store).insert 1 e)
    recoverState := .running
    deletedKeys := [] }

theorem delete_gone_heldByBoth :
    ((heldByBoth ⟨∅, (∅ : PropertyMap).insert "p" "v"⟩).delete {} [1]).1.Gone 1 :=
  (delete_gone_iff (i := 0) _ {} [1] rfl rfl (.inl rfl)).mpr fun _ _ => .inr ⟨rfl, rfl⟩

/-- A delete that timed out after it was applied, and its retry: the retry is
answered with `EC_NOENT`, and the key is still read. -/
theorem retried_delete_still_read : ∃ (m : Manager) (f : WriteFaults) (e : KeyEntry),
    m.recoverState = .running ∧ (m.delete f [1]).2 = [.timeout]
      ∧ ((m.delete f [1]).1.delete {} [1]).2 = [.noent]
      ∧ ((m.delete f [1]).1.delete {} [1]).1.get none 1 = (.ok, some e)
      ∧ ¬ ((m.delete f [1]).1.delete {} [1]).1.Gone 1 := by
  refine ⟨heldByBoth ⟨∅, (∅ : PropertyMap).insert "p" "v"⟩,
    { delete := fun _ => some (.unacked ⟨.timeout, by decide, by decide⟩) }, _,
    rfl, rfl, rfl, rfl, fun h => ?_⟩
  exact some_ne_none _ (h.get none)

end Manager

end TairKvCache
