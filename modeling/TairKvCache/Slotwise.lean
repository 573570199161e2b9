import TairKvCache.Searcher
import TairKvCache.WritePhase

/-!
# Batches of slot modifiers

Most operations of the searcher look at the locations of a key one by one
(`slotModifier`). For these the decision about a key has a simple form
(`slotDecision`), in which the read, the code and the working copy of each
location stand side by side. It rests on one property every slot function of
the searcher has: a read that failed is answered with its own code
(`Honest`).
-/

namespace TairKvCache

open Lib List

/-! ## Plain batches

Without refresh, maintenance and creation tracking a batch reads what the
manager answers and writes. -/

namespace Indexer

variable {π : Type}

def plainDecisions (modifier : LocationModifier π) (ix : Indexer) (env : BatchFaults)
    (ts : List Target) : List (Decision π) :=
  ts.zipIdx.map fun p =>
    decideLocations false modifier p.1 .ok
      (ix.manager.getLocations (env.read p.2) p.1.key p.1.ids)

theorem zip_const_zipIdx {α β : Type} (as : List α) (b : β) :
    (as.zip (as.map fun _ => b)).zipIdx = as.zipIdx.map fun p => ((p.1, b), p.2) := by
  have hzip : as.zip (as.map fun _ => b) = as.map fun a => (a, b) := by
    induction as with
    | nil => rfl
    | cons a as ih => rw [map_cons, zip_cons_cons, ih]; rfl
  rw [hzip, zipIdx_map]
  rfl

theorem locationBatch_plain (modifier : LocationModifier π) (ix : Indexer) (env : BatchFaults)
    (ts : List Target) (adjustReclaimed : Bool) :
    ix.locationBatch { adjustReclaimed } modifier env ts
      = ix.write env .targets false (ix.plainDecisions modifier env ts) adjustReclaimed := by
  unfold locationBatch refreshed locationDecisions refreshBatch plainDecisions
  simp only [Bool.false_and, Bool.false_eq_true, if_false]
  rw [zip_const_zipIdx, map_map]
  congr 1

theorem plainDecisions_index (modifier : LocationModifier π) (ix : Indexer) (env : BatchFaults)
    (ts : List Target) : (ix.plainDecisions modifier env ts).map (·.index) = ts.map (·.index) := by
  have hfst := congrArg (map Target.index) (zipIdx_map_fst 0 ts)
  rw [map_map] at hfst
  rw [plainDecisions, map_map, ← hfst]
  exact map_congr_left fun p _ => (decideLocations_target ..).1

end Indexer

theorem Manager.getLocations_length (m : Manager) (rf : Nat → Option FaultCode) (k : KeyType)
    (ids : List LocationId) : (m.getLocations rf k ids).length = ids.length := by
  unfold getLocations readPersistent
  cases m.cache with
  | none => simp
  | some c => dsimp only; split <;> simp

/-! ## Slot decisions -/

section

variable {γ : Type} {f : Nat → Nat → LocationId → LocationRead → Slot γ}

/-- A failed read is answered with its own code. -/
def Honest (f : Nat → Nat → LocationId → LocationRead → Slot γ) : Prop :=
  ∀ i j id r, readFailed r = true → (f i j id r).ec = r.1

def slotsOf (f : Nat → Nat → LocationId → LocationRead → Slot γ) (i : Nat)
    (reads : List (LocationId × LocationRead)) : List (Slot γ) :=
  reads.zipIdx.map fun p => f i p.2 p.1.1 p.1.2

@[simp] theorem slotsOf_length (f : Nat → Nat → LocationId → LocationRead → Slot γ) (i : Nat)
    (reads : List (LocationId × LocationRead)) : (slotsOf f i reads).length = reads.length := by
  simp [slotsOf]

def placed (ids : List LocationId) (slots : List (Slot γ)) : List (LocationId × LocationRead) :=
  ids.zip (slots.map fun s => (s.ec, s.location))

def slotAction (onUpdate : ModifierAction) (slots : List (Slot γ)) : ModifierAction :=
  if slots.any (·.ec = .ok) then onUpdate else .skip

def slotDecision (onUpdate : ModifierAction) (t : Target) (isNew : Bool)
    (reads : List LocationRead) (slots : List (Slot γ)) : Decision (List γ) :=
  { index := t.index
    key := t.key
    intent := intentOf (slotAction onUpdate slots) (placed t.ids slots) ∅ isNew
    codes := codesOf (slotAction onUpdate slots) (placed t.ids slots)
    failed := reads.any readFailed || failedOf (slotAction onUpdate slots) (placed t.ids slots)
    captured := some (slots.map (·.captured)) }

/-- An honest slot needs no correction after a failed read. -/
theorem forceRead_slots (hf : Honest f) (i : Nat) {ids : List LocationId}
    {reads : List LocationRead} (hlen : reads.length = ids.length) :
    zipWith forceRead reads
        ((slotsOf f i (ids.zip reads)).map fun s => (s.ec, s.location))
      = (slotsOf f i (ids.zip reads)).map fun s => (s.ec, s.location) := by
  refine ext_getElem (by simp [hlen]) fun j h₁ h₂ => ?_
  simp only [getElem_zipWith, getElem_map, slotsOf, getElem_zipIdx, getElem_zip]
  unfold forceRead
  split
  · rename_i hr
    rw [hf _ _ _ _ hr]
  · rfl

theorem decideModified_slots (hf : Honest f) (onUpdate : ModifierAction) (t : Target)
    (isNew : Bool) {reads : List LocationRead} (hlen : reads.length = t.ids.length) :
    decideModified t isNew reads (slotModifier onUpdate f t.index (t.ids.zip reads))
      = slotDecision onUpdate t isNew reads (slotsOf f t.index (t.ids.zip reads)) := by
  have hchecked : (slotModifier onUpdate f t.index (t.ids.zip reads)).checked t.ids
      = (slotAction onUpdate (slotsOf f t.index (t.ids.zip reads)),
          (slotsOf f t.index (t.ids.zip reads)).map fun s => (s.ec, s.location)) := by
    rw [LocationModified.checked, if_pos]
    · rfl
    · simp [slotModifier, hlen]
  unfold decideModified
  rw [hchecked]
  dsimp only
  rw [forceRead_slots hf t.index hlen]
  rfl

def readsOf (ids : List LocationId) (raw : List LocationRead) : List LocationRead :=
  (ids.zip raw).map checkRead

theorem readsOf_length {ids : List LocationId} {raw : List LocationRead}
    (h : raw.length = ids.length) : (readsOf ids raw).length = ids.length := by
  simp [readsOf, h]

theorem decideLocations_slots (hf : Honest f) (onUpdate : ModifierAction) (t : Target)
    (raw : List LocationRead) (hlen : raw.length = t.ids.length) :
    decideLocations false (slotModifier onUpdate f) t .ok raw
      = slotDecision onUpdate t false (readsOf t.ids raw)
          (slotsOf f t.index (t.ids.zip (readsOf t.ids raw))) := by
  have := decideModified_slots hf onUpdate t false (readsOf_length hlen)
  rw [← this]
  simp [decideLocations, readsOf]

end

end TairKvCache
