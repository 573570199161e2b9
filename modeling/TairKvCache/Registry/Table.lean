import TairKvCache.Types
import TairKvCache.Lib.OrdMap

/-!
# The registry's persisted maps

`RegistryStorageBackend` keeps one map of texts per key. The registry never
changes an entry in place: `LoadAndSave` and `LoadAndDelete` load the whole
map, change one entry and write the map back, or delete the key with the last
entry. This is a backend that does not fail; deleting an absent key answers
EC_NOENT.

The texts are kept abstract (`V`). `entry` looks one up, and the two
operations are known by what they do to it.
-/

namespace TairKvCache.Registry

open Function

abbrev ValueMap (V : Type) := Lib.OrdMap String V

abbrev Table (V : Type) := String → Option (ValueMap V)

namespace Table

variable {V : Type}

def load (t : Table V) (key : String) : ErrorCode × ValueMap V :=
  match t key with
  | none => (.noent, .empty)
  | some m => (.ok, m)

def save (t : Table V) (key : String) (m : ValueMap V) : ErrorCode × Table V :=
  (.ok, update t key (some m))

def delete (t : Table V) (key : String) : ErrorCode × Table V :=
  match t key with
  | none => (.noent, t)
  | some _ => (.ok, update t key none)

def loadAndSave (t : Table V) (key id : String) (value : V) : ErrorCode × Table V :=
  let r := t.load key
  if r.1 ≠ .ok ∧ r.1 ≠ .noent then (r.1, t) else t.save key (r.2.insert id value)

def loadAndDelete (t : Table V) (key id : String) : ErrorCode × Table V :=
  let r := t.load key
  if r.1 ≠ .ok ∧ r.1 ≠ .noent then (r.1, t)
  else if (r.2.erase id).entries = [] then t.delete key
  else t.save key (r.2.erase id)

/-! ## Entries -/

def entry (t : Table V) (key id : String) : Option V := (t key).bind (·.find id)

theorem load_code (t : Table V) (key : String) :
    (t.load key).1 = .ok ∨ (t.load key).1 = .noent := by
  rw [load]
  cases t key with
  | none => exact .inr rfl
  | some m => exact .inl rfl

theorem find_load (t : Table V) (key id : String) : (t.load key).2.find id = t.entry key id := by
  rw [load, entry]
  cases t key with
  | none => rfl
  | some m => rfl

theorem not_failed (t : Table V) (key : String) :
    ¬ ((t.load key).1 ≠ .ok ∧ (t.load key).1 ≠ .noent) := by
  rintro ⟨hok, hnoent⟩
  exact (t.load_code key).elim hok hnoent

theorem entry_save (t : Table V) (key : String) (m : ValueMap V) (key' id : String) :
    (t.save key m).2.entry key' id = if key = key' then m.find id else t.entry key' id := by
  by_cases h : key = key'
  · subst h
    simp [save, entry]
  · simp [save, entry, h, update_of_ne (Ne.symm h)]

theorem loadAndSave_eq (t : Table V) (key id : String) (value : V) :
    t.loadAndSave key id value = t.save key ((t.load key).2.insert id value) := by
  rw [loadAndSave]
  exact if_neg (t.not_failed key)

theorem loadAndSave_ok (t : Table V) (key id : String) (value : V) :
    (t.loadAndSave key id value).1 = .ok := by
  rw [loadAndSave_eq]
  rfl

theorem entry_loadAndSave (t : Table V) (key id : String) (value : V) (key' id' : String) :
    (t.loadAndSave key id value).2.entry key' id'
      = if key = key' ∧ id = id' then some value else t.entry key' id' := by
  rw [loadAndSave_eq, entry_save, Lib.OrdMap.find_insert, find_load]
  by_cases hkey : key = key'
  · subst hkey
    simp
  · simp [hkey]

theorem loadAndDelete_code (t : Table V) (key id : String) :
    (t.loadAndDelete key id).1 = if (t key).isSome then .ok else .noent := by
  rw [loadAndDelete, if_neg (t.not_failed key), delete, load]
  cases ht : t key with
  | none => rfl
  | some m =>
    dsimp only
    rw [Option.isSome_some, if_pos rfl]
    split_ifs <;> rfl

theorem entry_loadAndDelete (t : Table V) (key id key' id' : String) :
    (t.loadAndDelete key id).2.entry key' id'
      = if key = key' ∧ id = id' then none else t.entry key' id' := by
  rw [loadAndDelete, if_neg (t.not_failed key)]
  have hfind : ((t.load key).2.erase id).find id' = if id = id' then none else t.entry key id' := by
    rw [Lib.OrdMap.find_erase, find_load]
  by_cases hkey : key = key'
  · subst hkey
    simp only [true_and]
    rw [← hfind]
    split_ifs with hnil
    · rw [Lib.OrdMap.find_of_entries_nil hnil, delete]
      cases ht : t key with
      | none => simp [entry, ht]
      | some m => simp [entry]
    · rw [entry_save, if_pos rfl]
  · simp only [hkey, false_and, if_false]
    split_ifs with hnil
    · rw [delete]
      cases ht : t key with
      | none => rfl
      | some m => simp [entry, update_of_ne (Ne.symm hkey)]
    · rw [entry_save, if_neg hkey]

/-! ## Maps that are stored under a key -/

/-- The map under `key` has the entries of `f`, written by `g`. -/
def Stores {α : Type} (t : Table V) (key : String) (f : String → Option α) (g : String → α → V) :
    Prop :=
  ∀ id, t.entry key id = (f id).map (g id)

variable {α : Type} {t : Table V} {key : String} {f : String → Option α} {g : String → α → V}

theorem Stores.save (h : t.Stores key f g) (id : String) (x : α) :
    (t.loadAndSave key id (g id x)).2.Stores key (update f id (some x)) g := by
  intro id'
  rw [entry_loadAndSave]
  by_cases hid : id = id'
  · subst hid
    simp
  · rw [if_neg (by simp [hid]), update_of_ne (Ne.symm hid)]
    exact h id'

theorem Stores.delete (h : t.Stores key f g) (id : String) :
    (t.loadAndDelete key id).2.Stores key (update f id none) g := by
  intro id'
  rw [entry_loadAndDelete]
  by_cases hid : id = id'
  · subst hid
    simp
  · rw [if_neg (by simp [hid]), update_of_ne (Ne.symm hid)]
    exact h id'

theorem Stores.saveOther (h : t.Stores key f g) {key' : String} (hne : key' ≠ key) (id : String)
    (value : V) : (t.loadAndSave key' id value).2.Stores key f g := by
  intro id'
  rw [entry_loadAndSave, if_neg (by simp [hne])]
  exact h id'

theorem Stores.deleteOther (h : t.Stores key f g) {key' : String} (hne : key' ≠ key) (id : String) :
    (t.loadAndDelete key' id).2.Stores key f g := by
  intro id'
  rw [entry_loadAndDelete, if_neg (by simp [hne])]
  exact h id'

theorem Stores.find_load (h : t.Stores key f g) (id : String) :
    (t.load key).2.find id = (f id).map (g id) :=
  (t.find_load key id).trans (h id)

end Table

end TairKvCache.Registry
