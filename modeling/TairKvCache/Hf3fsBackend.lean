import TairKvCache.Lib.Slots
import TairKvCache.StandardUri
import TairKvCache.Types

/-!
# Keys packed into one file

`Hf3fsBackend::Create` packs `key_count_per_file` keys into one file and tells
them apart by `blkid`. `Delete` reads the path alone, so it removes the file
together with the blocks of keys it was not given. Which file a path names is
left to the file system (`resolve`).
-/

namespace TairKvCache

open Lib StandardUri List

structure Hf3fsBackend where
  basePath : String
  keyCountPerFile : Int

namespace Hf3fsBackend

/-- `std::filesystem::path::operator/`. -/
def join (base key : String) : String :=
  if key.startsWith "/" then key
  else if base = "" ∨ base.endsWith "/" then base ++ key else base ++ "/" ++ key

variable {File : Type} {b : Hf3fsBackend} {hash : String → String}
    {size : Nat} {resolve : String → File} {keys : List String}

def batchSize (b : Hf3fsBackend) : Nat :=
  if b.keyCountPerFile ≤ 0 then 1 else b.keyCountPerFile.toNat

/-- The batch of pass `i` starts at `i * batch_size`. -/
def batches (b : Hf3fsBackend) (keys : List String) : List (List String) :=
  (range ((keys.length + b.batchSize - 1) / b.batchSize)).map fun i =>
    (keys.drop (i * b.batchSize)).take b.batchSize

/-- `hash` is the hexadecimal `Hash64` with its fixed seed. -/
def uriOf (b : Hf3fsBackend) (hash : String → String) (size : Nat) (batch : List String) (j : Nat) :
    StandardUri :=
  let key := batch.headD ""
  let params := setParam [] "size" (toString size)
  { protocol := "hf3fs"
    path := join b.basePath
      (if 1 < batch.length then key ++ "_" ++ hash ("|".intercalate batch) else key)
    params := if 1 < b.batchSize then setParam params "blkid" (toString j) else params }

def create (b : Hf3fsBackend) (hash : String → String) (size : Nat) (keys : List String) :
    List StandardUri :=
  (b.batches keys).flatMap fun batch => (range batch.length).map (b.uriOf hash size batch)

/-- `remove` fails on the calls of `fails`. -/
def delete [DecidableEq File] (resolve : String → File) (fails : Nat → Bool) (files : File → Bool)
    (uris : List StandardUri) : (File → Bool) × List ErrorCode :=
  runSlots (fun files p =>
    if fails p.2 then (files, .error)
    else (Function.update files (resolve p.1.path) false, .ok)) files uris.zipIdx

/-- No part of the created URIs takes the file of another one along. -/
def DeletesOnly [DecidableEq File] (b : Hf3fsBackend) (hash : String → String) (size : Nat)
    (resolve : String → File) (keys : List String) : Prop :=
  ∀ uris ⊆ b.create hash size keys, ∀ fails files, ∀ u ∈ b.create hash size keys, u ∉ uris →
    (delete resolve fails files uris).1 (resolve u.path) = files (resolve u.path)

theorem batchSize_eq_one : b.batchSize = 1 ↔ b.keyCountPerFile ≤ 1 := by
  unfold batchSize
  split <;> omega

theorem deletesOnly_iff_files [DecidableEq File] : b.DeletesOnly hash size resolve keys ↔
    ∀ u ∈ b.create hash size keys, ∀ u' ∈ b.create hash size keys,
      resolve u.path = resolve u'.path → u = u' := by
  constructor
  · intro h u hu u' hu' heq
    by_contra hne
    have hkept := h [u'] (by simpa using hu') (fun _ => false) (fun _ => true) u hu (by simpa)
    simp [delete, heq] at hkept
  · intro h uris hsub fails files u hu hnot
    refine runSlots_inv (P := fun fs : File → Bool => fs (resolve u.path) = files (resolve u.path)) ?_ rfl
    intro fs p hp hfs
    have hmem := fst_mem_of_mem_zipIdx hp
    split
    · exact hfs
    · refine (Function.update_of_ne (fun heq => hnot ?_) _ _).trans hfs
      rwa [h u hu p.1 (hsub hmem) heq]

theorem create_of_single (h : b.batchSize = 1 ∨ keys.length ≤ 1) :
    b.create hash size keys = keys.map fun k => b.uriOf hash size [k] 0 := by
  have hpos : 1 ≤ b.batchSize := by
    unfold batchSize
    split <;> omega
  have hbatches : b.batches keys = keys.map ([·]) := by
    rcases h with h | h
    · refine ext_getElem (by simp [batches, h]) fun i h₁ h₂ => ?_
      rw [length_map] at h₂
      simp [batches, h, take_one, h₂]
    · match keys, h with
      | [], _ => simp [batches]; omega
      | [k], _ => simpa [batches, Nat.div_self hpos] using hpos
  simp [create, hbatches, flatMap_map, ← map_eq_flatMap]

theorem shared_file (hcount : 1 < b.keyCountPerFile) (hkeys : 1 < keys.length)
    (h : ∀ u ∈ b.create hash size keys, ∀ u' ∈ b.create hash size keys,
      resolve u.path = resolve u'.path → u = u') : False := by
  have hsize : 1 < b.batchSize := by
    unfold batchSize
    split <;> omega
  have hbatch : keys.take b.batchSize ∈ b.batches keys := by
    refine mem_map.mpr ⟨0, mem_range.mpr (Nat.div_pos ?_ ?_), by simp⟩ <;> omega
  have hmem : ∀ j < 2, b.uriOf hash size (keys.take b.batchSize) j ∈ b.create hash size keys :=
    fun j hj => mem_flatMap.mpr ⟨_, hbatch, mem_map.mpr ⟨j, by simp; omega, rfl⟩⟩
  have heq := congrArg params (h _ (hmem 0 (by omega)) _ (hmem 1 (by omega)) rfl)
  simp [uriOf, hsize, setParam, show "blkid" < "size" by decide] at heq

theorem deletesOnly_iff [DecidableEq File] : b.DeletesOnly hash size resolve keys ↔
    keys.length ≤ 1 ∨ b.keyCountPerFile ≤ 1 ∧ ∀ k ∈ keys, ∀ k' ∈ keys,
      resolve (join b.basePath k) = resolve (join b.basePath k') →
        join b.basePath k = join b.basePath k' := by
  rw [deletesOnly_iff_files]
  constructor
  · intro h
    by_cases hone : keys.length ≤ 1
    · exact .inl hone
    have hcount : b.keyCountPerFile ≤ 1 := by
      by_contra hc
      exact shared_file (by omega) (by omega) h
    refine .inr ⟨hcount, fun k hk k' hk' heq => ?_⟩
    rw [create_of_single (.inl (batchSize_eq_one.mpr hcount)), forall_mem_map] at h
    exact congrArg path (forall_mem_map.mp (h k hk) k' hk' heq)
  · rintro (hone | ⟨hcount, hfiles⟩)
    · rw [create_of_single (.inr hone)]
      match keys, hone with
      | [], _ => simp
      | [k], _ => simp
    · have hsize := batchSize_eq_one.mpr hcount
      rw [create_of_single (.inl hsize), forall_mem_map]
      refine fun k hk => forall_mem_map.mpr fun k' hk' heq => ?_
      simpa [uriOf, hsize] using hfiles k hk k' hk' heq

/-- Two keys in one file: deleting the first block removes the second. -/
theorem packed_delete_removes_other : ∃ (b : Hf3fsBackend) (keys : List String),
    ¬ b.DeletesOnly id 1 id keys :=
  ⟨⟨"/mnt/kv", 2⟩, ["a", "b"], fun h =>
    shared_file (by decide) (by decide) (deletesOnly_iff_files.mp h)⟩

end Hf3fsBackend

end TairKvCache
