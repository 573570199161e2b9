import Mathlib

/-!
# LocalFileSdk

`DoGet` and `DoPut` of `client/src/internal/sdk/local_file_sdk.cc`: the iovs of
a block's buffer are copied from or to a mapping of the file, one after the
other from `blkid * size` on.

Offsets wrap at `2^64`, also where they are tested against the end of the
mapping, and nothing tests an iov against the end of its block. `Fits` is what
a copy needs to stay in its block.
-/

namespace TairKvCache.LocalFileSdk

inductive MemoryType
  | cpu
  | gpu

/-- `base` says that the pointer is not null. -/
structure Iov where
  type : MemoryType := .gpu
  base : Bool := false
  size : UInt64 := 0
  ignore : Bool := false

structure LocalFileItem where
  filePath : String
  blkid : UInt64 := 0
  size : UInt64 := 0

inductive ClientErrorCode
  | invalidParams
  | sdkTimeout
  | fileIoError
  | cudaMemcpyError
  | cudaStreamSynchronizeError
  | cudaHostRegisterError

abbrev Status := Except ClientErrorCode Unit

/-- What the system answers: opening and sizing the file, mapping and
registering it, the clock at each block, a copy of the GPU (`none` in a build
without one), the last wait for it. -/
structure Env where
  opened : Status := .ok ()
  registered : Status := .ok ()
  expired : Nat → Bool := fun _ => false
  gpuCopy : Nat → Nat → Option Bool := fun _ _ => none
  synchronized : Status := .ok ()

/-- A copy between an iov of a block and the mapping. -/
structure Copy where
  block : Nat
  iov : Nat
  offset : UInt64
  size : UInt64
  mapped : UInt64
deriving DecidableEq

variable (specSizes : List UInt64) (env : Env) (mapped : UInt64)

def copyIovs (block : Nat) : Nat → UInt64 → List Iov → Status × List Copy
  | _, _, [] => (.ok (), [])
  | j, offset, iov :: iovs =>
    if mapped < offset + iov.size then (.error .invalidParams, [])
    else
      let rest := copyIovs block (j + 1) (offset + iov.size) iovs
      let copy : Copy := ⟨block, j, offset, iov.size, mapped⟩
      if iov.ignore || !iov.base || iov.size = 0 then rest
      else match iov.type, env.gpuCopy block j with
        | .cpu, _ | .gpu, some true => (rest.1, copy :: rest.2)
        | .gpu, some false => (.error .cudaMemcpyError, [copy])
        | .gpu, none => rest

def validItem (item : LocalFileItem) : Bool := item.filePath ≠ "" && specSizes.contains item.size

/-- The loop over the blocks; `DoGet` checks the items in it. -/
def copyBlocks (valid : LocalFileItem → Bool) :
    Nat → List (LocalFileItem × List Iov) → Status × List Copy
  | _, [] => (env.synchronized, [])
  | i, (item, iovs) :: blocks =>
    if env.expired i then (.error .sdkTimeout, [])
    else if !valid item then (.error .invalidParams, [])
    else match copyIovs env mapped i 0 (item.blkid * item.size) iovs with
      | (.error e, copies) => (.error e, copies)
      | (.ok _, copies) =>
        let rest := copyBlocks valid (i + 1) blocks
        (rest.1, copies ++ rest.2)

variable (items : List LocalFileItem) (buffers : List (List Iov))

def checkSizes : Status :=
  if items.length ≠ buffers.length ∨ items.isEmpty then .error .invalidParams else .ok ()

def transfer (valid : LocalFileItem → Bool) :
    Except ClientErrorCode UInt64 → Status × List Copy
  | .error e => (.error e, [])
  | .ok mapped => copyBlocks env mapped valid 0 (items.zip buffers)

def doGet (fileSize : UInt64) : Status × List Copy :=
  transfer env items buffers (validItem specSizes) do
    checkSizes items buffers
    env.opened
    env.registered
    return fileSize

def requiredSize : UInt64 → UInt64 → List LocalFileItem → Except ClientErrorCode UInt64
  | _, required, [] => .ok required
  | maxBlkid, required, item :: items =>
    if !validItem specSizes item then .error .invalidParams
    else
      let maxBlkid := max maxBlkid item.blkid
      requiredSize maxBlkid (max required ((maxBlkid + 1) * item.size)) items

def doPut : Status × List Copy :=
  transfer env items buffers (fun _ => true) do
    checkSizes items buffers
    let required ← requiredSize specSizes 0 0 items
    env.opened
    if required = 0 then throw .invalidParams
    env.registered
    return required

/-- The bytes of a buffer before an iov, as the loop counts them. -/
def bytesBefore (iovs : List Iov) (j : Nat) : UInt64 := ((iovs.take j).map (·.size)).sum

namespace Copy

/-- The bytes copied are in the mapping and in their block. -/
def Inside (c : Copy) : Prop :=
  c.offset.toNat + c.size.toNat ≤ c.mapped.toNat ∧
    ∃ item, items[c.block]? = some item ∧ item.blkid.toNat * item.size.toNat ≤ c.offset.toNat ∧
      c.offset.toNat + c.size.toNat ≤ (item.blkid.toNat + 1) * item.size.toNat

/-- Up to the end of the iov the buffer is no longer than its block, and the
offsets in the file have 64 bits. -/
def Fits (c : Copy) : Prop :=
  ∃ item iovs iov, items[c.block]? = some item ∧ buffers[c.block]? = some iovs ∧
    iovs[c.iov]? = some iov ∧
    (bytesBefore iovs c.iov).toNat + iov.size.toNat ≤ item.size.toNat ∧
    item.blkid.toNat * item.size.toNat + (bytesBefore iovs c.iov).toNat + iov.size.toNat < 2 ^ 64

end Copy

variable {env mapped items buffers} {c : Copy}

theorem mem_copyIovs {block j : Nat} {offset : UInt64} {iovs : List Iov}
    (h : c ∈ (copyIovs env mapped block j offset iovs).2) :
    ∃ k iov, iovs[k]? = some iov ∧ offset + bytesBefore iovs k + iov.size ≤ mapped ∧
      c = ⟨block, j + k, offset + bytesBefore iovs k, iov.size, mapped⟩ := by
  induction iovs generalizing j offset with
  | nil => cases h
  | cons iov iovs ih =>
    rw [copyIovs] at h
    split at h
    · cases h
    rename_i hle
    have hcases : c = ⟨block, j, offset, iov.size, mapped⟩ ∨
        c ∈ (copyIovs env mapped block (j + 1) (offset + iov.size) iovs).2 := by
      dsimp only at h
      split at h
      · exact Or.inr h
      · split at h
        · exact List.mem_cons.mp h
        · exact List.mem_cons.mp h
        · exact Or.inl (List.mem_singleton.mp h)
        · exact Or.inr h
    rcases hcases with rfl | h
    · refine ⟨0, iov, rfl, ?_, ?_⟩
      · simpa [bytesBefore] using hle
      · simp [bytesBefore]
    · obtain ⟨k, iov', hk, hle', rfl⟩ := ih h
      have hnext : offset + bytesBefore (iov :: iovs) (k + 1) =
          offset + iov.size + bytesBefore iovs k := by simp [bytesBefore, UInt64.add_assoc]
      refine ⟨k + 1, iov', hk, hnext ▸ hle', ?_⟩
      rw [hnext, Nat.add_assoc, Nat.add_comm 1]

theorem mem_copyBlocks {valid : LocalFileItem → Bool} {i : Nat}
    {blocks : List (LocalFileItem × List Iov)} (h : c ∈ (copyBlocks env mapped valid i blocks).2) :
    ∃ k item iovs, blocks[k]? = some (item, iovs) ∧
      c ∈ (copyIovs env mapped (i + k) 0 (item.blkid * item.size) iovs).2 := by
  induction blocks generalizing i with
  | nil => cases h
  | cons b blocks ih =>
    rw [copyBlocks] at h
    split at h
    · cases h
    split at h
    · cases h
    split at h
    · rename_i heq
      exact ⟨0, b.1, b.2, rfl, by rwa [Nat.add_zero, heq]⟩
    · rename_i heq
      rcases List.mem_append.mp h with h | h
      · exact ⟨0, b.1, b.2, rfl, by rwa [Nat.add_zero, heq]⟩
      · obtain ⟨k, item, iovs, hk, h⟩ := ih h
        exact ⟨k + 1, item, iovs, hk, by rwa [Nat.add_right_comm] at h⟩

theorem inside_iff {valid : LocalFileItem → Bool} {prepared : Except ClientErrorCode UInt64}
    (h : c ∈ (transfer env items buffers valid prepared).2) :
    c.Inside items ↔ c.Fits items buffers := by
  cases prepared with
  | error e => cases h
  | ok mapped =>
    obtain ⟨i, item, iovs, hblock, h⟩ := mem_copyBlocks h
    obtain ⟨hitem, hiovs⟩ := List.getElem?_zip_eq_some.mp hblock
    obtain ⟨j, iov, hiov, hle, rfl⟩ := mem_copyIovs h
    have hbefore := (bytesBefore iovs j).toNat_lt
    have hmapped := mapped.toNat_lt
    simp only [Copy.Inside, Copy.Fits, Nat.zero_add, hitem, hiovs, Option.some.injEq,
      exists_and_left, exists_eq_left', hiov, Nat.add_mul, Nat.one_mul]
    simp only [UInt64.le_iff_toNat_le, UInt64.toNat_add, UInt64.toNat_mul] at hle ⊢
    generalize item.blkid.toNat * item.size.toNat = start at hle ⊢
    omega

/-- Exactly the copies that fit stay in the mapping and in their block. -/
theorem copies_inside_iff (specSizes : List UInt64) (env : Env) (items : List LocalFileItem)
    (buffers : List (List Iov)) :
    (∀ fileSize, ∀ c ∈ (doGet specSizes env items buffers fileSize).2,
        (c.Inside items ↔ c.Fits items buffers)) ∧
      ∀ c ∈ (doPut specSizes env items buffers).2, (c.Inside items ↔ c.Fits items buffers) :=
  ⟨fun _ _ hc => inside_iff hc, fun _ hc => inside_iff hc⟩

/-- Two blocks of one byte; the end of the second one wraps to zero, which is
inside any mapping, and the byte in front of the mapping is written. -/
theorem wrapped_put_before_mapping :
    let items : List LocalFileItem := [⟨"/f", 0, 1⟩, ⟨"/f", 2 ^ 64 - 1, 1⟩]
    let buffers : List (List Iov) := .replicate 2 [{ type := .cpu, base := true, size := 1 }]
    ∃ c ∈ (doPut [1] {} items buffers).2, ¬c.Inside items :=
  ⟨⟨1, 0, 2 ^ 64 - 1, 1, 1⟩, by decide +kernel, fun h => absurd h.1 (by decide +kernel)⟩

end TairKvCache.LocalFileSdk
