import TairKvCache.PyConnector.TpCoordinator

/-!
# Reading pages back

`batch_get_v1` of the SGLang connector (`HiCacheKVCM`). The manager may match
fewer pages than were asked for. Only the matched ones are read, and the
result of that one transfer is reported for every page.
-/

namespace TairKvCache.HiCache

open PyConnector List
open Option (some.inj bind_eq_some_iff map_eq_some_iff ite_none_left_eq_some)

/-- The iovs of one page, base address and size. -/
abbrev BlockBuffer := List (Nat × Nat)

/-- A call of `batch_get_v1` with what it meets: the manager (`none` where it
raises) and the answer of the host pool's `get_page_buffer_meta`. -/
structure GetCall where
  locationSpecName : String
  kvFactor : Nat
  prefixKeys : List String
  keys : List String
  sha256ToInt64 : String → Int
  getCacheLocation : List Int → Nat → Option (List LocationDict)
  bufferPtrs : List Nat
  bufferSizes : List Nat

namespace GetCall

variable (q : GetCall) (load : List String → List BlockBuffer → Option Bool)

/-- The answer to the request for the keys after the prefix. -/
def located : Option (List LocationDict) :=
  q.getCacheLocation ((q.prefixKeys ++ q.keys).map q.sha256ToInt64) q.prefixKeys.length

def extractUris (locations : List LocationDict) : List String :=
  locations.flatMap fun loc => (loc.locationSpecs.filter (·.1 = q.locationSpecName)).map (·.2)

def page (ptrs sizes : List Nat) (i : Nat) : BlockBuffer :=
  ((ptrs.zip sizes).drop (i * q.kvFactor)).take q.kvFactor

/-- `none` where the step of the range is 0 or an index is out of range. -/
def prepareBuffers (ptrs sizes : List Nat) : Option (List BlockBuffer) :=
  if q.kvFactor = 0 ∨ ¬q.kvFactor ∣ ptrs.length ∨ sizes.length < ptrs.length then none
  else some ((range (ptrs.length / q.kvFactor)).map (q.page ptrs sizes))

def matchedBuffers (locations : List LocationDict) : Option (List BlockBuffer) :=
  q.prepareBuffers (q.bufferPtrs.take (locations.length * q.kvFactor))
    (q.bufferSizes.take (locations.length * q.kvFactor))

/-- `_batch_get`; `load` says whether `LoadKvCaches` answers `ER_OK`. -/
def batchGet : Option (List Bool) :=
  q.located.bind fun locations =>
    if locations = [] then some (replicate q.keys.length false)
    else
      (q.matchedBuffers locations).bind fun buffers =>
        if (q.extractUris locations).length ≠ buffers.length then none
        else (load (q.extractUris locations) buffers).map (replicate q.keys.length)

def batchGetV1 : List Bool := (q.batchGet load).getD (replicate q.keys.length false)

/-- `LoadKvCaches` is called for these locations and buffers. -/
def Transfers (locations : List LocationDict) (buffers : List BlockBuffer) : Prop :=
  q.located = some locations ∧ locations ≠ [] ∧ q.matchedBuffers locations = some buffers ∧
    (q.extractUris locations).length = buffers.length

/-- There is a location for key `i`, and the URI at its place is one of it. -/
def Aligned (locations : List LocationDict) (i : Nat) : Prop := ∃ loc uri,
  locations[i]? = some loc ∧ (q.locationSpecName, uri) ∈ loc.locationSpecs ∧
    (q.extractUris locations)[i]? = some uri

/-- A URI of key `i`'s location was read into key `i`'s page. -/
def Loaded (i : Nat) : Prop := ∃ locations buffers, q.Transfers locations buffers ∧
  load (q.extractUris locations) buffers = some true ∧ q.Aligned locations i ∧
    buffers[i]? = some (q.page q.bufferPtrs q.bufferSizes i)

/-- All flags are false, or they are the result of the transfer. -/
theorem batchGetV1_spec : ∃ flag, q.batchGetV1 load = replicate q.keys.length flag ∧
    (flag = true → ∃ locations buffers, q.Transfers locations buffers ∧
      load (q.extractUris locations) buffers = some true) := by
  unfold batchGetV1
  cases h : q.batchGet load with
  | none => exact ⟨false, rfl, by simp⟩
  | some flags =>
    obtain ⟨locations, hl, h⟩ := bind_eq_some_iff.mp h
    split at h
    · exact ⟨false, (some.inj h).symm, by simp⟩
    · rename_i hne
      obtain ⟨buffers, hb, h⟩ := bind_eq_some_iff.mp h
      obtain ⟨hlen, h⟩ := ite_none_left_eq_some.mp h
      obtain ⟨flag, hflag, rfl⟩ := map_eq_some_iff.mp h
      exact ⟨flag, rfl, fun hf =>
        ⟨locations, buffers, ⟨hl, hne, hb, not_not.mp hlen⟩, hf ▸ hflag⟩⟩

variable {q}

theorem matchedBuffers_page {locations : List LocationDict} {buffers : List BlockBuffer} {i : Nat}
    (h : q.matchedBuffers locations = some buffers) (hi : i < buffers.length) :
    buffers[i]? = some (q.page q.bufferPtrs q.bufferSizes i) := by
  obtain ⟨hok, hb⟩ := ite_none_left_eq_some.mp h
  obtain rfl := some.inj hb
  rw [length_map, length_range] at hi
  have hlen : (i + 1) * q.kvFactor ≤ locations.length * q.kvFactor :=
    ((Nat.le_div_iff_mul_le (by grind)).mp hi).trans (length_take_le _ _)
  have hroom : q.kvFactor ≤ locations.length * q.kvFactor - i * q.kvFactor := by
    rw [Nat.succ_mul] at hlen
    omega
  rw [getElem?_map, getElem?_range hi, Option.map_some, page, page, zip_eq_zipWith,
    ← take_zipWith, drop_take, take_take, Nat.min_eq_left hroom, zip_eq_zipWith]

/-- There is one flag per key, true only for pages that were read, whatever
the transfer answers, exactly when a transfer is only made for locations that
are those of the keys, one by one. -/
theorem batchGetV1_sound_iff (q : GetCall) :
    (∀ load, (q.batchGetV1 load).length = q.keys.length ∧
      ∀ i, (q.batchGetV1 load)[i]? = some true → q.Loaded load i) ↔
    ∀ locations buffers, q.Transfers locations buffers →
      ∀ i < q.keys.length, q.Aligned locations i := by
  constructor
  · rintro h locations buffers ⟨hl, hne, hb, hlen⟩ i hi
    have hflags : q.batchGetV1 (fun _ _ => some true) = replicate q.keys.length true := by
      simp [batchGetV1, batchGet, hl, hne, hb, hlen]
    obtain ⟨_, _, ht, -, ha, -⟩ := (h fun _ _ => some true).2 i (by simp [hflags, hi])
    obtain rfl := some.inj (hl.symm.trans ht.1)
    exact ha
  · intro h load
    obtain ⟨flag, hflags, hloaded⟩ := batchGetV1_spec q load
    rw [hflags]
    refine ⟨length_replicate, fun i hi => ?_⟩
    obtain ⟨hlt, rfl⟩ : i < q.keys.length ∧ flag = true := by simpa [getElem?_replicate] using hi
    obtain ⟨locations, buffers, ht, hload⟩ := hloaded rfl
    have ha := h locations buffers ht i hlt
    refine ⟨locations, buffers, ht, hload, ha, ?_⟩
    obtain ⟨_, _, _, _, huri⟩ := ha
    exact matchedBuffers_page ht.2.2.1 (ht.2.2.2 ▸ (List.getElem?_eq_some_iff.mp huri).1)

/-- The manager matches one of two pages, and both are reported as read. -/
theorem unmatched_page_reported :
    let q : GetCall := ⟨"f", 1, [], ["a", "b"], fun _ => 0, fun _ _ => some [⟨[("f", "u")]⟩],
      [10, 20], [4, 4]⟩
    q.batchGetV1 (fun _ _ => some true) = [true, true] ∧ ¬q.Loaded (fun _ _ => some true) 1 := by
  refine ⟨by decide, ?_⟩
  rintro ⟨_, _, ⟨hl, -⟩, -, ⟨_, _, hloc, -⟩, -⟩
  cases hl
  cases hloc

end GetCall

end TairKvCache.HiCache
