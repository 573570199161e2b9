import TairKvCache.PyConnector.Scheduler

/-!
# What an external match promises to vLLM

`get_num_new_matched_tokens` asks the manager for the blocks after the
`num_computed_tokens / managerBlockSize` whole blocks vLLM has, and answers in
tokens counted from `num_computed_tokens` itself. The clamp of
`_safe_external_prefix` always leaves a token to compute
(`capLimit_lt`), but the rounding is undone nowhere: the promised tokens end
beyond the stored locations by what the division cut off
(`matched_tokens_covered_iff`).
-/

namespace TairKvCache.PyConnector

open List

namespace ConnectorScheduler

variable {cfg : SchedulerConfig}

/-! ## The clamp -/

theorem capLimit_lt {mbs nc numTokens limit : Nat} (h : 0 < capLimit mbs nc numTokens limit) :
    nc + capLimit mbs nc numTokens limit * mbs < numTokens := by
  induction limit with
  | zero => exact absurd h (Nat.lt_irrefl 0)
  | succ limit ih =>
    rw [capLimit] at h ⊢
    split_ifs at h ⊢ with hle
    · exact ih h
    · omega

variable (cfg) in
theorem foldl_keep_le (locations : List LocationDict) (i keep : Nat) (hkeep : keep ≤ i) :
    (locations.zipIdx i).foldl
        (fun keep p => if locationCoversStates cfg p.1 then p.2 + 1 else keep) keep ≤
      i + locations.length := by
  induction locations generalizing i keep with
  | nil => simpa using hkeep
  | cons location rest ih =>
    rw [zipIdx_cons, foldl_cons, length_cons]
    dsimp only
    have := ih (i + 1) (if locationCoversStates cfg location then i + 1 else keep)
      (by split_ifs <;> omega)
    omega

theorem keepBlocks_le (locations : List LocationDict) :
    keepBlocks cfg locations ≤ locations.length := by
  simpa [keepBlocks] using foldl_keep_le cfg locations 0 0 (Nat.le_refl 0)

/-- A clamped match that is not empty leaves a token to compute. -/
theorem safeExternalPrefix_lt {locations : List LocationDict} {nc numTokens : Nat}
    (h : 0 < (safeExternalPrefix cfg locations nc numTokens).length) :
    nc + (safeExternalPrefix cfg locations nc numTokens).length * cfg.managerBlockSize <
      numTokens := by
  have hle : (safeExternalPrefix cfg locations nc numTokens).length ≤
      capLimit cfg.managerBlockSize nc numTokens locations.length := by
    rw [safeExternalPrefix, length_take]
    refine (min_le_left ..).trans (Nat.le_trans (keepBlocks_le _) ?_)
    rw [length_take]
    exact min_le_left ..
  have hcap := capLimit_lt (h.trans_le hle)
  have := Nat.mul_le_mul_right cfg.managerBlockSize hle
  omega

theorem ne_nil_of_safeExternalPrefix {locations : List LocationDict} {nc numTokens : Nat}
    (h : 0 < (safeExternalPrefix cfg locations nc numTokens).length) : locations ≠ [] := by
  rintro rfl
  simp [safeExternalPrefix] at h

/-! ## The promise -/

/-- The token lies in one of the blocks whose locations are stored for the
allocation. -/
def StoredAt (cfg : SchedulerConfig) (s : ConnectorScheduler) (reqId : String) (p : Nat) : Prop :=
  ∃ locations computedBlocks,
    (s.locationQueryManager.consumeLocations reqId).2 = some (locations, computedBlocks) ∧
      computedBlocks * cfg.managerBlockSize ≤ p ∧
      p < (computedBlocks + locations.length) * cfg.managerBlockSize

/-- A positive answer comes from a clamped answer of the manager, which is
stored for the allocation under the rounded offset. -/
theorem matched_stored {s s' : ConnectorScheduler} {request : Request} {nc n : Nat} {env : AskEnv}
    {load : Bool} (h : s.getNumNewMatchedTokens cfg request nc env = (s', some n, load))
    (hn : 0 < n) : ∃ locations, 0 < (safeExternalPrefix cfg locations nc request.numTokens).length ∧
      n = (safeExternalPrefix cfg locations nc request.numTokens).length *
        cfg.managerBlockSize ∧
      (s'.locationQueryManager.consumeLocations request.requestId).2 =
        some (safeExternalPrefix cfg locations nc request.numTokens,
          nc / cfg.managerBlockSize) := by
  rw [getNumNewMatchedTokens] at h
  split_ifs at h with hburned
  · -- a burned match answers zero
    cases htracked : s.tracked request.requestId with
    | none | some l =>
      rw [htracked] at h
      cases h
      exact absurd hn (Nat.lt_irrefl 0)
  · generalize hask : s.locationQueryManager.getLocationsForQuery cfg.asyncGetCacheLocation
      cfg.locationQueryMaxAge request (nc / cfg.managerBlockSize) env = r at h
    obtain ⟨m, answer⟩ := r
    cases answer with
    | none => cases h
    | some locations =>
      obtain ⟨rfl, hcount, -⟩ : _ ∧ _ ∧ _ := by simpa using h
      subst hcount
      have hpos := Nat.pos_of_mul_pos_right hn
      obtain ⟨q, hq, hkey⟩ := LocationQueryManager.getLocationsForQuery_slot hask
        (ne_nil_of_safeExternalPrefix hpos)
      refine ⟨locations, hpos, rfl, ?_⟩
      have hstored := LocationQueryManager.consume_storeResult hq
        (safeExternalPrefix cfg locations nc request.numTokens)
      rw [hkey] at hstored
      exact hstored

/-- The promised tokens all lie in the computed prefix or in the stored
blocks, and leave one to compute, exactly when the computed prefix ends on a
manager block boundary. -/
theorem matched_tokens_covered_iff (cfg : SchedulerConfig) (s s' : ConnectorScheduler)
    (request : Request) (computedVllmBlocks n : Nat) (env : AskEnv) (load : Bool)
    (h : s.getNumNewMatchedTokens cfg request (computedVllmBlocks * cfg.vllmBlockSize) env =
      (s', some n, load)) (hn : 0 < n) :
    ((∀ p, computedVllmBlocks * cfg.vllmBlockSize ≤ p →
          p < computedVllmBlocks * cfg.vllmBlockSize + n →
          p < computedVllmBlocks * cfg.vllmBlockSize ∨ StoredAt cfg s' request.requestId p) ∧
        computedVllmBlocks * cfg.vllmBlockSize + n < request.numTokens) ↔
      cfg.managerBlockSize ∣ computedVllmBlocks * cfg.vllmBlockSize := by
  obtain ⟨locations, hpos, rfl, hstored⟩ := matched_stored h hn
  have hlt := safeExternalPrefix_lt hpos
  generalize computedVllmBlocks * cfg.vllmBlockSize = nc at hstored hlt hpos hn ⊢
  generalize safeExternalPrefix cfg locations nc request.numTokens = kept at *
  have hfloor := Nat.div_mul_le_self nc cfg.managerBlockSize
  have hcov : ∀ p, StoredAt cfg s' request.requestId p ↔
      nc / cfg.managerBlockSize * cfg.managerBlockSize ≤ p ∧
        p < nc / cfg.managerBlockSize * cfg.managerBlockSize +
          kept.length * cfg.managerBlockSize := by
    intro p
    rw [StoredAt, hstored]
    constructor
    · rintro ⟨_, _, heq, hlo, hhi⟩
      obtain ⟨rfl, rfl⟩ := Prod.mk.inj (Option.some.inj heq)
      exact ⟨hlo, by rwa [← Nat.add_mul]⟩
    · rintro ⟨hlo, hhi⟩
      exact ⟨_, _, rfl, hlo, by rwa [Nat.add_mul]⟩
  constructor
  · rintro ⟨hall, -⟩
    -- the last promised token decides
    rcases hall (nc + kept.length * cfg.managerBlockSize - 1) (by omega) (by omega) with hp | hp
    · omega
    · have := ((hcov _).mp hp).2
      exact ⟨nc / cfg.managerBlockSize, by rw [Nat.mul_comm]; omega⟩
  · intro hdvd
    have heq := Nat.div_mul_cancel hdvd
    refine ⟨fun p hlo hhi => .inr ((hcov p).mpr ⟨by omega, by omega⟩), hlt⟩

/-! ## A prompt of ten tokens, vLLM blocks of two and manager blocks of four -/

def exampleConfig : SchedulerConfig := ⟨[⟨0, 2, false⟩], 4, 2, 1, false, 1000⟩

def exampleRequest : Request := ⟨"req", replicate 10 1, replicate 10 1⟩

def exampleEnv : AskEnv := ⟨0, 0, some [⟨[("tp0_g0", "uri")]⟩]⟩

/-- vLLM has four tokens: the stored block holds tokens 4 to 7, as promised. -/
theorem matched_after_whole_block :
    (∀ p, 2 * exampleConfig.vllmBlockSize ≤ p → p < 2 * exampleConfig.vllmBlockSize + 4 →
        p < 2 * exampleConfig.vllmBlockSize ∨ StoredAt exampleConfig
          (getNumNewMatchedTokens exampleConfig {} exampleRequest
            (2 * exampleConfig.vllmBlockSize) exampleEnv).1 exampleRequest.requestId p) ∧
      2 * exampleConfig.vllmBlockSize + 4 < exampleRequest.numTokens :=
  (matched_tokens_covered_iff exampleConfig {} _ exampleRequest 2 4 exampleEnv true rfl
    (by decide)).mpr (by decide)

/-- vLLM has two tokens: four more are promised, up to token 5, and the stored
block ends at token 3. -/
theorem matched_after_half_block : (getNumNewMatchedTokens exampleConfig {} exampleRequest
        (1 * exampleConfig.vllmBlockSize) exampleEnv).2 = (some 4, true) ∧
      ¬ StoredAt exampleConfig (getNumNewMatchedTokens exampleConfig {} exampleRequest
        (1 * exampleConfig.vllmBlockSize) exampleEnv).1 exampleRequest.requestId 4 := by
  refine ⟨rfl, ?_⟩
  rintro ⟨locations, computedBlocks, heq, -, hlt⟩
  obtain ⟨rfl, rfl⟩ := Prod.mk.inj (Option.some.inj heq)
  exact absurd hlt (by decide)

end ConnectorScheduler

end TairKvCache.PyConnector
