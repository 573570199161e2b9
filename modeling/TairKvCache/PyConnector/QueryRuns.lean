import TairKvCache.PyConnector.LocationQuery

/-!
# Late answers to location queries

The scheduler thread asks, clamps, consumes and invalidates; the answers of
the manager come from other threads at any time, in any order. Next to the
manager's state stands what happened outside: the newest ask of each request,
with the query that was issued for it, and everything that was answered.

A slot only ever holds the newest ask of its request, and a prefix of an
answer to its query.
-/

namespace TairKvCache.PyConnector

open List LocationQueryManager Option Function

structure Ask where
  key : QueryCacheKey
  object : Nat
  issued : Nat

structure QuerySystem where
  manager : LocationQueryManager := {}
  /-- Request and query of the calls on the http executor. -/
  pending : List (String × Nat) := []
  /-- Request and answer of a match hook that has not stored its result yet. -/
  hook : Option (String × List LocationDict) := none
  /-- The newest ask, until it is consumed or invalidated. -/
  newest : String → Option Ask := fun _ => none
  answers : List (Nat × List LocationDict) := []

namespace QuerySystem

/-- The ask went through; a new query has been submitted if there is one. -/
def asking (s : QuerySystem) (request : Request) (computedBlocks : Nat) (env : AskEnv)
    (manager : LocationQueryManager) (locations : Option (List LocationDict)) : QuerySystem :=
  let reqId := request.requestId
  let key := keyOf request computedBlocks
  let object := s.manager.nextObject
  let s := { s with manager, hook := locations.map (reqId, ·) }
  if manager.nextObject = object then
    { s with newest := update s.newest reqId ((s.newest reqId).map ({ · with key })) }
  else
    { s with
      pending := (reqId, object) :: s.pending
      newest := update s.newest reqId (some ⟨key, object, env.issued⟩) }

inductive Step (maxAnswerAge : Nat) (s : QuerySystem) : QuerySystem → Prop
  | ask (request : Request) (computedBlocks : Nat) (env : AskEnv) {m : LocationQueryManager}
      {locations : Option (List LocationDict)}
      (h : s.manager.getLocationsForQuery true maxAnswerAge request computedBlocks env
        = (m, locations)) : Step maxAnswerAge s (s.asking request computedBlocks env m locations)
  /-- The hook stores the prefix that is safe for vLLM. -/
  | clamp {reqId : String} {locations : List LocationDict} (keep : Nat)
      (h : s.hook = some (reqId, locations)) : Step maxAnswerAge s
        { s with manager := s.manager.storeResult reqId (locations.take keep), hook := none }
  | consume (reqId : String) : Step maxAnswerAge s
      { s with
        manager := (s.manager.consumeLocations reqId).1
        hook := none
        newest := update s.newest reqId none }
  | invalidate (reqId : String) : Step maxAnswerAge s
      { s with
        manager := s.manager.invalidate reqId
        hook := none
        newest := update s.newest reqId none }
  /-- A call of the executor returns, or raises (`none`). -/
  | answer {reqId : String} {object : Nat} (fetched : Option (List LocationDict))
      (h : (reqId, object) ∈ s.pending) : Step maxAnswerAge s
        { s with
          manager := s.manager.answer reqId object fetched
          pending := s.pending.erase (reqId, object)
          answers := (fetched.map (object, ·)).toList ++ s.answers }

/-- The locations are a prefix of what was answered to the query. -/
def Answered (s : QuerySystem) (object : Nat) (locations : List LocationDict) : Prop :=
  ∃ answer, (object, answer) ∈ s.answers ∧ locations <+: answer

structure SlotOk (s : QuerySystem) (reqId : String) (q : Query) : Prop where
  newest : s.newest reqId = some ⟨q.key, q.object, q.askTime⟩
  answered : ∀ locations, q.locations = some locations → s.Answered q.object locations

structure Inv (s : QuerySystem) : Prop where
  slot : ∀ reqId q, s.manager.queries reqId = some q → s.SlotOk reqId q
  hook : ∀ reqId locations, s.hook = some (reqId, locations) →
    ∀ q, s.manager.queries reqId = some q → s.Answered q.object locations

end QuerySystem

variable {maxAnswerAge : Nat}

namespace LocationQueryManager

variable {m m' : LocationQueryManager} {request : Request} {computedBlocks : Nat} {env : AskEnv}
  {locations : Option (List LocationDict)}

/-- An ask is answered from the slot of its own key, or a new query is issued. -/
theorem getLocationsForQuery_cases
    (h : m.getLocationsForQuery true maxAnswerAge request computedBlocks env = (m', locations)) :
    (m' = m ∧ ∃ q, m.queries request.requestId = some q ∧ q.key = keyOf request computedBlocks ∧
      ∀ l, locations = some l → q.locations = some l ∧ env.now ≤ q.askTime + maxAnswerAge) ∨
    (locations = none ∧ ∃ count, m' = { m with staleSupersedeCount := count }.supersede
      (keyOf request computedBlocks) env.issued) := by
  unfold getLocationsForQuery at h
  split at h
  · cases h
    exact .inr ⟨rfl, _, rfl⟩
  · rename_i q hq
    split at h
    · rename_i hkey
      split at h
      · cases h
        exact .inl ⟨rfl, q, hq, hkey, by simp⟩
      · rename_i cached hcached
        split at h
        · rename_i hage
          cases h
          refine .inl ⟨rfl, q, hq, hkey, fun l hl => ?_⟩
          cases hl
          exact ⟨hcached, by omega⟩
        · cases h
          exact .inr ⟨rfl, _, rfl⟩
    · cases h
      exact .inr ⟨rfl, _, rfl⟩

theorem queries_setQuery_some {reqId reqId' : String} {q : Option Query} {q' : Query} :
    (m.setQuery reqId q).queries reqId' = some q' ↔
      reqId' = reqId ∧ q = some q' ∨ reqId' ≠ reqId ∧ m.queries reqId' = some q' := by
  by_cases h : reqId' = reqId
  · simp [setQuery, h]
  · simp [setQuery, h]

/-- An answer changes nothing unless its query is the one in the slot. -/
theorem answer_cases (m : LocationQueryManager) (reqId : String) (object : Nat)
    (fetched : Option (List LocationDict)) : m.answer reqId object fetched = m ∨
      ∃ q, m.queries reqId = some q ∧ q.object = object ∧ m.answer reqId object fetched
        = m.setQuery reqId (fetched.map fun l => { q with locations := some l }) := by
  unfold answer
  split
  · exact .inl rfl
  · rename_i q hq
    split
    · rename_i hobject
      refine .inr ⟨q, hq, hobject, ?_⟩
      cases fetched with
      | none => rfl
      | some l => rfl
    · exact .inl rfl

end LocationQueryManager

namespace QuerySystem

variable {s s' : QuerySystem}

theorem Inv.drop (hs : s.Inv) (reqId : String) :
    Inv { s with
      manager := s.manager.setQuery reqId none
      hook := none
      newest := update s.newest reqId none } := by
  refine ⟨fun reqId' q hq => ?_, by simp⟩
  rcases queries_setQuery_some.mp hq with ⟨-, h⟩ | ⟨hne, hq⟩
  · cases h
  · have hslot := hs.slot reqId' q hq
    exact { hslot with newest := (update_of_ne hne ..).trans hslot.newest }

theorem Inv.ask (hs : s.Inv) {request : Request} {computedBlocks : Nat} {env : AskEnv}
    {m : LocationQueryManager} {locations : Option (List LocationDict)}
    (h : s.manager.getLocationsForQuery true maxAnswerAge request computedBlocks env
      = (m, locations)) : (s.asking request computedBlocks env m locations).Inv := by
  rcases getLocationsForQuery_cases h with ⟨rfl, q, hq, hkey, hlocations⟩ | ⟨rfl, count, rfl⟩
  · have hslot := hs.slot _ q hq
    rw [asking, if_pos rfl]
    refine ⟨fun reqId q' hq' => ?_, fun reqId locs hhook q' hq' => ?_⟩
    · refine { hs.slot reqId q' hq' with newest := ?_ }
      rcases eq_or_ne reqId request.requestId with rfl | hreq
      · rw [hq] at hq'
        cases hq'
        exact (update_self ..).trans (by rw [hslot.newest, hkey]; rfl)
      · exact (update_of_ne hreq ..).trans (hs.slot reqId q' hq').newest
    · obtain ⟨l, rfl, hl⟩ := map_eq_some_iff.mp hhook
      cases hl
      rw [hq] at hq'
      cases hq'
      exact hslot.answered _ (hlocations _ rfl).1
  · rw [asking, if_neg (by exact Nat.succ_ne_self _)]
    refine ⟨fun reqId q' hq' => ?_, by simp⟩
    rcases queries_setQuery_some.mp hq' with ⟨rfl, hset⟩ | ⟨hne, hset⟩
    · cases hset
      exact ⟨update_self .., by simp⟩
    · have hslot := hs.slot reqId q' hset
      exact { hslot with newest := (update_of_ne hne ..).trans hslot.newest }

theorem Inv.answer (hs : s.Inv) (reqId : String) (object : Nat)
    (fetched : Option (List LocationDict)) (pending : List (String × Nat)) :
    Inv { s with
      manager := s.manager.answer reqId object fetched
      pending
      answers := (fetched.map (object, ·)).toList ++ s.answers } := by
  have hkept {object' : Nat} {locations : List LocationDict} (h : s.Answered object' locations) :
      Answered { s with answers := (fetched.map (object, ·)).toList ++ s.answers } object'
        locations :=
    h.imp fun _ h => h.imp_left (mem_append_right _)
  rcases s.manager.answer_cases reqId object fetched with heq | ⟨q, hq, rfl, heq⟩
  · rw [heq]
    exact ⟨fun reqId' q hq => ⟨(hs.slot reqId' q hq).newest, fun l hl =>
      hkept ((hs.slot reqId' q hq).answered l hl)⟩,
      fun reqId' l hhook q hq => hkept (hs.hook reqId' l hhook q hq)⟩
  · rw [heq]
    refine ⟨fun reqId' q' hq' => ?_, fun reqId' locations hhook q' hq' => ?_⟩
    · rcases queries_setQuery_some.mp hq' with ⟨rfl, hset⟩ | ⟨-, hset⟩
      · obtain ⟨l, rfl, rfl⟩ := map_eq_some_iff.mp hset
        refine ⟨(hs.slot reqId' q hq).newest, fun l' hl' => ⟨l, mem_cons_self, ?_⟩⟩
        cases hl'
        exact prefix_rfl
      · exact ⟨(hs.slot reqId' q' hset).newest, fun l hl =>
          hkept ((hs.slot reqId' q' hset).answered l hl)⟩
    · rcases queries_setQuery_some.mp hq' with ⟨rfl, hset⟩ | ⟨-, hset⟩
      · obtain ⟨l, -, rfl⟩ := map_eq_some_iff.mp hset
        exact hkept (hs.hook reqId' locations hhook q hq)
      · exact hkept (hs.hook reqId' locations hhook q' hset)

theorem Inv.step (hs : s.Inv) (h : Step maxAnswerAge s s') : s'.Inv := by
  cases h with
  | ask request computedBlocks env h => exact hs.ask h
  | @clamp reqId locations keep h =>
    rw [storeResult]
    split
    · exact ⟨fun reqId q hq => { hs.slot reqId q hq with }, by simp⟩
    · rename_i q hq
      obtain ⟨answer, hanswer, hle⟩ := hs.hook _ _ h q hq
      refine ⟨fun reqId' q' hq' => ?_, by simp⟩
      rcases queries_setQuery_some.mp hq' with ⟨rfl, hset⟩ | ⟨-, hset⟩
      · cases hset
        refine ⟨(hs.slot reqId' q hq).newest, fun l hl => ⟨answer, hanswer, ?_⟩⟩
        cases hl
        exact ( take_prefix _ _).trans hle
      · exact { hs.slot reqId' q' hset with }
  | consume reqId => exact hs.drop reqId
  | invalidate reqId => exact hs.drop reqId
  | answer fetched h => exact hs.answer _ _ fetched _

end QuerySystem

end TairKvCache.PyConnector
