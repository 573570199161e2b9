import TairKvCache.PyConnector.TpCoordinator

/-!
# Location queries of the external-match hook

`LocationQueryManager` keeps one query per request. An ask at the slot's own
key is answered from the slot (nothing while the query is in flight, the
locations while they are young enough); any other ask supersedes the slot. The
answer of a superseded query must not be written into the new slot: the source
compares object identities, here every query has a number of its own.
-/

namespace TairKvCache.PyConnector

/-- vLLM's live request object. -/
structure Request where
  requestId : String
  promptTokenIds : List Nat
  allTokenIds : List Nat
deriving DecidableEq, Repr

def Request.numTokens (r : Request) : Nat := r.allTokenIds.length

/-- The query type is always `QT_PREFIX_MATCH`. -/
structure QueryCacheKey where
  reqId : String
  tokenLength : Nat
  computedBlocks : Nat
deriving DecidableEq, Repr

structure Query where
  key : QueryCacheKey
  version : Nat
  /-- `none` while the query is in flight. -/
  locations : Option (List LocationDict)
  askTime : Nat
  /-- The identity of the object. -/
  object : Nat
deriving DecidableEq, Repr

structure LocationQueryManager where
  queries : String → Option Query := fun _ => none
  staleSupersedeCount : Nat := 0
  nextObject : Nat := 0

/-- What one ask meets outside the manager: the clock when the age is looked
at and when the query is issued, and what an inline `GetCacheLocation` does
(`none`: it raises). -/
structure AskEnv where
  now : Nat
  issued : Nat
  fetched : Option (List LocationDict)
deriving DecidableEq, Repr

namespace LocationQueryManager

def keyOf (request : Request) (computedBlocks : Nat) : QueryCacheKey :=
  ⟨request.requestId, request.promptTokenIds.length, computedBlocks⟩

def setQuery (m : LocationQueryManager) (reqId : String) (q : Option Query) :
    LocationQueryManager :=
  { m with queries := Function.update m.queries reqId q }

/-- `_fetch_from_manager` has answered the query `object`. -/
def answer (m : LocationQueryManager) (reqId : String) (object : Nat)
    (fetched : Option (List LocationDict)) : LocationQueryManager :=
  match m.queries reqId with
  | none => m
  | some q =>
    if q.object = object then
      match fetched with
      | none => m.setQuery reqId none
      | some locations => m.setQuery reqId (some { q with locations := some locations })
    else m

/-- A new query supersedes whatever is in the slot. -/
def supersede (m : LocationQueryManager) (key : QueryCacheKey) (issued : Nat) :
    LocationQueryManager :=
  { m.setQuery key.reqId (some
      { key, version := ((m.queries key.reqId).map (·.version + 1)).getD 0, locations := none,
        askTime := issued, object := m.nextObject }) with
    nextObject := m.nextObject + 1 }

/-- The second half of `get_locations_for_query`: issue the query. -/
def issue (isAsync : Bool) (m : LocationQueryManager) (key : QueryCacheKey) (env : AskEnv) :
    LocationQueryManager × Option (List LocationDict) :=
  let m' := m.supersede key env.issued
  if isAsync then (m', none)
  else (m'.answer key.reqId m.nextObject env.fetched, some (env.fetched.getD []))

def getLocationsForQuery (isAsync : Bool) (maxAnswerAge : Nat) (m : LocationQueryManager)
    (request : Request) (computedBlocks : Nat) (env : AskEnv) :
    LocationQueryManager × Option (List LocationDict) :=
  match m.queries request.requestId with
  | none => m.issue isAsync (keyOf request computedBlocks) env
  | some q =>
    if q.key = keyOf request computedBlocks then
      match q.locations with
      | none => (m, none)
      | some locations =>
        if env.now - q.askTime ≤ maxAnswerAge then (m, some locations)
        else { m with staleSupersedeCount := m.staleSupersedeCount + 1 }.issue isAsync
          (keyOf request computedBlocks) env
    else m.issue isAsync (keyOf request computedBlocks) env

def storeResult (m : LocationQueryManager) (reqId : String) (locations : List LocationDict) :
    LocationQueryManager :=
  match m.queries reqId with
  | none => m
  | some q => m.setQuery reqId (some { q with locations := some locations })

def consumeLocations (m : LocationQueryManager) (reqId : String) :
    LocationQueryManager × Option (List LocationDict × Nat) :=
  (m.setQuery reqId none,
    (m.queries reqId).bind fun q => q.locations.map fun locations => (locations, q.key.computedBlocks))

def invalidate (m : LocationQueryManager) (reqId : String) : LocationQueryManager :=
  m.setQuery reqId none

/-! ## The slot after an answered ask -/

variable {isAsync : Bool} {maxAnswerAge computedBlocks : Nat} {m m' : LocationQueryManager}
  {request : Request} {env : AskEnv} {locations : List LocationDict}

@[simp] theorem queries_setQuery (m : LocationQueryManager) (reqId : String) (q : Option Query) :
    (m.setQuery reqId q).queries reqId = q := by
  simp [setQuery]

theorem queries_supersede (m : LocationQueryManager) (key : QueryCacheKey) (issued : Nat) :
    ∃ q, (m.supersede key issued).queries key.reqId = some q ∧ q.key = key ∧
      q.object = m.nextObject :=
  ⟨_, queries_setQuery _ _ _, rfl, rfl⟩

theorem issue_slot {key : QueryCacheKey} (h : m.issue isAsync key env = (m', some locations))
    (hne : locations ≠ []) : ∃ q, m'.queries key.reqId = some q ∧ q.key = key := by
  obtain ⟨q, hq, hkey, hobj⟩ := m.queries_supersede key env.issued
  rw [issue] at h
  split_ifs at h
  · cases h
  obtain ⟨rfl, hlocs⟩ := Prod.mk.inj h
  cases hf : env.fetched with
  | none => rw [hf] at hlocs; exact absurd (Option.some.inj hlocs).symm hne
  | some fetched =>
    refine ⟨{ q with locations := some fetched }, ?_, hkey⟩
    rw [answer, hq]
    dsimp only
    rw [if_pos hobj]
    exact queries_setQuery _ _ _

/-- An ask that is answered with locations leaves a slot at its own key. -/
theorem getLocationsForQuery_slot
    (h : m.getLocationsForQuery isAsync maxAnswerAge request computedBlocks env =
      (m', some locations)) (hne : locations ≠ []) :
    ∃ q, m'.queries request.requestId = some q ∧ q.key = keyOf request computedBlocks := by
  rw [getLocationsForQuery] at h
  cases hq : m.queries request.requestId with
  | none => rw [hq] at h; exact issue_slot h hne
  | some q =>
    rw [hq] at h
    dsimp only at h
    by_cases hkey : q.key = keyOf request computedBlocks
    · rw [if_pos hkey] at h
      cases hlocs : q.locations with
      | none => rw [hlocs] at h; cases h
      | some cached =>
        rw [hlocs] at h
        dsimp only at h
        split_ifs at h
        · obtain ⟨rfl, -⟩ := Prod.mk.inj h
          exact ⟨q, hq, hkey⟩
        · exact issue_slot h hne
    · rw [if_neg hkey] at h
      exact issue_slot h hne

/-- What the allocation consumes after the clamped answer was stored. -/
theorem consume_storeResult {q : Query} (hq : m.queries request.requestId = some q)
    (locations : List LocationDict) :
    ((m.storeResult request.requestId locations).consumeLocations request.requestId).2 =
      some (locations, q.key.computedBlocks) := by
  rw [consumeLocations, storeResult, hq]
  simp

end LocationQueryManager

end TairKvCache.PyConnector
