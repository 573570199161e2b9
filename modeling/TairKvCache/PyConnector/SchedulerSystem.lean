import TairKvCache.Lib.Machine
import TairKvCache.PyConnector.Scheduler

/-!
# The scheduler among vLLM, the executor and the manager

The steps of a scheduler process: the hooks vLLM calls, the sessions and
queries that end on the executor, and what vLLM does without telling the
connector. vLLM is modelled by the block tables each request holds (`none`
without blocks) and by the requests it has finished. It frees the blocks of a
preempted request at once; it calls no hook for a finished request; a step's
scheduling output tells the tables of new and resumed requests whole and those
of running ones by their increments, one list per group.

`lost` collects the sessions that ended in an exception.
-/

namespace TairKvCache.PyConnector

structure SchedSystem where
  sched : ConnectorScheduler := {}
  tables : String → Option (List (List Nat)) := fun _ => none
  finished : String → Bool := fun _ => false
  lost : String → List Nat := fun _ => []

inductive SchedAction
  | matchHook (request : Request) (numComputedTokens : Nat) (env : AskEnv)
  | queryAnswer (reqId : String) (object : Nat) (fetched : Option (List LocationDict))
  | alloc (request : Request) (blocks : List (List Nat)) (numExternalTokens : Nat)
  | appendTokens (reqId : String) (tokens : List Nat)
  | preempt (reqId : String)
  | connectorOutput (invalidBlockIds : List Nat)
  | build (out : ConnectorScheduler.SchedulerOutput)
  | sessionEnds (reqId : String) (task : SaveTask) (outcome : SessionOutcome)
  | finish (reqId : String)
  | free (reqId : String)

/-- What a step sends: start events to the coordinator, metadata to the
workers. -/
structure SchedOutput where
  starts : List SendBlockStartEvent := []
  metas : List ConnectorMetadata := []
deriving DecidableEq, Repr

namespace SchedSystem

open Lib.Machine Function ConnectorScheduler Option

abbrev Tables := String → Option (List (List Nat))

/-! ## What a scheduling output says about vLLM's tables -/

def tellNew (tables : Tables) (p : String × List (List Nat)) : Tables :=
  update tables p.1 (some p.2)

def tellCached (tables : Tables) (c : CachedReq) : Tables :=
  match c.newBlockIds with
  | none => tables
  | some new =>
    if c.resumed then update tables c.reqId (some new)
    else update tables c.reqId
      ((tables c.reqId).map fun t => List.zipWith (· ++ ·) t new)

/-- The tables after vLLM's scheduling of the step. -/
def tellTables (tables : Tables) (out : SchedulerOutput) : Tables :=
  out.scheduledCachedReqs.foldl tellCached (out.scheduledNewReqs.foldl tellNew tables)

/-- An increment belongs to a request that holds blocks and has one list per
group. -/
def incrementOk (tables : Tables) (c : CachedReq) : Bool :=
  match c.newBlockIds with
  | none => true
  | some new => c.resumed || (tables c.reqId).any fun t => t.length = new.length

/-- `incrementOk` for every cached request in turn. -/
def incrementsOk : Tables → List CachedReq → Bool
  | _, [] => true
  | tables, c :: cs => incrementOk tables c && incrementsOk (tellCached tables c) cs

def outputOk (s : SchedSystem) (out : SchedulerOutput) : Bool :=
  (out.scheduledNewReqs.all fun p => !s.finished p.1) &&
    (out.scheduledCachedReqs.all fun c => !s.finished c.reqId) &&
    incrementsOk (out.scheduledNewReqs.foldl tellNew s.tables) out.scheduledCachedReqs

/-! ## The steps -/

def withSched (s : SchedSystem) (sched : ConnectorScheduler) : SchedSystem := { s with sched }

/-- vLLM appends to the live request object that the ledger holds. -/
def appendTokens (sched : ConnectorScheduler) (reqId : String) (tokens : List Nat) :
    ConnectorScheduler :=
  match sched.tracked reqId with
  | none => sched
  | some l => sched.setLedger reqId
      { l with vllmRequest :=
        { l.vllmRequest with allTokenIds := l.vllmRequest.allTokenIds ++ tokens } }

def setTables (s : SchedSystem) (reqId : String) (t : Option (List (List Nat))) : SchedSystem :=
  { s with tables := update s.tables reqId t }

@[simp] theorem tables_setTables (s : SchedSystem) (reqId : String) (t : Option (List (List Nat))) :
    (s.setTables reqId t).tables = update s.tables reqId t := rfl

def lose (s : SchedSystem) (reqId : String) (session : Nat) : SchedSystem :=
  { s with lost := update s.lost reqId (s.lost reqId ++ [session]) }

def startsOf : Settlement → List SendBlockStartEvent
  | .canceled => []
  | .toSave start _ => [start]

def finishReq (s : SchedSystem) (reqId : String) : SchedSystem :=
  { s with
    sched := (s.sched.finishRequest reqId).1
    finished := update s.finished reqId true
    tables :=
      if (s.sched.finishRequest reqId).2 then s.tables else update s.tables reqId none }

def buildStep (cfg : SchedulerConfig) (s : SchedSystem) (out : SchedulerOutput) : SchedSystem :=
  { s with
    sched := (s.sched.buildConnectorMeta cfg out).1
    tables := tellTables s.tables out }

def step (cfg : SchedulerConfig) (s : SchedSystem) : SchedAction → Option (SchedSystem × SchedOutput)
  | .matchHook request numComputedTokens env =>
    -- vLLM asks for requests that hold no blocks
    if s.finished request.requestId = false ∧ s.tables request.requestId = none then
      some (s.withSched (s.sched.getNumNewMatchedTokens cfg request numComputedTokens env).1, {})
    else none
  | .queryAnswer reqId object fetched =>
    some (s.withSched (s.sched.setQueryManager
      (s.sched.locationQueryManager.answer reqId object fetched)), {})
  | .alloc request blocks numExternalTokens =>
    if s.finished request.requestId then none
    else
      match s.sched.updateStateAfterAlloc request blocks numExternalTokens with
      | .error _ => none
      | .ok sched => some ((s.withSched sched).setTables request.requestId (some blocks), {})
  | .appendTokens reqId tokens =>
    if s.finished reqId then none
    else some (s.withSched (appendTokens s.sched reqId tokens), {})
  | .preempt reqId => if s.finished reqId then none else some (s.setTables reqId none, {})
  | .connectorOutput invalidBlockIds =>
    some (s.withSched (s.sched.updateConnectorOutput invalidBlockIds), {})
  | .build out =>
    if s.outputOk out then
      some (s.buildStep cfg out, { metas := [(s.sched.buildConnectorMeta cfg out).2] })
    else none
  | .sessionEnds reqId task outcome =>
    if task ∈ s.sched.httpExecutor reqId then
      match startSaveKvcacheAsync reqId task outcome with
      | .error _ => some ((s.withSched (s.sched.endTask reqId task)).lose reqId task.session, {})
      | .ok settled =>
        some (s.withSched ((s.sched.endTask reqId task).settlement reqId task.session settled),
          { starts := startsOf settled })
    else none
  | .finish reqId => if s.finished reqId then none else some (s.finishReq reqId, {})
  | .free reqId =>
    -- the worker has reported the request
    if s.finished reqId = true ∧ s.sched.tracked reqId = none then
      some (s.setTables reqId none, {})
    else none

def machine (cfg : SchedulerConfig) : Lib.Machine SchedSystem SchedAction where
  init s := s = {}
  step s a := (s.step cfg a).map (·.1)

variable {cfg : SchedulerConfig} {s s' : SchedSystem} {a : SchedAction}

theorem machine_step (h : (machine cfg).step s a = some s') : ∃ o, s.step cfg a = some (s', o) := by
  obtain ⟨⟨t, o⟩, hstep, rfl⟩ := map_eq_some_iff.mp h
  exact ⟨o, hstep⟩

theorem step_machine {o : SchedOutput} (h : s.step cfg a = some (s', o)) :
    (machine cfg).step s a = some s' :=
  map_eq_some_iff.mpr ⟨(s', o), h, rfl⟩

/-! ## Inversion -/

inductive StepOf (cfg : SchedulerConfig) (s : SchedSystem) :
    SchedAction → SchedSystem → SchedOutput → Prop
  | matchHook (request : Request) (nc : Nat) (env : AskEnv)
      (hfin : s.finished request.requestId = false) (hnone : s.tables request.requestId = none) :
      StepOf cfg s (.matchHook request nc env)
        (s.withSched (s.sched.getNumNewMatchedTokens cfg request nc env).1) {}
  | queryAnswer (reqId : String) (object : Nat) (fetched : Option (List LocationDict)) :
      StepOf cfg s (.queryAnswer reqId object fetched)
        (s.withSched (s.sched.setQueryManager
          (s.sched.locationQueryManager.answer reqId object fetched))) {}
  | alloc (request : Request) (blocks : List (List Nat)) (n : Nat) (sched : ConnectorScheduler)
      (hfin : s.finished request.requestId = false)
      (hok : s.sched.updateStateAfterAlloc request blocks n = .ok sched) :
      StepOf cfg s (.alloc request blocks n)
        ((s.withSched sched).setTables request.requestId (some blocks)) {}
  | appendTokens (reqId : String) (tokens : List Nat) (hfin : s.finished reqId = false) :
      StepOf cfg s (.appendTokens reqId tokens)
        (s.withSched (appendTokens s.sched reqId tokens)) {}
  | preempt (reqId : String) (hfin : s.finished reqId = false) :
      StepOf cfg s (.preempt reqId) (s.setTables reqId none) {}
  | connectorOutput (invalid : List Nat) :
      StepOf cfg s (.connectorOutput invalid)
        (s.withSched (s.sched.updateConnectorOutput invalid)) {}
  | build (out : SchedulerOutput) (hout : s.outputOk out = true) :
      StepOf cfg s (.build out) (s.buildStep cfg out)
        { metas := [(s.sched.buildConnectorMeta cfg out).2] }
  | sessionLost (reqId : String) (task : SaveTask) (outcome : SessionOutcome) (err : PyError)
      (hmem : task ∈ s.sched.httpExecutor reqId)
      (hraise : startSaveKvcacheAsync reqId task outcome = .error err) :
      StepOf cfg s (.sessionEnds reqId task outcome)
        ((s.withSched (s.sched.endTask reqId task)).lose reqId task.session) {}
  | sessionSettles (reqId : String) (task : SaveTask) (outcome : SessionOutcome)
      (settled : Settlement) (hmem : task ∈ s.sched.httpExecutor reqId)
      (hok : startSaveKvcacheAsync reqId task outcome = .ok settled) :
      StepOf cfg s (.sessionEnds reqId task outcome)
        (s.withSched ((s.sched.endTask reqId task).settlement reqId task.session settled))
        { starts := startsOf settled }
  | finish (reqId : String) (hfin : s.finished reqId = false) :
      StepOf cfg s (.finish reqId) (s.finishReq reqId) {}
  | free (reqId : String) (hfin : s.finished reqId = true)
      (hnone : s.sched.tracked reqId = none) :
      StepOf cfg s (.free reqId) (s.setTables reqId none) {}

theorem stepOf {o : SchedOutput} (h : s.step cfg a = some (s', o)) : StepOf cfg s a s' o := by
  cases a with
  | matchHook request nc env =>
    obtain ⟨hc, ⟨⟩⟩ := of_enabled h
    exact .matchHook request nc env hc.1 hc.2
  | queryAnswer reqId object fetched =>
    cases h
    exact .queryAnswer reqId object fetched
  | alloc request blocks n =>
    rw [step] at h
    split_ifs at h with hfin
    cases hok : s.sched.updateStateAfterAlloc request blocks n with
    | error err => rw [hok] at h; cases h
    | ok sched =>
      rw [hok] at h
      cases h
      exact .alloc request blocks n sched (Bool.eq_false_of_not_eq_true hfin) hok
  | appendTokens reqId tokens =>
    obtain ⟨hfin, ⟨⟩⟩ := of_guard h
    exact .appendTokens reqId tokens (by simpa using hfin)
  | preempt reqId =>
    obtain ⟨hfin, ⟨⟩⟩ := of_guard h
    exact .preempt reqId (by simpa using hfin)
  | connectorOutput invalid =>
    cases h
    exact .connectorOutput invalid
  | build out =>
    obtain ⟨hout, ⟨⟩⟩ := of_enabled h
    exact .build out hout
  | sessionEnds reqId task outcome =>
    rw [step] at h
    split_ifs at h with hmem
    cases hres : startSaveKvcacheAsync reqId task outcome with
    | error err =>
      rw [hres] at h
      cases h
      exact .sessionLost reqId task outcome err hmem hres
    | ok settled =>
      rw [hres] at h
      cases h
      exact .sessionSettles reqId task outcome settled hmem hres
  | finish reqId =>
    obtain ⟨hfin, ⟨⟩⟩ := of_guard h
    exact .finish reqId (by simpa using hfin)
  | free reqId =>
    obtain ⟨hc, ⟨⟩⟩ := of_enabled h
    exact .free reqId hc.1 hc.2

end SchedSystem

end TairKvCache.PyConnector
