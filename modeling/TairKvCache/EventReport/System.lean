import TairKvCache.EventReport.Maintenance
import TairKvCache.Lib.Machine

/-!
# Reports, snapshots and maintenance under every interleaving

The backend together with everything that holds something of it: the delta
admissions of `ReportEvent` requests (`DeltaMutationGuard`), the snapshot
attempts between `BeginSnapshot` and commit or abort, the cleanup leases of
maintenance, and the entries the liveness checker has selected and not yet
unregistered. An action is one critical section, so a run is an interleaving
of any number of callers.

The lifecycle fence of a reporter is a shared mutex. Its exclusive sections
are single actions; a *shared* lease is kept over several, by a request that
is writing metadata and by a cleanup, and excludes the exclusive ones
(`leased`).

A generated token is fresh: 122 random bits never repeat. `era` and the
fields called history below are read by no step. Generations of one reporter
that a REGISTER of the present node or the recovery of an unavailable one
separates belong to one life of the node; `era` maps a generation to the
generation that created the node.
-/

namespace TairKvCache.EventReport

open Lib Option Machine

/-- A delta admission: `DeltaMutationGuard::LeaseInfo` and its holder. -/
structure Delta where
  key : ReporterSnapshotKey
  version : String
  /-- `lifecycle_generation`, as admitted or adopted since. -/
  generation : Nat
  /-- The request holds the lifecycle lease of its metadata writes. -/
  writing : Bool := false
  /-- History: the generation at admission. -/
  admittedAt : Nat
deriving DecidableEq, Repr

/-- A snapshot attempt; `admitted` once `BeginSnapshot` has returned `ok`. -/
structure Attempt where
  key : ReporterSnapshotKey
  version : String
  generation : Nat
  admitted : Bool := false
deriving DecidableEq, Repr

/-- A cleanup lease, told apart by a number. -/
structure CleanupLease where
  id : Nat
  key : ReporterSnapshotKey
deriving DecidableEq, Repr

/-- An expired node selected by the liveness checker. `acked` is history: a
REGISTER or HEARTBEAT was acknowledged since. -/
structure Expired where
  key : ReporterSnapshotKey
  generation : Nat
  acked : Bool := false
deriving DecidableEq, Repr

/-- One metadata write of an ADD: the token it attached and, as history, the
reporter's token and fence at that moment. -/
structure Write where
  key : ReporterSnapshotKey
  version : String
  committed : String
  registered : Bool
deriving DecidableEq, Repr

structure System where
  backend : EventReportBackend
  deltas : List Delta := []
  attempts : List Attempt := []
  cleanups : List CleanupLease := []
  selected : List Expired := []
  issued : List String := []
  /-- History: the generation that created the node a generation belongs to. -/
  era : ReporterSnapshotKey → Nat → Nat := fun _ _ => 0
  /-- History: the metadata writes, and the entries the liveness checker has
  unregistered. -/
  writes : List Write := []
  unregistered : List Expired := []

namespace System

def reporter (s : System) (key : ReporterSnapshotKey) : Reporter := s.backend.reporter key

def accepting (s : System) : Bool := s.backend.acceptingReports

/-- Some shared lease on the reporter's fence is held. -/
def leased (s : System) (key : ReporterSnapshotKey) : Bool :=
  s.deltas.any (fun d => d.writing && d.key = key) || s.cleanups.any (fun l => l.key = key)

/-- The life of the node that a new generation of `r` goes on with: the
present one, or a new one if there was no node. -/
def eraOf (s : System) (key : ReporterSnapshotKey) (r : Reporter) : Nat :=
  if (s.reporter key).node.isSome then s.era key (s.reporter key).currentGeneration
  else r.currentGeneration

/-- Store the entries of one reporter, and note a new generation. -/
def put (s : System) (key : ReporterSnapshotKey) (r : Reporter) : System :=
  { s with
    backend := s.backend.setReporter key r
    era := fun k g =>
      if k = key ∧ g = r.currentGeneration ∧ (s.reporter key).currentGeneration < g
      then s.eraOf key r else s.era k g }

def setDelta (s : System) (d d' : Delta) : System :=
  { s with deltas := d' :: s.deltas.erase d }

/-- The write of an ADD whose request holds the admission `d`. -/
def writeOf (s : System) (d : Delta) : Write :=
  { key := d.key, version := d.version
    committed := ((s.reporter d.key).snapshot.getD {}).committed
    registered := (s.reporter d.key).registeredAt d.generation }

/-- A REGISTER or HEARTBEAT for `key` was answered `ec`. -/
def acknowledge (s : System) (key : ReporterSnapshotKey) (ec : ErrorCode) : System :=
  if ec = .ok then
    { s with
      selected := s.selected.map fun e => if e.key = key then { e with acked := true } else e }
  else s

end System

inductive Action where
  | register (key : ReporterSnapshotKey) (mediums : List String) (nowMs : Int)
  | ensureKnown (key : ReporterSnapshotKey) (mediums : List String)
  | ensureCreated (key : ReporterSnapshotKey) (mediums : List String) (nowMs : Int)
  | unregister (key : ReporterSnapshotKey)
  | hostDown (key : ReporterSnapshotKey)
  | heartbeatSteady (key : ReporterSnapshotKey) (nowMs : Int)
  | heartbeatLocked (key : ReporterSnapshotKey) (nowMs : Int)
  | setNodeUnavailable (key : ReporterSnapshotKey) (nowMs : Int)
  | livenessScan (nowMs freshNowMs : Int)
  | livenessUnregister (e : Expired)
  | beginDelta (key : ReporterSnapshotKey) (token : String)
  | endDelta (d : Delta)
  /-- `AdoptLifecycleGeneration`, what a request does some time after its
  REGISTER or HEARTBEAT was acknowledged. -/
  | adopt (d : Delta)
  | acquireWrite (d : Delta)
  | write (d : Delta)
  | releaseWrite (d : Delta)
  | beginSnapshot (key : ReporterSnapshotKey) (nowMs : Int) (token : String)
  | finishSnapshot (a : Attempt) (timedOut : Bool)
  | commit (a : Attempt) (nowMs : Int)
  | commitIfGeneration (a : Attempt) (generation : Nat) (nowMs : Int)
  | abort (a : Attempt)
  | acquireCleanup (id : Nat) (token : MaintenanceCleanupToken) (nowMs : Int)
  | releaseCleanup (l : CleanupLease)
  | retire
  | clear

variable (s : System)

namespace System

/-- A generated token: a valid one that was never generated before. -/
def fresh (s : System) (token : String) : Bool :=
  SnapshotUri.isValidSnapshotVersionToken token && token ∉ s.issued

def step (s : System) : Action → Option System
  | .register key mediums nowMs =>
    if s.leased key then none
    else
      let (ec, r) := (s.reporter key).registerNode s.accepting
        (validReporter key && validMediums mediums) mediums nowMs
      some ((s.put key r).acknowledge key ec)
  | .ensureKnown key mediums =>
    if !s.accepting then none
    else ((s.reporter key).ensureKnown mediums).map fun r => s.put key r
  | .ensureCreated key mediums nowMs =>
    if s.leased key || !(validReporter key && validMediums mediums) then none
    else some (s.put key ((s.reporter key).ensureCreated s.accepting mediums nowMs).2)
  | .unregister key =>
    if s.leased key then none
    else some (s.put key ((s.reporter key).unregisterNode s.backend.retired).2)
  | .hostDown key =>
    if s.leased key then none
    else some (s.put key ((s.reporter key).unregisterNodeForHostDown s.accepting).2)
  | .heartbeatSteady key nowMs =>
    if !s.accepting || !validReporter key then none
    else ((s.reporter key).tryPublishSteadyHeartbeat nowMs).map fun r =>
      (s.put key r).acknowledge key .ok
  | .heartbeatLocked key nowMs =>
    if s.leased key || !validReporter key then none
    else
      let (ec, r) := (s.reporter key).heartbeatLocked s.accepting nowMs
      some ((s.put key r).acknowledge key ec)
  | .setNodeUnavailable key nowMs =>
    some (s.put key ((s.reporter key).setNodeUnavailable nowMs))
  | .livenessScan nowMs freshNowMs =>
    let (b, found) := s.backend.livenessScan nowMs freshNowMs
    some { s with
      backend := b
      selected := s.selected ++ found.map fun e => { key := e.1, generation := e.2 } }
  | .livenessUnregister e =>
    if e ∉ s.selected ∨ s.leased e.key then none
    else
      let (ec, r) := (s.reporter e.key).unregisterNodeIfGeneration s.backend.retired e.generation
      let s := { s.put e.key r with selected := s.selected.erase e }
      some (if ec = .ok then { s with unregistered := e :: s.unregistered } else s)
  | .beginDelta key token =>
    if !s.fresh token then none
    else
      let (ec, r, version, generation) :=
        (s.reporter key).beginDeltaMutation s.accepting (namedReporter key) token
      let s := { s.put key r with issued := token :: s.issued }
      some (if ec = .ok then
          { s with
            deltas :=
              { key, version, generation, admittedAt := generation } :: s.deltas }
        else s)
  | .endDelta d =>
    if d ∉ s.deltas ∨ d.writing then none
    else some { s.put d.key ((s.reporter d.key).endDeltaMutation d.version) with
      deltas := s.deltas.erase d }
  | .adopt d =>
    if d ∉ s.deltas ∨ d.writing then none
    else some (s.setDelta d { d with generation := (s.reporter d.key).currentGeneration })
  | .acquireWrite d =>
    if d ∉ s.deltas ∨ d.writing then none
    else if (s.reporter d.key).acquireLifecycleMutationLease s.accepting d.generation = .ok then
      some (s.setDelta d { d with writing := true })
    else none
  | .write d =>
    if d ∉ s.deltas ∨ !d.writing then none
    else some { s with writes := s.writeOf d :: s.writes }
  | .releaseWrite d =>
    if d ∉ s.deltas ∨ !d.writing then none
    else some (s.setDelta d { d with writing := false })
  | .beginSnapshot key nowMs token =>
    if !s.fresh token || s.leased key then none
    else
      let (ec, r, generation) := (s.reporter key).beginSnapshot s.accepting (namedReporter key)
        nowMs s.backend.snapshotMinIntervalMs token
      let s := { s.put key r with issued := token :: s.issued }
      some (if ec = .ok then
          { s with
            attempts := { key, version := token, generation } :: s.attempts }
        else s)
  | .finishSnapshot a timedOut =>
    let r := s.reporter a.key
    if a ∉ s.attempts ∨ a.admitted ∨ (!timedOut && !r.drained s.accepting a.version) then none
    else
      let (ec, r) := r.finishBeginSnapshot s.accepting a.version
      some { s.put a.key r with
        attempts := if ec = .ok then { a with admitted := true } :: s.attempts.erase a
          else s.attempts.erase a }
  | .commit a nowMs =>
    if a ∉ s.attempts ∨ !a.admitted then none
    else
      let (committed, r) := (s.reporter a.key).commitSnapshotVersion a.version nowMs
      some { s.put a.key r with
        attempts := if committed then s.attempts.erase a else s.attempts }
  | .commitIfGeneration a generation nowMs =>
    if a ∉ s.attempts ∨ !a.admitted then none
    else
      let (ec, r) := (s.reporter a.key).commitSnapshotVersionIfGeneration s.accepting a.version
        generation nowMs
      some { s.put a.key r with
        attempts := if ec = .ok then s.attempts.erase a else s.attempts }
  | .abort a =>
    if a ∉ s.attempts ∨ !a.admitted ∨ s.leased a.key then none
    else some { s.put a.key ((s.reporter a.key).abortSnapshotVersion (namedReporter a.key) a.version)
      with attempts := s.attempts.erase a }
  | .acquireCleanup id token nowMs =>
    if s.cleanups.any (fun l => l.id = id) then none
    else
      let (result, r) := s.backend.acquireMaintenanceCleanupLease token nowMs
      let s := s.put token.reporterKey r
      some (if result = .acquired then
          { s with cleanups := { id, key := token.reporterKey } :: s.cleanups }
        else s)
  | .releaseCleanup l =>
    if l ∉ s.cleanups then none else some { s with cleanups := s.cleanups.erase l }
  | .retire => some { s with backend := s.backend.retire }
  | .clear =>
    if !s.backend.retired || s.deltas.any (·.writing) || !s.cleanups.isEmpty then none
    else some { s with backend := s.backend.clear }

/-! ## What the helpers touch -/

@[simp] theorem reporter_put_self (key : ReporterSnapshotKey) (r : Reporter) :
    (s.put key r).reporter key = r := by
  simp [reporter, put]

variable {key : ReporterSnapshotKey} {d : Delta} {nowMs : Int} {a : Attempt}

theorem reporter_put_ne {key' : ReporterSnapshotKey} (r : Reporter) (h : key' ≠ key) :
    (s.put key r).reporter key' = s.reporter key' :=
  EventReportBackend.reporter_setReporter_ne _ _ h

@[simp] theorem put_selected (key : ReporterSnapshotKey) (r : Reporter) :
    (s.put key r).selected = s.selected := rfl

theorem put_era_of_eq (key : ReporterSnapshotKey) {r : Reporter}
    (h : r.currentGeneration = (s.reporter key).currentGeneration) : (s.put key r).era = s.era := by
  funext k g
  refine if_neg ?_
  rintro ⟨-, rfl, hlt⟩
  omega

theorem acknowledge_of_ne {s : System} {ec : ErrorCode} (h : ec ≠ .ok) : s.acknowledge key ec = s :=
  if_neg h

@[simp] theorem acknowledge_reporter (key key' : ReporterSnapshotKey) (ec : ErrorCode) :
    (s.acknowledge key ec).reporter key' = s.reporter key' := by
  unfold acknowledge
  split <;> rfl

@[simp] theorem acknowledge_cleanups (key : ReporterSnapshotKey) (ec : ErrorCode) :
    (s.acknowledge key ec).cleanups = s.cleanups := by
  unfold acknowledge
  split <;> rfl

/-! ## Inversion of the steps that clients take -/

section Inversion

variable {s s' : System}

theorem step_livenessUnregister {e : Expired} (h : s.step (.livenessUnregister e) = some s') :
    e ∈ s.selected ∧ s.leased e.key = false ∧
      ∃ out, out = (s.reporter e.key).unregisterNodeIfGeneration s.backend.retired e.generation ∧
        s' = { s.put e.key out.2 with
          selected := s.selected.erase e
          unregistered := if out.1 = .ok then e :: s.unregistered else s.unregistered } := by
  simp only [step, ite_none_left_eq_some, some.injEq] at h
  obtain ⟨hcond, rfl⟩ := h
  simp only [not_or, not_not, Bool.not_eq_true] at hcond
  refine ⟨hcond.1, hcond.2, _, rfl, ?_⟩
  generalize (s.reporter e.key).unregisterNodeIfGeneration s.backend.retired e.generation = out
  split_ifs <;> rfl

theorem step_beginDelta {token : String} (h : s.step (.beginDelta key token) = some s') :
    s.fresh token = true ∧
      ∃ out, out = (s.reporter key).beginDeltaMutation s.accepting (namedReporter key) token ∧
        s' = { s.put key out.2.1 with
          issued := token :: s.issued
          deltas := if out.1 = .ok then
              { key, version := out.2.2.1, generation := out.2.2.2, admittedAt := out.2.2.2 }
                :: s.deltas
            else s.deltas } := by
  simp only [step, ite_none_left_eq_some, some.injEq] at h
  obtain ⟨hcond, rfl⟩ := h
  refine ⟨by simpa using hcond, _, rfl, ?_⟩
  generalize (s.reporter key).beginDeltaMutation s.accepting (namedReporter key) token = out
  split_ifs <;> rfl

theorem step_endDelta (h : s.step (.endDelta d) = some s') : d ∈ s.deltas ∧ d.writing = false ∧
      s' = { s.put d.key ((s.reporter d.key).endDeltaMutation d.version) with
        deltas := s.deltas.erase d } := by
  obtain ⟨hcond, rfl⟩ := of_guard h
  simp only [not_or, not_not, Bool.not_eq_true] at hcond
  exact ⟨hcond.1, hcond.2, rfl⟩

theorem step_adopt (h : s.step (.adopt d) = some s') : d ∈ s.deltas ∧ d.writing = false ∧
      s' = s.setDelta d { d with generation := (s.reporter d.key).currentGeneration } := by
  obtain ⟨hcond, rfl⟩ := of_guard h
  simp only [not_or, not_not, Bool.not_eq_true] at hcond
  exact ⟨hcond.1, hcond.2, rfl⟩

theorem step_acquireWrite (h : s.step (.acquireWrite d) = some s') :
    d ∈ s.deltas ∧ d.writing = false ∧
      (s.reporter d.key).acquireLifecycleMutationLease s.accepting d.generation = .ok ∧
      s' = s.setDelta d { d with writing := true } := by
  simp only [step, ite_none_left_eq_some, ite_none_right_eq_some,
    some.injEq] at h
  obtain ⟨hcond, hok, h⟩ := h
  simp only [not_or, not_not, Bool.not_eq_true] at hcond
  exact ⟨hcond.1, hcond.2, hok, h.symm⟩

theorem step_write (h : s.step (.write d) = some s') :
    d ∈ s.deltas ∧ d.writing = true ∧ s' = { s with writes := s.writeOf d :: s.writes } := by
  obtain ⟨hcond, rfl⟩ := of_guard h
  simp only [not_or, not_not, Bool.not_eq_true, Bool.not_eq_false'] at hcond
  exact ⟨hcond.1, hcond.2, rfl⟩

theorem step_releaseWrite (h : s.step (.releaseWrite d) = some s') :
    d ∈ s.deltas ∧ d.writing = true ∧ s' = s.setDelta d { d with writing := false } := by
  obtain ⟨hcond, rfl⟩ := of_guard h
  simp only [not_or, not_not, Bool.not_eq_true, Bool.not_eq_false'] at hcond
  exact ⟨hcond.1, hcond.2, rfl⟩

theorem step_beginSnapshot {token : String} (h : s.step (.beginSnapshot key nowMs token) = some s') :
    s.fresh token = true ∧ s.leased key = false ∧
      ∃ out, out = (s.reporter key).beginSnapshot s.accepting (namedReporter key) nowMs
          s.backend.snapshotMinIntervalMs token ∧
        s' = { s.put key out.2.1 with
          issued := token :: s.issued
          attempts := if out.1 = .ok then
              { key, version := token, generation := out.2.2 } :: s.attempts
            else s.attempts } := by
  simp only [step, ite_none_left_eq_some, some.injEq] at h
  obtain ⟨hcond, rfl⟩ := h
  simp only [Bool.or_eq_true, not_or, Bool.not_eq_true, Bool.not_eq_false'] at hcond
  refine ⟨hcond.1, hcond.2, _, rfl, ?_⟩
  generalize (s.reporter key).beginSnapshot s.accepting (namedReporter key) nowMs
    s.backend.snapshotMinIntervalMs token = out
  split_ifs <;> rfl

theorem step_finishSnapshot {timedOut : Bool} (h : s.step (.finishSnapshot a timedOut) = some s') :
    a ∈ s.attempts ∧ a.admitted = false ∧
      ∃ out, out = (s.reporter a.key).finishBeginSnapshot s.accepting a.version ∧
        s' = { s.put a.key out.2 with
          attempts := if out.1 = .ok then { a with admitted := true } :: s.attempts.erase a
            else s.attempts.erase a } := by
  simp only [step, ite_none_left_eq_some, some.injEq] at h
  obtain ⟨hcond, rfl⟩ := h
  simp only [not_or, not_not, Bool.not_eq_true] at hcond
  exact ⟨hcond.1, hcond.2.1, _, rfl, rfl⟩

theorem step_commit (h : s.step (.commit a nowMs) = some s') : a ∈ s.attempts ∧ a.admitted = true ∧
      ∃ out, out = (s.reporter a.key).commitSnapshotVersion a.version nowMs ∧
        s' = { s.put a.key out.2 with
          attempts := if out.1 then s.attempts.erase a else s.attempts } := by
  simp only [step, ite_none_left_eq_some, some.injEq] at h
  obtain ⟨hcond, rfl⟩ := h
  simp only [not_or, not_not, Bool.not_eq_true, Bool.not_eq_false'] at hcond
  exact ⟨hcond.1, hcond.2, _, rfl, rfl⟩

theorem step_commitIfGeneration {generation : Nat}
    (h : s.step (.commitIfGeneration a generation nowMs) = some s') :
    a ∈ s.attempts ∧ a.admitted = true ∧
      ∃ out, out = (s.reporter a.key).commitSnapshotVersionIfGeneration s.accepting a.version
          generation nowMs ∧
        s' = { s.put a.key out.2 with
          attempts := if out.1 = .ok then s.attempts.erase a else s.attempts } := by
  simp only [step, ite_none_left_eq_some, some.injEq] at h
  obtain ⟨hcond, rfl⟩ := h
  simp only [not_or, not_not, Bool.not_eq_true, Bool.not_eq_false'] at hcond
  exact ⟨hcond.1, hcond.2, _, rfl, rfl⟩

theorem step_abort (h : s.step (.abort a) = some s') :
    a ∈ s.attempts ∧ a.admitted = true ∧ s.leased a.key = false ∧
      s' = { s.put a.key ((s.reporter a.key).abortSnapshotVersion (namedReporter a.key) a.version)
        with attempts := s.attempts.erase a } := by
  obtain ⟨hcond, rfl⟩ := of_guard h
  simp only [not_or, not_not, Bool.not_eq_true, Bool.not_eq_false'] at hcond
  exact ⟨hcond.1, hcond.2.1, hcond.2.2, rfl⟩

theorem step_acquireCleanup {id : Nat} {token : MaintenanceCleanupToken}
    (h : s.step (.acquireCleanup id token nowMs) = some s') : (∀ l ∈ s.cleanups, l.id ≠ id) ∧
      ∃ out, out = s.backend.acquireMaintenanceCleanupLease token nowMs ∧
        s' = { s.put token.reporterKey out.2 with
          cleanups := if out.1 = .acquired then { id, key := token.reporterKey } :: s.cleanups
            else s.cleanups } := by
  simp only [step, ite_none_left_eq_some, some.injEq] at h
  obtain ⟨hcond, rfl⟩ := h
  refine ⟨by simpa using hcond, _, rfl, ?_⟩
  generalize s.backend.acquireMaintenanceCleanupLease token nowMs = out
  split_ifs <;> rfl

theorem step_clear (h : s.step .clear = some s') :
    s.backend.retired = true ∧ (∀ d ∈ s.deltas, d.writing = false) ∧ s.cleanups = [] ∧
      s' = { s with backend := s.backend.clear } := by
  obtain ⟨hcond, rfl⟩ := of_guard h
  simp only [Bool.or_eq_true, not_or, Bool.not_eq_true, Bool.not_eq_false', List.any_eq_false,
    List.isEmpty_iff] at hcond
  exact ⟨hcond.1.1, hcond.1.2, hcond.2, rfl⟩

@[simp] theorem reporter_cleared (key : ReporterSnapshotKey) :
    reporter { s with backend := s.backend.clear } key = {} :=
  EventReportBackend.reporter_clear s.backend key

end Inversion

/-- A backend as it is constructed, opened or not. -/
def start (b : EventReportBackend) : System := { backend := b }

end System

/-- All interleavings, from a backend that has seen no reporter. -/
def eventReports : Machine System Action where
  init s := ∃ b : EventReportBackend, b.reporters = ∅ ∧ s = System.start b
  step := System.step

end TairKvCache.EventReport
