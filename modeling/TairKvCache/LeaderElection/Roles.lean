import TairKvCache.Lib.Machine

/-!
# The role state machine of a `LeaderElector`

Whoever publishes a change of the lock status requests a promotion or a
demotion; a request is dropped or queued by looking at the current role. One
worker thread executes the queued transitions: it takes a task, enters the
intermediate role, runs the handler and enters the target role. `Stop` sets
`stop_flag_`, which the worker tests before it takes a task.

Each of these is one step here. The threads that publish the lock status are
not told apart: `updateLockStatus` may happen at any time.
-/

namespace TairKvCache.LeaderElection

open Option List Lib.Machine

inductive RoleState
  | follower
  | promoting
  | leader
  | demoting
deriving DecidableEq, Repr

structure RoleTransitionTask where
  version : Nat
  targetState : RoleState
deriving DecidableEq, Repr

/-- Calls of the handlers; `completed` unless the handler threw. -/
inductive HandlerCall
  | becomeLeader (completed : Bool)
  | noLongerLeader (completed : Bool)
deriving DecidableEq, Repr

/-- Where the worker stands with a task: popped, in the intermediate role,
past the handler. -/
inductive WorkerPhase
  | waiting
  | taken (task : RoleTransitionTask)
  | intermediate (task : RoleTransitionTask)
  | acted (task : RoleTransitionTask)
  | exited
deriving DecidableEq, Repr

/-- How far `Stop` has got: the flag set, `Demote` done, returned. -/
inductive StopPhase
  | running
  | flagged
  | demoted
  | returned
deriving DecidableEq, Repr

structure Elector where
  lockAcquired : Bool := false
  roleState : RoleState := .follower
  stateVersion : Nat := 0
  transitionQueue : List RoleTransitionTask := []
  worker : WorkerPhase := .waiting
  stop : StopPhase := .running
  calls : List HandlerCall := []
deriving DecidableEq, Repr

namespace Elector

/-! ## Requests -/

def push (e : Elector) (queue : List RoleTransitionTask) (target : RoleState) : Elector :=
  { e with
    stateVersion := e.stateVersion + 1
    transitionQueue := queue ++ [⟨e.stateVersion + 1, target⟩] }

def requestPromoteToLeader (e : Elector) : Elector :=
  match e.roleState with
  | .leader | .promoting => e
  | .follower | .demoting => e.push e.transitionQueue .leader

/-- A demotion that is accepted clears the queue first. -/
def requestDemoteToFollower (e : Elector) : Elector :=
  match e.roleState with
  | .follower | .demoting => e
  | .leader | .promoting => e.push [] .follower

def setLock (e : Elector) (acquired : Bool) : Elector := { e with lockAcquired := acquired }

def updateLockStatus (e : Elector) (acquired : Bool) : Elector :=
  if e.lockAcquired = acquired then e
  else if acquired then (e.setLock true).requestPromoteToLeader
  else (e.setLock false).requestDemoteToFollower

/-! ## The worker -/

def validTransition : RoleState → RoleState → Bool
  | .follower, target => target = .promoting
  | .promoting, target => target = .leader ∨ target = .follower
  | .leader, target => target = .demoting
  | .demoting, target => target = .follower

def intermediateState : RoleState → Option RoleState
  | .leader => some .promoting
  | .follower => some .demoting
  | .promoting => none
  | .demoting => none

def setWorker (e : Elector) (phase : WorkerPhase) : Elector := { e with worker := phase }

def setRole (e : Elector) (role : RoleState) : Elector := { e with roleState := role }

/-- `TransitionToState`; an invalid transition is logged and not made. -/
def transitionToState (e : Elector) (target : RoleState) : Option Elector :=
  if validTransition e.roleState target then some (e.setRole target) else none

/-- The first step of `ExecuteTransitionTask`. -/
def enter (e : Elector) (task : RoleTransitionTask) : Elector :=
  match (intermediateState task.targetState).bind e.transitionToState with
  | none => e.setWorker .waiting
  | some e' => e'.setWorker (.intermediate task)

/-- The handler of the task; what it throws is caught. -/
def act (e : Elector) (task : RoleTransitionTask) (completed : Bool) : Elector :=
  { e with
    worker := .acted task
    calls := e.calls ++
      [if task.targetState = .leader then .becomeLeader completed else .noLongerLeader completed] }

/-- The last step of `ExecuteTransitionTask`. -/
def settle (e : Elector) (task : RoleTransitionTask) : Elector :=
  ((e.transitionToState task.targetState).getD e).setWorker .waiting

/-! ## Steps -/

inductive Action
  | updateLockStatus (acquired : Bool)
  | take
  | enter
  | act (completed : Bool)
  | settle
  | exit
  | stopFlag
  | stopDemote
  | stopReturn
deriving DecidableEq, Repr

def step (e : Elector) : Action → Option Elector
  | .updateLockStatus acquired => some (e.updateLockStatus acquired)
  | .take =>
    match e.worker, e.stop, e.transitionQueue with
    | .waiting, .running, task :: rest =>
      some { e with worker := .taken task, transitionQueue := rest }
    | _, _, _ => none
  | .enter =>
    match e.worker with
    | .taken task => some (e.enter task)
    | _ => none
  | .act completed =>
    match e.worker with
    | .intermediate task => some (e.act task completed)
    | _ => none
  | .settle =>
    match e.worker with
    | .acted task => some (e.settle task)
    | _ => none
  | .exit =>
    if e.worker = .waiting ∧ e.stop ≠ .running then some (e.setWorker .exited) else none
  | .stopFlag => if e.stop = .running then some { e with stop := .flagged } else none
  | .stopDemote =>
    -- `Demote` publishes only while the lock is held; then `WaitForStableState`,
    -- which gives up after its timeout
    if e.stop = .flagged then some { e.updateLockStatus false with stop := .demoted } else none
  | .stopReturn =>
    -- the worker thread has been joined
    if e.stop = .demoted ∧ e.worker = .exited then some { e with stop := .returned } else none

def machine : Lib.Machine Elector Action where
  init e := e = {}
  step := step

/-! ## Inversion -/

inductive Updated (e : Elector) (acquired : Bool) : Elector → Prop
  | same (h : e.lockAcquired = acquired) : Updated e acquired e
  | dropped (h : e.lockAcquired ≠ acquired)
      (hrole : if acquired then e.roleState = .leader ∨ e.roleState = .promoting
        else e.roleState = .follower ∨ e.roleState = .demoting) :
      Updated e acquired (e.setLock acquired)
  | promote (hacq : acquired = true)
      (hrole : e.roleState = .follower ∨ e.roleState = .demoting) :
      Updated e acquired ((e.setLock true).push e.transitionQueue .leader)
  | demote (hacq : acquired = false)
      (hrole : e.roleState = .leader ∨ e.roleState = .promoting) :
      Updated e acquired ((e.setLock false).push [] .follower)

@[simp] theorem roleState_setLock (e : Elector) (acquired : Bool) :
    (e.setLock acquired).roleState = e.roleState := rfl

theorem updated (e : Elector) (acquired : Bool) :
    Updated e acquired (e.updateLockStatus acquired) := by
  rw [updateLockStatus]
  split_ifs with hsame hacq
  · exact .same hsame
  · subst hacq
    rw [requestPromoteToLeader, roleState_setLock]
    cases hrole : e.roleState with
    | follower => exact .promote rfl (.inl hrole)
    | demoting => exact .promote rfl (.inr hrole)
    | leader => exact .dropped hsame (.inl hrole)
    | promoting => exact .dropped hsame (.inr hrole)
  · rw [Bool.not_eq_true] at hacq
    subst hacq
    rw [requestDemoteToFollower, roleState_setLock]
    cases hrole : e.roleState with
    | follower => exact .dropped hsame (.inl hrole)
    | demoting => exact .dropped hsame (.inr hrole)
    | leader => exact .demote rfl (.inl hrole)
    | promoting => exact .demote rfl (.inr hrole)

inductive StepOf (e : Elector) : Action → Elector → Prop
  | updateLockStatus (acquired : Bool) (e' : Elector) (h : Updated e acquired e') :
      StepOf e (.updateLockStatus acquired) e'
  | take (task : RoleTransitionTask) (rest : List RoleTransitionTask)
      (hworker : e.worker = .waiting) (hstop : e.stop = .running)
      (hqueue : e.transitionQueue = task :: rest) :
      StepOf e .take { e with worker := .taken task, transitionQueue := rest }
  | enter (task : RoleTransitionTask) (hworker : e.worker = .taken task) :
      StepOf e .enter (e.enter task)
  | act (task : RoleTransitionTask) (completed : Bool) (hworker : e.worker = .intermediate task) :
      StepOf e (.act completed) (e.act task completed)
  | settle (task : RoleTransitionTask) (hworker : e.worker = .acted task) :
      StepOf e .settle (e.settle task)
  | exit (hworker : e.worker = .waiting) (hstop : e.stop ≠ .running) :
      StepOf e .exit (e.setWorker .exited)
  | stopFlag (hstop : e.stop = .running) : StepOf e .stopFlag { e with stop := .flagged }
  | stopDemote (e' : Elector) (hstop : e.stop = .flagged) (h : Updated e false e') :
      StepOf e .stopDemote { e' with stop := .demoted }
  | stopReturn (hstop : e.stop = .demoted) (hworker : e.worker = .exited) :
      StepOf e .stopReturn { e with stop := .returned }

theorem stepOf {e e' : Elector} {a : Action} (h : e.step a = some e') : StepOf e a e' := by
  cases a with
  | updateLockStatus acquired =>
    obtain rfl := some.inj h
    exact .updateLockStatus acquired _ (updated e acquired)
  | take =>
    rw [step] at h
    split at h
    next task rest hworker hstop hqueue =>
      obtain rfl := some.inj h
      exact .take task rest hworker hstop hqueue
    next => cases h
  | enter =>
    rw [step] at h
    split at h
    next task hworker =>
      obtain rfl := some.inj h
      exact .enter task hworker
    next => cases h
  | act completed =>
    rw [step] at h
    split at h
    next task hworker =>
      obtain rfl := some.inj h
      exact .act task completed hworker
    next => cases h
  | settle =>
    rw [step] at h
    split at h
    next task hworker =>
      obtain rfl := some.inj h
      exact .settle task hworker
    next => cases h
  | exit =>
    obtain ⟨hc, rfl⟩ := of_enabled h
    exact .exit hc.1 hc.2
  | stopFlag =>
    obtain ⟨hc, rfl⟩ := of_enabled h
    exact .stopFlag hc
  | stopDemote =>
    obtain ⟨hc, rfl⟩ := of_enabled h
    exact .stopDemote _ hc (updated e false)
  | stopReturn =>
    obtain ⟨hc, rfl⟩ := of_enabled h
    exact .stopReturn hc.1 hc.2

def Stable (role : RoleState) : Prop := role = .follower ∨ role = .leader

/-- The role fits where the worker stands with its task. -/
def Fits (role : RoleState) : WorkerPhase → Prop
  | .waiting => Stable role
  | .exited => Stable role
  | .taken task => Stable role ∧ Stable task.targetState
  | .intermediate task | .acted task =>
    (task.targetState = .leader ∧ role = .promoting) ∨
      (task.targetState = .follower ∧ role = .demoting)

variable {e e' : Elector} {a : Action} {task : RoleTransitionTask}

theorem Updated.frame {acquired : Bool} (h : Updated e acquired e') :
    e'.roleState = e.roleState ∧ e'.worker = e.worker ∧ e'.stop = e.stop ∧ e'.calls = e.calls := by
  cases h <;> exact ⟨rfl, rfl, rfl, rfl⟩

/-- The role once the worker has finished the task it has taken. -/
def heading (e : Elector) : RoleState :=
  match e.worker with
  | .waiting => e.roleState
  | .exited => e.roleState
  | .taken task => task.targetState
  | .intermediate task => task.targetState
  | .acted task => task.targetState

end Elector

end TairKvCache.LeaderElection
