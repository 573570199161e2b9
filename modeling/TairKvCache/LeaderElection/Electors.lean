import TairKvCache.Lib.Machine
import TairKvCache.LeaderElection.Lock

/-!
# Electors over one lock

Any number of electors share the lock and a clock. Each has a work loop, a
lease check and any number of threads that call `Demote`; every call of the
backend, every load and every store of an atomic is one step. A call may fail,
with or without effect on the lock.

`lock_acquired_` and `lease_expiration_time_us_` are two atomics, and what
`UpdateLockStatus` stores in them was decided before: by the answer of an
earlier call, or by an earlier load.
-/

namespace TairKvCache.LeaderElection

open Function

variable {ι : Type}

structure LeaseConfig (ι : Type) where
  leaseMs : ι → Nat
  loopIntervalUs : ι → Nat
  forbidCampaignMs : ι → Nat

/-! ## Threads -/

/-- Where `UpdateLockStatus` stands: before the load of the old flag, and
before each of the three stores. -/
inductive PublishStage
  | load
  | forbid (oldAcquired : Bool)
  | flag
  | lease
deriving DecidableEq, Repr

/-- A running `UpdateLockStatus(time, acquired, lease)`. -/
structure Publication where
  time : Nat
  acquired : Bool
  lease : Int
  stage : PublishStage := .load
deriving DecidableEq, Repr

/-- The work loop, before the access it is named after; all carry
`current_time`. -/
inductive WorkPhase
  | idle
  | start (time : Nat)
  | campaign (time : Nat)
  | getLockHolder (time : Nat)
  | tryLock (time : Nat)
  | recheck (time : Nat)
  | hold (time : Nat)
  | renewLock (time : Nat)
  | checkLease (time : Nat)
  | publish (p : Publication) (campaigning : Bool)
deriving DecidableEq, Repr

def WorkPhase.time? : WorkPhase → Option Nat
  | .idle => none
  | .start t | .campaign t | .getLockHolder t | .tryLock t | .recheck t | .hold t | .renewLock t
  | .checkLease t => some t
  | .publish p _ => some p.time

inductive CheckPhase
  | idle
  | start (time : Nat)
  | lease (time : Nat)
  | publish (p : Publication)
deriving DecidableEq, Repr

inductive DemotePhase
  | idle
  | start (time : Nat)
  | forbid (time : Nat)
  | unlock (time : Nat)
  | publish (p : Publication)
deriving DecidableEq, Repr

structure Electors (ι : Type) where
  now : Nat := 0
  lock : Lock ι := none
  lockAcquired : ι → Bool := fun _ => false
  leaseExpirationTime : ι → Int := fun _ => -1
  nextCanCampaignTime : ι → Int := fun _ => 0
  work : ι → WorkPhase := fun _ => .idle
  check : ι → CheckPhase := fun _ => .idle
  demote : ι → Nat → DemotePhase := fun _ _ => .idle

/-- How a call of the backend ends. -/
inductive Reply
  | answered
  | failed (applied : Bool)
deriving DecidableEq, Repr

def Reply.call (reply : Reply) (lock : Lock ι) (result : ErrorCode × Lock ι) :
    ErrorCode × Lock ι :=
  match reply with
  | .answered => result
  | .failed applied => (.error, if applied then result.2 else lock)

inductive LeaseAction (ι : Type)
  | tick (micros : Nat)
  | work (i : ι) (reply : Reply)
  | check (i : ι)
  | demote (i : ι) (thread : Nat) (reply : Reply)

namespace Electors

variable [DecidableEq ι]

def setLock (s : Electors ι) (lock : Lock ι) : Electors ι := { s with lock }

def setWork (s : Electors ι) (i : ι) (phase : WorkPhase) : Electors ι :=
  { s with work := update s.work i phase }

def setCheck (s : Electors ι) (i : ι) (phase : CheckPhase) : Electors ι :=
  { s with check := update s.check i phase }

def setDemote (s : Electors ι) (i : ι) (thread : Nat) (phase : DemotePhase) : Electors ι :=
  { s with demote := update s.demote i (update (s.demote i) thread phase) }

def setAcquired (s : Electors ι) (i : ι) (acquired : Bool) : Electors ι :=
  { s with lockAcquired := update s.lockAcquired i acquired }

def setLease (s : Electors ι) (i : ι) (lease : Int) : Electors ι :=
  { s with leaseExpirationTime := update s.leaseExpirationTime i lease }

/-- `next_can_campaign_time_us_.store(current_time + forbid_campaign_time_ms_ * 1000)`. -/
def forbidCampaign (cfg : LeaseConfig ι) (s : Electors ι) (i : ι) (time : Nat) : Electors ι :=
  if 0 < cfg.forbidCampaignMs i then
    { s with nextCanCampaignTime :=
        update s.nextCanCampaignTime i (time + cfg.forbidCampaignMs i * 1000 : Nat) }
  else s

/-! ## `UpdateLockStatus` -/

def publish (cfg : LeaseConfig ι) (s : Electors ι) (i : ι) (p : Publication) : Electors ι :=
  match p.stage with
  | .load => s
  | .forbid oldAcquired =>
    if oldAcquired && !p.acquired then s.forbidCampaign cfg i p.time else s
  | .flag => s.setAcquired i p.acquired
  | .lease => s.setLease i p.lease

/-- The rest of the publication after the access, if there is one. -/
def nextStage (s : Electors ι) (i : ι) (p : Publication) : Option Publication :=
  match p.stage with
  | .load => some { p with stage := .forbid (s.lockAcquired i) }
  | .forbid _ => some { p with stage := .flag }
  | .flag => some { p with stage := .lease }
  | .lease => none

/-- The publication of a lease that ends one time to live after `time`. -/
def gained (cfg : LeaseConfig ι) (i : ι) (time : Nat) : Publication :=
  ⟨time, true, (time + cfg.leaseMs i * 1000 : Nat), .load⟩

def lostLock (time : Nat) : Publication := ⟨time, false, -1, .load⟩

/-! ## The work loop -/

/-- The holder that `GetLockHolder` found decides how `CampaignLeader` goes
on. -/
def afterHolder (i : ι) (time : Nat) : Option (ι × Nat) → WorkPhase
  | none => .tryLock time
  | some (holder, expireMs) =>
    if holder = i then .publish ⟨time, true, (expireMs * 1000 : Nat), .load⟩ true
    else .recheck time

def afterRenew (cfg : LeaseConfig ι) (i : ι) (time : Nat) : ErrorCode → WorkPhase
  | .ok => .publish (gained cfg i time) false
  | .noent | .mismatch => .publish (lostLock time) false
  | _ => .checkLease time

def afterWorkPublish (time : Nat) (campaigning : Bool) : Option Publication → WorkPhase
  | some p => .publish p campaigning
  | none => if campaigning then .recheck time else .idle

def workStep (cfg : LeaseConfig ι) (s : Electors ι) (i : ι) (reply : Reply) : Electors ι :=
  match s.work i with
  | .idle => s.setWork i (.start s.now)
  | .start t => s.setWork i (if s.lockAcquired i then .recheck t else .campaign t)
  | .campaign t =>
    s.setWork i (if (t : Int) < s.nextCanCampaignTime i then .recheck t else .getLockHolder t)
  | .getLockHolder t =>
    let r := s.lock.getLockHolder s.now
    match reply with
    | .answered => (s.setLock r.2.2).setWork i (afterHolder i t r.2.1)
    | .failed applied => (s.setLock (if applied then r.2.2 else s.lock)).setWork i (.recheck t)
  | .tryLock t =>
    let r := reply.call s.lock (s.lock.tryLock s.now i (cfg.leaseMs i))
    (s.setLock r.2).setWork i (if r.1 = .ok then .publish (gained cfg i t) true else .recheck t)
  | .recheck t => s.setWork i (if s.lockAcquired i then .hold t else .idle)
  | .hold t => s.setWork i (if s.lockAcquired i then .renewLock t else .idle)
  | .renewLock t =>
    let r := reply.call s.lock (s.lock.renewLock s.now i (cfg.leaseMs i))
    (s.setLock r.2).setWork i (afterRenew cfg i t r.1)
  | .checkLease t =>
    s.setWork i (if s.leaseExpirationTime i < t then .publish (lostLock t) false else .idle)
  | .publish p campaigning =>
    (s.publish cfg i p).setWork i (afterWorkPublish p.time campaigning (s.nextStage i p))

/-! ## The lease check and `Demote` -/

def checkStep (cfg : LeaseConfig ι) (s : Electors ι) (i : ι) : Electors ι :=
  match s.check i with
  | .idle => s.setCheck i (.start s.now)
  | .start t => s.setCheck i (if s.lockAcquired i then .lease t else .idle)
  | .lease t =>
    s.setCheck i (if s.leaseExpirationTime i - cfg.loopIntervalUs i < t then .publish (lostLock t)
      else .idle)
  | .publish p => (s.publish cfg i p).setCheck i (((s.nextStage i p).map .publish).getD .idle)

def demoteStep (cfg : LeaseConfig ι) (s : Electors ι) (i : ι) (k : Nat) (reply : Reply) :
    Electors ι :=
  match s.demote i k with
  | .idle => s.setDemote i k (.start s.now)
  | .start t => s.setDemote i k (if s.lockAcquired i then .forbid t else .idle)
  | .forbid t => (s.forbidCampaign cfg i t).setDemote i k (.unlock t)
  | .unlock t =>
    let r := reply.call s.lock (s.lock.unlock s.now i)
    (s.setLock r.2).setDemote i k (.publish (lostLock t))
  | .publish p =>
    (s.publish cfg i p).setDemote i k (((s.nextStage i p).map .publish).getD .idle)

def tick (s : Electors ι) (micros : Nat) : Electors ι := { s with now := s.now + micros }

def machine (cfg : LeaseConfig ι) : Lib.Machine (Electors ι) (LeaseAction ι) where
  init s := s = {}
  step s
    | .tick micros => some (s.tick micros)
    | .work i reply => some (s.workStep cfg i reply)
    | .check i => some (s.checkStep cfg i)
    | .demote i k reply => some (s.demoteStep cfg i k reply)

end Electors

end TairKvCache.LeaderElection
