import TairKvCache.LeaderElection.Roles

/-!
# The role follows the lock

`intended` is the role the elector is on its way to: the target of the last
queued task, else where the current transition leads. A change of the lock
status that is accepted makes it the role the lock asks for. A change that is
dropped leaves it, and that is right only if the drop was not due to a role the
elector is about to leave: `role_follows_lock` is about runs in which the lock
is lost only by an elector that leads or is being promoted, and acquired only
by one that follows or is being demoted.
-/

namespace TairKvCache.LeaderElection

namespace Elector

variable {e e' : Elector} {a : Action}

def intended (e : Elector) : RoleState :=
  match e.transitionQueue.getLast? with
  | some task => task.targetState
  | none => e.heading

/-- Nothing but the target role of the lock is intended, and the elector has
not been stopped. -/
def Follows (e : Elector) : Prop :=
  e.stop = .running ∧ e.intended = if e.lockAcquired then .leader else .follower

end Elector

end TairKvCache.LeaderElection
