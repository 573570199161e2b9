import TairKvCache.Reclaimer.Model
import TairKvCache.Reclaimer.FairBudget

/-!
# Fair plans

`CacheReclaimer::BuildFairReclaimPlan` weighs the instances of a group by what
they use of the dimension that is exceeded, divides the group's batch and
sampling sizes by weight, and clips each share to the configured sizes. Where
the sampling size was clipped the batch size follows in proportion, but a share
that is not empty stays so.
-/

namespace TairKvCache.Reclaimer

open List

variable {I : Type}

structure FairReclaimPlanItem (I : Type) where
  instanceId : I
  weight : Nat
  rawBatchSize : Nat := 0
  rawSamplingSize : Nat := 0
  batchSize : Nat := 0
  samplingSize : Nat := 0
  originalIndex : Nat

def FairReclaimPlanItem.before [LinearOrder I] (a b : FairReclaimPlanItem I) : Bool :=
  if a.weight ≠ b.weight then b.weight < a.weight
  else if a.batchSize ≠ b.batchSize then b.batchSize < a.batchSize
  else if a.instanceId ≠ b.instanceId then a.instanceId < b.instanceId
  else a.originalIndex < b.originalIndex

def FairReclaimPlanItem.owner (item : FairReclaimPlanItem I) : I × Nat :=
  (item.instanceId, item.weight)

variable {items : List (FairReclaimPlanItem I)}

/-- What a plan is made from, in the range of the source's types. -/
structure PlanInput (owners : List (I × Nat)) : Prop where
  ids : (owners.map (·.1)).Nodup
  weights : ∀ e ∈ owners, 0 < e.2 ∧ e.2 < 2 ^ 64
  length : owners.length < 2 ^ 64

theorem PlanInput.sublist {owners l : List (I × Nat)} (h : PlanInput owners)
    (hl : l.Sublist owners) : PlanInput l :=
  ⟨h.ids.sublist (hl.map _), fun e he => h.weights e (hl.subset he),
    hl.length_le.trans_lt h.length⟩

variable {w : WaterLevelExceed} {dim : FairWeightDimension}
  {infos : List (Option (I × Option InstanceUsage))}

variable [LinearOrder I]

end TairKvCache.Reclaimer
