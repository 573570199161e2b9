import TairKvCache.Lib.Routine

/-!
# The tensor-parallel coordinator of the vLLM connector

`TpCoordinatorServer.coordinator_routine` is one thread on rank 0 that
receives three kinds of events, in whatever order the ranks' sockets deliver
them. Save events are gathered per `RunningId`: a finish that arrives before
its start is buffered, and once the start and one finish per rank are there
the session is handed to `on_save_finished`, which builds the success mask
and calls the manager. Load events are gathered per `(epoch, request)`.

`handle` is one turn of the loop. An exception of `on_save_finished` is
caught nowhere in the routine, so it ends the thread: `run` stops at the
first one. What a turn makes visible outside the routine is recorded as an
`Effect`: the call of `finish_write_cache`, or the two appends under
`_finished_loading_lock`.
-/

namespace TairKvCache.PyConnector

open Function

/-- A `CacheLocation` dict of the manager: spec names with their URIs. -/
structure LocationDict where
  locationSpecs : List (String × String)
deriving DecidableEq, Repr

inductive PyError
  | keyError
  | indexError
  | typeError
  | attributeError
  | runtimeError
  | assertionError
deriving DecidableEq, Repr

structure RunningId where
  writeSessionId : String
  requestId : String
deriving DecidableEq, Repr

/-! ## Events -/

structure SendBlockStartEvent where
  requestId : String
  writeSessionId : String
  locations : List LocationDict
deriving DecidableEq, Repr

structure SendBlockFinishedEvent where
  requestId : String
  tpRank : Nat
  writeSessionId : String
  isSuccessList : List Bool
deriving DecidableEq, Repr

structure LoadBlockFinishedEvent where
  requestId : String
  tpRank : Nat
  epoch : Nat
  failedBlockIdxs : List Nat
deriving DecidableEq, Repr

inductive CoordinateEvent
  | sendBlockStart (content : SendBlockStartEvent)
  | sendBlockFinished (content : SendBlockFinishedEvent)
  | loadBlockFinished (content : LoadBlockFinishedEvent)
  -- `CoordinateMsgSerializer.loads` raised; the routine logs and goes on
  | unreadable
deriving DecidableEq, Repr

def SendBlockStartEvent.saveId (e : SendBlockStartEvent) : RunningId :=
  ⟨e.writeSessionId, e.requestId⟩

def SendBlockFinishedEvent.saveId (e : SendBlockFinishedEvent) : RunningId :=
  ⟨e.writeSessionId, e.requestId⟩

def LoadBlockFinishedEvent.loadId (e : LoadBlockFinishedEvent) : RunningId :=
  ⟨toString e.epoch, e.requestId⟩

/-! ## The contexts gathered per id -/

structure LoadContext where
  finishedRank : List Nat := []
deriving DecidableEq, Repr

def LoadContext.addNewRank (ctx : LoadContext) (tpRank : Nat) : LoadContext :=
  if tpRank ∈ ctx.finishedRank then ctx else ⟨ctx.finishedRank ++ [tpRank]⟩

def LoadContext.getSize (ctx : LoadContext) : Nat := ctx.finishedRank.length

structure SaveContext where
  locations : List LocationDict
  resultPerRank : List (Nat × List Bool) := []
deriving DecidableEq, Repr

def SaveContext.addNewRank (ctx : SaveContext) (tpRank : Nat) (isSuccesses : List Bool) :
    SaveContext :=
  if tpRank ∈ ctx.resultPerRank.map (·.1) then ctx
  else { ctx with resultPerRank := ctx.resultPerRank ++ [(tpRank, isSuccesses)] }

def SaveContext.getSize (ctx : SaveContext) : Nat := ctx.resultPerRank.length

/-! ## The success mask -/

/-- `all(result_per_rank[rank][block_idx] for rank in ranks)`: a later rank is
not looked at once one has failed. -/
def SaveContext.fullySaved (ctx : SaveContext) (blockIdx : Nat) :
    List Nat → Except PyError Bool
  | [] => .ok true
  | rank :: ranks =>
    match ctx.resultPerRank.lookup rank with
    | none => .error .keyError
    | some results =>
      match results[blockIdx]? with
      | none => .error .indexError
      | some ok => if ok then ctx.fullySaved blockIdx ranks else .ok false

/-- The loop of `on_save_finished` over the given block indices. -/
def SaveContext.successMask (ctx : SaveContext) (ranks : List Nat) :
    List Nat → Except PyError (List Bool)
  | [] => .ok []
  | blockIdx :: rest =>
    match ctx.fullySaved blockIdx ranks with
    | .error e => .error e
    | .ok fully =>
      match ctx.successMask ranks rest with
      | .error e => .error e
      | .ok mask => .ok (fully :: mask)

/-- `on_save_finished` up to the call of the manager, whose own exceptions
are caught: the mask it is called with. -/
def onSaveFinished (tpSize : Nat) (ctx : SaveContext) : Except PyError (List Bool) :=
  ctx.successMask (List.range tpSize) (List.range ctx.locations.length)

/-! ## One turn of the routine -/

structure TpCoordinatorServer where
  runningLoad : RunningId → Option LoadContext := fun _ => none
  runningSave : RunningId → Option SaveContext := fun _ => none
  pendingSaveFinishes : RunningId → List SendBlockFinishedEvent := fun _ => []
  finishedLoading : List String := []
  failedLoadingBlockIdxs : List Nat := []
  finishedSaving : List String := []

inductive Effect
  | finishWriteCache (writeSessionId : String) (successMask : List Bool)
  | loadFinished (loadId : RunningId) (failedBlockIdxs : List Nat)
deriving DecidableEq, Repr

namespace TpCoordinatorServer

/-- `running_save.pop(save_id)` and, after the callback, the append to
`_finished_saving`. -/
def dropSave (c : TpCoordinatorServer) (id : RunningId) : TpCoordinatorServer :=
  { c with
    runningSave := update c.runningSave id none
    finishedSaving := c.finishedSaving ++ [id.requestId] }

def completeSaveIfReady (tpWorldSize : Nat) (c : TpCoordinatorServer) (id : RunningId) :
    Except PyError (TpCoordinatorServer × List Effect) :=
  match c.runningSave id with
  | none => .ok (c, [])
  | some ctx =>
    if ctx.getSize ≠ tpWorldSize then .ok (c, [])
    else
      match onSaveFinished tpWorldSize ctx with
      | .error e => .error e
      | .ok mask => .ok (c.dropSave id, [.finishWriteCache id.writeSessionId mask])

/-- The context a start leaves behind: the one that is there, or a new one,
with the buffered finishes merged in. -/
def mergedContext (c : TpCoordinatorServer) (e : SendBlockStartEvent) : SaveContext :=
  (c.pendingSaveFinishes e.saveId).foldl
    (fun ctx f => ctx.addNewRank f.tpRank f.isSuccessList)
    ((c.runningSave e.saveId).getD ⟨e.locations, []⟩)

def openSave (c : TpCoordinatorServer) (e : SendBlockStartEvent) : TpCoordinatorServer :=
  { c with
    runningSave := update c.runningSave e.saveId (some (c.mergedContext e))
    pendingSaveFinishes := update c.pendingSaveFinishes e.saveId [] }

def bufferFinish (c : TpCoordinatorServer) (e : SendBlockFinishedEvent) : TpCoordinatorServer :=
  { c with
    pendingSaveFinishes :=
      update c.pendingSaveFinishes e.saveId (c.pendingSaveFinishes e.saveId ++ [e]) }

def addFinish (c : TpCoordinatorServer) (ctx : SaveContext) (e : SendBlockFinishedEvent) :
    TpCoordinatorServer :=
  { c with
    runningSave := update c.runningSave e.saveId
      (some (ctx.addNewRank e.tpRank e.isSuccessList)) }

/-- The load context with the reporting rank added. -/
def loadContext (c : TpCoordinatorServer) (e : LoadBlockFinishedEvent) : LoadContext :=
  ((c.runningLoad e.loadId).getD {}).addNewRank e.tpRank

def keepLoad (c : TpCoordinatorServer) (e : LoadBlockFinishedEvent) : TpCoordinatorServer :=
  { c with runningLoad := update c.runningLoad e.loadId (some (c.loadContext e)) }

def dropLoad (c : TpCoordinatorServer) (e : LoadBlockFinishedEvent) : TpCoordinatorServer :=
  { c with
    runningLoad := update c.runningLoad e.loadId none
    failedLoadingBlockIdxs := c.failedLoadingBlockIdxs ++ e.failedBlockIdxs
    finishedLoading := c.finishedLoading ++ [e.requestId] }

def handleLoad (tpWorldSize : Nat) (c : TpCoordinatorServer) (e : LoadBlockFinishedEvent) :
    TpCoordinatorServer × List Effect :=
  if (c.loadContext e).getSize = tpWorldSize then
    (c.dropLoad e, [.loadFinished e.loadId e.failedBlockIdxs])
  else (c.keepLoad e, [])

def handle (tpWorldSize : Nat) (c : TpCoordinatorServer) :
    CoordinateEvent → Except PyError (TpCoordinatorServer × List Effect)
  | .sendBlockStart e => (c.openSave e).completeSaveIfReady tpWorldSize e.saveId
  | .sendBlockFinished e =>
    match c.runningSave e.saveId with
    | none => .ok (c.bufferFinish e, [])
    | some ctx => (c.addFinish ctx e).completeSaveIfReady tpWorldSize e.saveId
  | .loadBlockFinished e => .ok (c.handleLoad tpWorldSize e)
  | .unreadable => .ok (c, [])

/-- The `while` loop over the messages in their order of arrival. -/
def run (tpWorldSize : Nat) (c : TpCoordinatorServer) (ms : List CoordinateEvent) :
    Except PyError (TpCoordinatorServer × List Effect) :=
  Lib.Routine.loop (handle tpWorldSize) c ms

/-! ## The getters the worker polls -/

/-! ## What one turn can do -/

/-- The turns that do not raise. -/
inductive Turn (tp : Nat) (c : TpCoordinatorServer) :
    CoordinateEvent → TpCoordinatorServer → List Effect → Prop
  | opened (e : SendBlockStartEvent) (hsize : (c.mergedContext e).getSize ≠ tp) :
      Turn tp c (.sendBlockStart e) (c.openSave e) []
  | openedReady (e : SendBlockStartEvent) (mask : List Bool)
      (hsize : (c.mergedContext e).getSize = tp)
      (hmask : onSaveFinished tp (c.mergedContext e) = .ok mask) :
      Turn tp c (.sendBlockStart e) ((c.openSave e).dropSave e.saveId)
        [.finishWriteCache e.writeSessionId mask]
  | buffered (e : SendBlockFinishedEvent) (hnone : c.runningSave e.saveId = none) :
      Turn tp c (.sendBlockFinished e) (c.bufferFinish e) []
  | added (e : SendBlockFinishedEvent) (ctx : SaveContext)
      (hctx : c.runningSave e.saveId = some ctx)
      (hsize : (ctx.addNewRank e.tpRank e.isSuccessList).getSize ≠ tp) :
      Turn tp c (.sendBlockFinished e) (c.addFinish ctx e) []
  | addedReady (e : SendBlockFinishedEvent) (ctx : SaveContext) (mask : List Bool)
      (hctx : c.runningSave e.saveId = some ctx)
      (hsize : (ctx.addNewRank e.tpRank e.isSuccessList).getSize = tp)
      (hmask : onSaveFinished tp (ctx.addNewRank e.tpRank e.isSuccessList) = .ok mask) :
      Turn tp c (.sendBlockFinished e) ((c.addFinish ctx e).dropSave e.saveId)
        [.finishWriteCache e.writeSessionId mask]
  | loadKept (e : LoadBlockFinishedEvent) (hsize : (c.loadContext e).getSize ≠ tp) :
      Turn tp c (.loadBlockFinished e) (c.keepLoad e) []
  | loadReady (e : LoadBlockFinishedEvent) (hsize : (c.loadContext e).getSize = tp) :
      Turn tp c (.loadBlockFinished e) (c.dropLoad e) [.loadFinished e.loadId e.failedBlockIdxs]
  | unreadable : Turn tp c .unreadable c []

theorem completeSaveIfReady_of_some {tp : Nat} {c : TpCoordinatorServer} {id : RunningId}
    {ctx : SaveContext} (hctx : c.runningSave id = some ctx) : c.completeSaveIfReady tp id =
      if ctx.getSize ≠ tp then .ok (c, [])
      else (onSaveFinished tp ctx).map
        fun mask => (c.dropSave id, [.finishWriteCache id.writeSessionId mask]) := by
  rw [completeSaveIfReady, hctx]
  dsimp only
  split_ifs with hsize
  · rfl
  · cases onSaveFinished tp ctx <;> rfl

theorem runningSave_openSave (c : TpCoordinatorServer) (e : SendBlockStartEvent) :
    (c.openSave e).runningSave e.saveId = some (c.mergedContext e) := by
  simp [openSave]

theorem runningSave_addFinish (c : TpCoordinatorServer) (ctx : SaveContext)
    (e : SendBlockFinishedEvent) : (c.addFinish ctx e).runningSave e.saveId =
      some (ctx.addNewRank e.tpRank e.isSuccessList) := by
  simp [addFinish]

theorem turn_of_handle {tp : Nat} {c d : TpCoordinatorServer} {m : CoordinateEvent}
    {out : List Effect} (h : c.handle tp m = .ok (d, out)) : Turn tp c m d out := by
  cases m with
  | sendBlockStart e =>
    rw [handle, completeSaveIfReady_of_some (runningSave_openSave c e)] at h
    split_ifs at h with hsize
    · obtain ⟨rfl, rfl⟩ := Prod.mk.inj (Except.ok.inj h)
      exact .opened e hsize
    · cases hmask : onSaveFinished tp (c.mergedContext e) with
      | error err => rw [hmask] at h; cases h
      | ok mask =>
        rw [hmask] at h
        obtain ⟨rfl, rfl⟩ := Prod.mk.inj (Except.ok.inj h)
        exact .openedReady e mask (not_not.mp hsize) hmask
  | sendBlockFinished e =>
    rw [handle] at h
    cases hctx : c.runningSave e.saveId with
    | none =>
      rw [hctx] at h
      obtain ⟨rfl, rfl⟩ := Prod.mk.inj (Except.ok.inj h)
      exact .buffered e hctx
    | some ctx =>
      rw [hctx] at h
      dsimp only at h
      rw [completeSaveIfReady_of_some (runningSave_addFinish c ctx e)] at h
      split_ifs at h with hsize
      · obtain ⟨rfl, rfl⟩ := Prod.mk.inj (Except.ok.inj h)
        exact .added e ctx hctx hsize
      · cases hmask : onSaveFinished tp (ctx.addNewRank e.tpRank e.isSuccessList) with
        | error err => rw [hmask] at h; cases h
        | ok mask =>
          rw [hmask] at h
          obtain ⟨rfl, rfl⟩ := Prod.mk.inj (Except.ok.inj h)
          exact .addedReady e ctx mask hctx (not_not.mp hsize) hmask
  | loadBlockFinished e =>
    rw [handle, handleLoad] at h
    split_ifs at h with hsize <;>
      obtain ⟨rfl, rfl⟩ := Prod.mk.inj (Except.ok.inj h)
    · exact .loadReady e hsize
    · exact .loadKept e hsize
  | unreadable =>
    obtain ⟨rfl, rfl⟩ := Prod.mk.inj (Except.ok.inj h)
    exact .unreadable

/-- Only a session that has just become complete can raise. -/
theorem raise_cases {tp : Nat} {c : TpCoordinatorServer} {m : CoordinateEvent} {err : PyError}
    (h : c.handle tp m = .error err) :
    (∃ e, m = .sendBlockStart e ∧ (c.mergedContext e).getSize = tp ∧
        onSaveFinished tp (c.mergedContext e) = .error err) ∨
      ∃ e ctx, m = .sendBlockFinished e ∧ c.runningSave e.saveId = some ctx ∧
        (ctx.addNewRank e.tpRank e.isSuccessList).getSize = tp ∧
        onSaveFinished tp (ctx.addNewRank e.tpRank e.isSuccessList) = .error err := by
  cases m with
  | sendBlockStart e =>
    rw [handle, completeSaveIfReady_of_some (runningSave_openSave c e)] at h
    split_ifs at h with hsize
    cases hmask : onSaveFinished tp (c.mergedContext e) with
    | error err' =>
      rw [hmask] at h
      cases h
      exact .inl ⟨e, rfl, not_not.mp hsize, hmask⟩
    | ok mask => rw [hmask] at h; cases h
  | sendBlockFinished e =>
    rw [handle] at h
    cases hctx : c.runningSave e.saveId with
    | none => rw [hctx] at h; cases h
    | some ctx =>
      rw [hctx] at h
      dsimp only at h
      rw [completeSaveIfReady_of_some (runningSave_addFinish c ctx e)] at h
      split_ifs at h with hsize
      cases hmask : onSaveFinished tp (ctx.addNewRank e.tpRank e.isSuccessList) with
      | error err' =>
        rw [hmask] at h
        cases h
        exact .inr ⟨e, ctx, rfl, hctx, not_not.mp hsize, hmask⟩
      | ok mask => rw [hmask] at h; cases h
  | loadBlockFinished e => cases h
  | unreadable => cases h

end TpCoordinatorServer

end TairKvCache.PyConnector
