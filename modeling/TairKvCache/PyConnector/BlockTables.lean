import TairKvCache.PyConnector.Retirement
import TairKvCache.PyConnector.Transfers

/-!
# The block tables of the saves

A save is decided in one step, answered later, and translated with the block
table that the ledger holds in the step in which it is handed over. While vLLM
holds blocks for a request the ledger's table is vLLM's (`inSync_reach`), and
every waiting save is handed over with it (`collect_saves`). So a save maps to
the request's own memory exactly when, in that step, the request holds blocks
at all the positions the save names (`saves_owned_iff`). Nothing in the
connector sees to that: a preempted request keeps its last table.
-/

namespace TairKvCache.PyConnector

open List TransferGroup Lib.Machine
open Option (some.inj)

open ConnectorScheduler

namespace SchedSystem

variable {cfg : SchedulerConfig} {s s' : SchedSystem} {a : SchedAction} {o : SchedOutput}

/-! ## Handing over -/

def ledgerTable (sched : ConnectorScheduler) (reqId : String) : List (List Nat) :=
  ((sched.tracked reqId).map (·.blockIdsPerGroup)).getD []

def withTable (sched : ConnectorScheduler) (r : SaveRequest) : SaveRequest :=
  { r with allBlockIds := ledgerTable sched r.reqId }

variable {sched : ConnectorScheduler} {reqId : String} {sched' : ConnectorScheduler}
    {tables : Tables}

theorem ledgerTable_of_tracked {l : RequestLedger} (hl : sched.tracked reqId = some l) :
    ledgerTable sched reqId = l.blockIdsPerGroup := by
  rw [ledgerTable, hl]
  rfl

theorem ledgerTable_settled (h : Settled sched sched') (htracked : sched'.tracked reqId ≠ none) :
    ledgerTable sched' reqId = ledgerTable sched reqId := by
  obtain ⟨l', hl'⟩ := Option.ne_none_iff_exists'.mp htracked
  obtain ⟨l, hl, -, htable, -⟩ := h.ledgers reqId l' hl'
  rw [ledgerTable_of_tracked hl', ledgerTable_of_tracked hl, htable]

/-- Every save in hand is handed over, with the table its ledger has. -/
theorem foldl_handOver {lost : String → List Nat} {rs : List SaveRequest} (acc : List SaveRequest)
    (hb : Balanced (rs.map SaveRequest.pair) lost sched) :
    (rs.foldl handOver (sched, acc)).2 = acc ++ rs.map (withTable sched) := by
  induction rs generalizing sched acc with
  | nil => exact (append_nil acc).symm
  | cons r rs ih =>
    obtain ⟨l, hl⟩ : ∃ l, sched.tracked r.reqId = some l := hb.tracked_of_inHand
    have hturn : handOver (sched, acc) r =
        (sched.settle r.reqId l r.session, acc ++ [withTable sched r]) := by
      rw [handOver, withTable, ledgerTable_of_tracked hl]
      dsimp only
      rw [hl]
    have hsettled : Settled sched (sched.settle r.reqId l r.session) := settled_settle hl _
    have hb' : Balanced (rs.map SaveRequest.pair) lost (sched.settle r.reqId l r.session) :=
      hb.settle hl
    rw [foldl_cons, hturn, ih _ hb', append_assoc, map_cons]
    refine congrArg (acc ++ withTable sched r :: ·) (map_congr_left fun r' hr' => ?_)
    -- the request of a save that is still in hand is tracked
    have htracked : (sched.settle r.reqId l r.session).tracked r'.reqId ≠ none := by
      intro hnone
      have hacc := hb' r'.reqId
      rw [hnone] at hacc
      have hzero := hacc r'.session
      rw [elsewhere] at hzero
      have hpos := count_pos_iff.mpr (mem_map_of_mem (f := SaveRequest.pair) hr')
      rw [SaveRequest.pair] at hpos
      omega
    rw [withTable, withTable, ledgerTable_settled hsettled htracked]

theorem collect_saves {lost : String → List Nat} (hb : Balanced [] lost sched) :
    sched.collectSaveInstructions.2 = sched.waitingToSaveRequests.map (withTable sched) := by
  have := foldl_handOver [] hb.takeSaves
  rwa [nil_append] at this

theorem ledgerTable_dispatch (sched : ConnectorScheduler) (reqId : String) :
    ledgerTable (sched.dispatchIncrementalSaves cfg) reqId = ledgerTable sched reqId := by
  rw [ledgerTable, ledgerTable, dispatchIncrementalSaves, Option.map_map]
  rfl

theorem meta_saves (hb : Balanced [] s.lost s.sched) (out : SchedulerOutput) :
    (s.sched.buildConnectorMeta cfg out).2.toSaveRequests =
      s.sched.waitingToSaveRequests.map (withTable (s.sched.ingestScheduledReqs out)) := by
  have hkept : Kept s.sched (s.sched.ingestScheduledReqs out) := kept_ingestScheduledReqs out
  have hdispatch : Balanced [] s.lost
      ((s.sched.ingestScheduledReqs out).dispatchIncrementalSaves cfg) := (hb.kept hkept).dispatch
  have hsaves := collect_saves hdispatch
  calc (s.sched.buildConnectorMeta cfg out).2.toSaveRequests
      = (s.sched.ingestScheduledReqs out).waitingToSaveRequests.map
          (withTable ((s.sched.ingestScheduledReqs out).dispatchIncrementalSaves cfg)) := hsaves
    _ = s.sched.waitingToSaveRequests.map (withTable (s.sched.ingestScheduledReqs out)) := by
        rw [hkept.waiting]
        refine map_congr_left fun r _ => ?_
        rw [withTable, withTable, ledgerTable_dispatch]

/-! ## The ledger's table is vLLM's -/

/-- While vLLM holds blocks for a tracked request, its ledger has their
table. -/
def InSync (sched : ConnectorScheduler) (tables : Tables) : Prop :=
  ∀ reqId l t, sched.tracked reqId = some l → tables reqId = some t → l.blockIdsPerGroup = t

/-- Ledgers of other requests and their tables are as before, and the ledger of
`reqId` is in step. -/
theorem InSync.update {tables' : Tables} (hs : InSync sched tables) (reqId : String)
    (hother : ∀ id, id ≠ reqId → sched'.tracked id = sched.tracked id ∧ tables' id = tables id)
    (hself : ∀ l t, sched'.tracked reqId = some l → tables' reqId = some t → l.blockIdsPerGroup = t)
      :
    InSync sched' tables' := by
  intro id l t hl ht
  by_cases hid : id = reqId
  · subst hid
    exact hself l t hl ht
  · obtain ⟨htracked, htables⟩ := hother id hid
    exact hs id l t (htracked.symm.trans hl) (htables.symm.trans ht)

theorem InSync.drop (hs : InSync sched tables) (reqId : String) :
    InSync sched (Function.update tables reqId none) := by
  refine hs.update reqId (fun id hid => ⟨rfl, Function.update_of_ne hid _ _⟩) ?_
  intro l t _ ht
  rw [Function.update_self] at ht
  cases ht

theorem inSync_ingestNew (hs : InSync sched tables) (p : String × List (List Nat)) :
    InSync (sched.ingestNew p) (tellNew tables p) := by
  refine hs.update p.1
    (fun id hid => ⟨(writes_ingestNew p).other id hid, Function.update_of_ne hid _ _⟩) ?_
  intro l t hl ht
  rw [tellNew, Function.update_self] at ht
  obtain rfl := some.inj ht
  rw [ingestNew] at hl
  cases hs : sched.tracked p.1 with
  | none =>
    rw [hs] at hl
    cases hs.symm.trans hl
  | some l₀ =>
    rw [hs, tracked_setLedger, Function.update_self] at hl
    obtain rfl := some.inj hl
    rfl

theorem extendTables_eq_zipWith {t new : List (List Nat)} (h : t.length = new.length) :
    extendTables t new = List.zipWith (· ++ ·) t new := by
  induction t generalizing new with
  | nil =>
    cases new with
    | nil => rfl
    | cons n ns => rfl
  | cons b t ih =>
    cases new with
    | nil => cases h
    | cons n ns =>
      rw [extendTables, zipWith_cons_cons, ih (by simpa using h)]

theorem tellCached_of_ne {c : CachedReq} {id : String} (hid : id ≠ c.reqId) :
    tellCached tables c id = tables id := by
  rw [tellCached]
  cases c.newBlockIds with
  | none => rfl
  | some new =>
    dsimp only
    split_ifs
    · exact Function.update_of_ne hid _ _
    · exact Function.update_of_ne hid _ _

theorem inSync_ingestCached {c : CachedReq} (hs : InSync sched tables)
    (hc : incrementOk tables c = true) : InSync (sched.ingestCached c) (tellCached tables c) := by
  refine hs.update c.reqId
    (fun id hid => ⟨(writes_ingestCached c).other id hid, tellCached_of_ne hid⟩) ?_
  intro l t hl ht
  rw [ingestCached] at hl
  cases htracked : sched.tracked c.reqId with
  | none =>
    rw [htracked] at hl
    cases htracked.symm.trans hl
  | some l₀ =>
    rw [htracked] at hl
    rw [tellCached] at ht
    rw [incrementOk] at hc
    cases hnew : c.newBlockIds with
    | none =>
      rw [hnew] at hl ht
      exact hs c.reqId l t hl ht
    | some new =>
      rw [hnew] at hl ht hc
      dsimp only at hl ht hc
      by_cases hres : c.resumed = true
      · rw [if_pos hres, tracked_setLedger, Function.update_self] at hl
        rw [if_pos hres, Function.update_self] at ht
        obtain rfl := some.inj hl
        exact some.inj ht
      · rw [if_neg hres, tracked_setLedger, Function.update_self] at hl
        rw [if_neg hres, Function.update_self] at ht
        obtain rfl := some.inj hl
        obtain ⟨t₀, ht₀, rfl⟩ := Option.map_eq_some_iff.mp ht
        rw [Bool.not_eq_true] at hres
        rw [hres, Bool.false_or, ht₀] at hc
        have hlen : t₀.length = new.length := by simpa using hc
        have htable : l₀.blockIdsPerGroup = t₀ := hs c.reqId l₀ t₀ htracked ht₀
        exact (congrArg (extendTables · new) htable).trans (extendTables_eq_zipWith hlen)

theorem inSync_foldl_ingestNew {ps : List (String × List (List Nat))} (hs : InSync sched tables) :
    InSync (ps.foldl ingestNew sched) (ps.foldl tellNew tables) := by
  induction ps generalizing sched tables with
  | nil => exact hs
  | cons p ps ih => exact ih (inSync_ingestNew hs p)

theorem inSync_foldl_ingestCached {cs : List CachedReq} (hs : InSync sched tables)
    (hcs : incrementsOk tables cs = true) :
    InSync (cs.foldl ingestCached sched) (cs.foldl tellCached tables) := by
  induction cs generalizing sched tables with
  | nil => exact hs
  | cons c cs ih =>
    rw [incrementsOk, Bool.and_eq_true] at hcs
    exact ih (inSync_ingestCached hs hcs.1) hcs.2

theorem inSync_ingest {out : SchedulerOutput} (hs : InSync s.sched s.tables)
    (hout : s.outputOk out = true) :
    InSync (s.sched.ingestScheduledReqs out) (tellTables s.tables out) := by
  rw [outputOk, Bool.and_eq_true] at hout
  exact inSync_foldl_ingestCached (inSync_foldl_ingestNew hs) hout.2

theorem inSync_build {out : SchedulerOutput} (hs : InSync s.sched s.tables)
    (hout : s.outputOk out = true) :
    InSync (s.buildStep cfg out).sched (s.buildStep cfg out).tables := by
  have hdispatch : InSync ((s.sched.ingestScheduledReqs out).dispatchIncrementalSaves cfg)
      (tellTables s.tables out) := by
    intro reqId l t hl ht
    obtain ⟨l₀, hl₀, rfl⟩ := Option.map_eq_some_iff.mp hl
    exact inSync_ingest hs hout reqId l₀ t hl₀ ht
  intro reqId l t hl ht
  obtain ⟨l₀, hl₀, -, htable, -⟩ := (collect_spec
    ((s.sched.ingestScheduledReqs out).dispatchIncrementalSaves cfg)).ledgers reqId l hl
  exact htable.trans (hdispatch reqId l₀ t hl₀ ht)

theorem inSync_finish (hs : InSync s.sched s.tables) :
    InSync (s.finishReq reqId).sched (s.finishReq reqId).tables := by
  have hledger : InSync (s.sched.finishRequest reqId).1 s.tables := by
    rcases finishRequest_cases s.sched reqId with ⟨-, hr⟩ | ⟨l₀, hl₀, ⟨-, hr⟩ | ⟨-, hr⟩⟩
    · rw [hr]
      exact hs
    · refine hs.update reqId (fun id hid => ⟨tracked_finishRequest hid, rfl⟩) ?_
      intro l t hl _
      rw [hr, tracked_retireRequest, Function.update_self] at hl
      cases hl
    · refine hs.update reqId (fun id hid => ⟨tracked_finishRequest hid, rfl⟩) ?_
      intro l t hl ht
      rw [hr, tracked_setLedger, Function.update_self] at hl
      obtain rfl := some.inj hl
      exact hs reqId l₀ t hl₀ ht
  rw [finishReq]
  dsimp only
  split_ifs
  · exact hledger
  · exact hledger.drop reqId

theorem inSync_step (hs : InSync s.sched s.tables) (h : StepOf cfg s a s' o) :
    InSync s'.sched s'.tables := by
  cases h with
  | matchHook request nc env hfin hnone =>
    refine hs.update request.requestId
      (fun id hid => ⟨(writes_getNumNewMatchedTokens request nc env).other id hid, rfl⟩) ?_
    intro l t _ ht
    cases hnone.symm.trans ht
  | queryAnswer reqId object fetched => exact hs
  | alloc request blocks n sched hfin hok =>
    refine hs.update request.requestId
      (fun id hid => ⟨(updateStateAfterAlloc_spec hok).1.other id hid, Function.update_of_ne hid _ _⟩) ?_
    intro l t hl ht
    rw [tables_setTables, Function.update_self] at ht
    obtain rfl := some.inj ht
    obtain ⟨-, l', hl', hblocks⟩ := updateStateAfterAlloc_spec hok
    obtain rfl := some.inj (hl'.symm.trans hl)
    exact hblocks
  | appendTokens reqId tokens hfin =>
    refine hs.update reqId (fun id hid => ⟨(writes_appendTokens reqId tokens).other id hid, rfl⟩) ?_
    intro l t hl ht
    change (appendTokens s.sched reqId tokens).tracked reqId = some l at hl
    rw [appendTokens] at hl
    cases htracked : s.sched.tracked reqId with
    | none =>
      rw [htracked] at hl
      cases htracked.symm.trans hl
    | some l₀ =>
      rw [htracked, tracked_setLedger, Function.update_self] at hl
      obtain rfl := some.inj hl
      exact hs reqId l₀ t htracked ht
  | preempt reqId hfin | free reqId hfin hnone => exact hs.drop reqId
  | connectorOutput invalid => exact hs
  | build out hout => exact inSync_build hs hout
  | sessionLost reqId task outcome err hmem hraise => exact hs
  | sessionSettles reqId task outcome settled hmem hok => cases settled <;> exact hs
  | finish reqId hfin => exact inSync_finish hs

theorem inSync_reach {ok : SchedSystem → SchedAction → Prop} (h : (machine cfg).Reach ok s) :
    InSync s.sched s.tables := by
  refine h.inv (P := fun s => InSync s.sched s.tables) ?_ ?_
  · rintro s rfl reqId l t hl
    cases hl
  · intro s a s' hs _ hstep
    obtain ⟨o, hstep⟩ := machine_step hstep
    exact inSync_step hs (stepOf hstep)

/-! ## Saves map to the request's own blocks -/

/-- The table of the group among the tables of a request. -/
def groupTable (tables : List (List Nat)) (g : TransferGroup) : List Nat :=
  (tables[g.groupIdx]?).getD []

def ownBlocks (tables : Tables) (reqId : String) (g : TransferGroup) : List Nat :=
  groupTable ((tables reqId).getD []) g

/-- The table the save carries maps each of its manager blocks to memory of
the request: slots of attention groups, blocks of state groups. -/
def MapsToOwn (cfg : SchedulerConfig) (groups : List TransferGroup) (tables : Tables)
    (r : SaveRequest) : Prop :=
  ∀ g ∈ groups,
    (g.isState = false → ∃ slots, g.attnTokenIndices cfg.managerBlockSize r.managerBlockIdxes
        (groupTable r.allBlockIds g) = .ok slots ∧
      ∀ slot ∈ slots.flatten, ∃ block ∈ ownBlocks tables r.reqId g, g.InBlock block slot) ∧
    (g.isState = true → ∃ ids, g.stateBlockIds cfg.managerBlockSize r.managerBlockIdxes
        (groupTable r.allBlockIds g) = .ok ids ∧
      ∀ block ∈ ids, block ∈ ownBlocks tables r.reqId g)

/-- vLLM holds a block for the request at each position the save names. -/
def Resident (cfg : SchedulerConfig) (groups : List TransferGroup) (tables : Tables)
    (r : SaveRequest) : Prop :=
  ∀ g ∈ groups, ∀ mb ∈ r.managerBlockIdxes, ∀ p ∈ g.positions cfg.managerBlockSize mb,
    p < (ownBlocks tables r.reqId g).length

instance (cfg : SchedulerConfig) (groups : List TransferGroup) (tables : Tables)
    (r : SaveRequest) : Decidable (Resident cfg groups tables r) :=
  inferInstanceAs (Decidable (∀ g ∈ groups, ∀ mb ∈ r.managerBlockIdxes,
    ∀ p ∈ g.positions cfg.managerBlockSize mb, p < (ownBlocks tables r.reqId g).length))

/-- If vLLM holds any block for the request, the ledger's table is its own. -/
theorem groupTable_eq_own {g : TransferGroup} (hs : InSync sched tables)
    (htracked : sched.tracked reqId ≠ none) (hown : ownBlocks tables reqId g ≠ []) :
    groupTable (ledgerTable sched reqId) g = ownBlocks tables reqId g := by
  obtain ⟨l, hl⟩ := Option.ne_none_iff_exists'.mp htracked
  cases ht : tables reqId with
  | none =>
    rw [ownBlocks, ht] at hown
    exact absurd rfl hown
  | some t =>
    rw [ownBlocks, ht, ledgerTable_of_tracked hl, hs reqId l t hl ht]
    rfl

theorem mapsToOwn_iff {groups : List TransferGroup} {r : SaveRequest} (hs : InSync sched tables)
    (htracked : sched.tracked r.reqId ≠ none) :
    MapsToOwn cfg groups tables (withTable sched r) ↔ Resident cfg groups tables r := by
  have hown : ∀ {g : TransferGroup} {b : Nat}, b ∈ ownBlocks tables r.reqId g →
      groupTable (ledgerTable sched r.reqId) g = ownBlocks tables r.reqId g := fun hb =>
    groupTable_eq_own hs htracked (ne_nil_of_mem hb)
  constructor
  · intro hmaps g hg mb hmb p hp
    obtain ⟨hattn, hstate⟩ := hmaps g hg
    cases hkind : g.isState with
    | false =>
      obtain ⟨slots, hok, hin⟩ := hattn hkind
      obtain ⟨slot, hslot⟩ := attnTokenIndices_some hkind hok hmb hp
      obtain ⟨block, hblock, -⟩ := hin slot hslot
      have hlt := (attnTokenIndices_ok_iff hkind).mp ⟨slots, hok⟩ mb hmb p hp
      exact hlt.trans_eq (congrArg List.length (hown hblock))
    | true =>
      obtain ⟨ids, hok, hin⟩ := hstate hkind
      obtain ⟨block, hblock⟩ := stateBlockIds_some hok hmb
      have hlt := (stateBlockIds_ok_iff hkind).mp ⟨ids, hok⟩ mb hmb p hp
      exact hlt.trans_eq (congrArg List.length (hown (hin block hblock)))
  · intro hres g hg
    -- a position that is named shows that the two tables are the same
    have heq : ∀ mb ∈ r.managerBlockIdxes, ∀ p ∈ g.positions cfg.managerBlockSize mb,
        groupTable (ledgerTable sched r.reqId) g = ownBlocks tables r.reqId g :=
      fun mb hmb p hp => groupTable_eq_own hs htracked
        (ne_nil_of_length_pos (Nat.zero_lt_of_lt (hres g hg mb hmb p hp)))
    have hreach : ∀ mb ∈ r.managerBlockIdxes, ∀ p ∈ g.positions cfg.managerBlockSize mb,
        p < (groupTable (ledgerTable sched r.reqId) g).length := by
      intro mb hmb p hp
      rw [heq mb hmb p hp]
      exact hres g hg mb hmb p hp
    refine ⟨fun hkind => ?_, fun hkind => ?_⟩
    · obtain ⟨slots, hok⟩ := (attnTokenIndices_ok_iff hkind).mpr hreach
      refine ⟨slots, hok, fun slot hslot => ?_⟩
      obtain ⟨mb, hmb, p, hp, block, hblock, hin⟩ :=
        attnTokenIndices_slot hkind hok hslot
      exact ⟨block, heq mb hmb p hp ▸ mem_of_getElem? hblock, hin⟩
    · obtain ⟨ids, hok⟩ := (stateBlockIds_ok_iff hkind).mpr hreach
      refine ⟨ids, hok, fun block hblock => ?_⟩
      obtain ⟨mb, hmb, p, hp, hget⟩ := stateBlockIds_block hkind hok hblock
      exact heq mb hmb p hp ▸ mem_of_getElem? hget

theorem tracked_of_waiting (hb : Balanced [] s.lost s.sched) {r : SaveRequest}
    (hr : r ∈ s.sched.waitingToSaveRequests) : s.sched.tracked r.reqId ≠ none := by
  intro hnone
  have hacc := hb r.reqId
  rw [hnone] at hacc
  have hzero := hacc r.session
  have hpos : 0 < (s.sched.waitingToSaveRequests.map SaveRequest.pair).count (r.reqId, r.session) :=
    count_pos_iff.mpr (mem_map_of_mem (f := SaveRequest.pair) hr)
  rw [elsewhere] at hzero
  omega

/-- In every step of every run, the saves handed over map to memory of their
requests exactly when vLLM, after the scheduling of the step, holds a block at
each position they name. -/
theorem saves_owned_iff (cfg : SchedulerConfig) (groups : List TransferGroup)
    (hreach : (machine cfg).Reach anyAction s) (out : SchedulerOutput)
    (hstep : s.step cfg (.build out) = some (s', o)) : (∀ m ∈ o.metas, ∀ r ∈ m.toSaveRequests,
        MapsToOwn cfg groups (tellTables s.tables out) r) ↔
      ∀ r ∈ s.sched.waitingToSaveRequests,
        Resident cfg groups (tellTables s.tables out) r := by
  have hb := balanced_reach hreach
  cases stepOf hstep with
  | build _ hout =>
    have hsync := inSync_ingest (inSync_reach hreach) hout
    have hkept : Kept s.sched (s.sched.ingestScheduledReqs out) := kept_ingestScheduledReqs out
    simp only [forall_mem_singleton, meta_saves hb, forall_mem_map]
    refine forall₂_congr fun r hr => mapsToOwn_iff hsync fun hnone => ?_
    rcases hkept.ledgers r.reqId with heq | ⟨l, hl, -⟩
    · exact tracked_of_waiting hb hr (heq.symm.trans hnone)
    · cases hl.symm.trans hnone

/-! ## A preempted request -/

def attnGroup : TransferGroup := ⟨0, "tp0_g0", 2, 2, false, by decide, dvd_refl 2⟩

/-- A request gets block 7 and a session for it, which is answered. -/
def answeredRun (after : List SchedAction) : Option SchedSystem :=
  (machine smallConfig).run {}
    ([.alloc smallRequest [[7]] 0, .build ⟨[], []⟩,
      .sessionEnds "r" smallTask savedOutcome] ++ after)

/-- The request is preempted, and its block goes to another one. -/
def blockMoves : List SchedAction := [.preempt "r", .alloc ⟨"q", [3], [3]⟩ [[7]] 0]

theorem answeredRun_resident : (answeredRun []).isSome = true := by decide +kernel

theorem answeredRun_moved : (answeredRun blockMoves).isSome = true := by decide +kernel

theorem answeredRun_reach {after : List SchedAction} (h : (answeredRun after).isSome = true) :
    (machine smallConfig).Reach anyAction ((answeredRun after).get h) :=
  reach_of_run rfl (Option.some_get h).symm

theorem saves_owned_resident : ∃ s s' o, (machine smallConfig).Reach anyAction s ∧
      s.step smallConfig (.build ⟨[], []⟩) = some (s', o) ∧
      o.metas.flatMap (·.toSaveRequests) ≠ [] ∧
      ∀ m ∈ o.metas, ∀ r ∈ m.toSaveRequests,
        MapsToOwn smallConfig [attnGroup] (tellTables s.tables ⟨[], []⟩) r := by
  refine ⟨_, _, _, answeredRun_reach answeredRun_resident, rfl, by decide +kernel, ?_⟩
  exact (saves_owned_iff smallConfig [attnGroup] (answeredRun_reach answeredRun_resident)
    ⟨[], []⟩ rfl).mpr (by decide +kernel)

/-- The save of the preempted request is handed over with block 7, which
belongs to the other request by then. -/
theorem preempted_save_not_owned : ∃ s s' o, (machine smallConfig).Reach anyAction s ∧
      s.step smallConfig (.build ⟨[], []⟩) = some (s', o) ∧
      s'.tables "r" = none ∧ s'.tables "q" = some [[7]] ∧
      ∃ m ∈ o.metas, ∃ r ∈ m.toSaveRequests, r.reqId = "r" ∧ r.allBlockIds = [[7]] ∧
        ¬ MapsToOwn smallConfig [attnGroup] (tellTables s.tables ⟨[], []⟩) r := by
  refine ⟨_, _, _, answeredRun_reach answeredRun_moved, rfl, by decide +kernel, by decide +kernel,
    _, mem_singleton_self _, _, mem_cons_self, rfl, rfl, fun hmaps => ?_⟩
  obtain ⟨slots, hslots, hown⟩ := (hmaps attnGroup (mem_singleton_self _)).1 rfl
  obtain rfl : [[14, 15]] = slots := Except.ok.inj hslots
  obtain ⟨block, hblock, -⟩ := hown 14 (by decide)
  have hblock : block ∈ ([] : List Nat) := hblock
  cases hblock

end SchedSystem

end TairKvCache.PyConnector
