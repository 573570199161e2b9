import TairKvCache.EventReport.RequestPhases

/-!
# No snapshot is left open

A snapshot item that `BeginSnapshot` admits closes the reporter's write gate
until it is committed or aborted. Between the two the request validates the
versioned URIs, beats the heart, and writes every block, and each of these
may fail.

The items leave the snapshot of a request over (never begun, or begun and
aborted at once) or pending with all its blocks queued (`Stage`). The replace
phase turns a failed write into a failed item, and the commit phase ends a
pending snapshot by a commit or an abort (`Outcome`). Other callers may work
on the reporter all the time; they can take the version out of flight, and
cannot put it back.
-/

namespace TairKvCache.EventReport

open List

/-! ## Names survive validation -/

theorem validateSpecs_names {registered seen : List String} {total : Nat}
    {specs : List LocationSpec} {out : Nat × List ValidatedEventLocationSpec}
    (h : validateSpecs registered seen total specs = some out) :
    out.2.map (·.name) = specs.map (·.name) := by
  induction specs generalizing seen total out with
  | nil =>
    rw [← Option.some.inj h]
    rfl
  | cons spec specs ih =>
    unfold validateSpecs at h
    split at h
    · cases h
    · split at h
      · cases h
      · rename_i v hv
        split at h
        · cases h
        · obtain ⟨rest, hrest, rfl⟩ := Option.map_eq_some_iff.mp h
          rw [List.map_cons, List.map_cons, ih hrest, validate_name hv]

theorem versionSpecs_names {version : String} {specs : List ValidatedEventLocationSpec}
    {out : List LocationSpec}
    (h : specs.mapM (fun v => v.addPrevalidatedSnapshotVersion version) = some out) :
    out.map (·.name) = specs.map (·.name) := by
  have hall := Lib.mapM_forall₂ h
  clear h
  induction hall with
  | nil => rfl
  | cons hv _ ih => rw [List.map_cons, List.map_cons, ih, ValidatedEventLocationSpec.add_name hv]

section Request

variable {σ : Type} {env : Surroundings σ} {req : ReportEventRequest} {registered : List String}
    {type : DataStorageType} {l : List (KeyType × List SnapshotReplaceEntry)}
    {st' st : RequestState σ}

/-! ## The blocks of a snapshot are queued -/

variable {e : SnapshotReplaceEntry} {index : Nat} {entries : List (KeyType × SnapshotReplaceEntry)}
    {params : BlockSnapshotParams} {blocks : List ValidatedAdd} {version : String}

namespace RequestState

def Queued (l : List (KeyType × List SnapshotReplaceEntry)) (k : KeyType)
    (e : SnapshotReplaceEntry) : Prop := ∃ es, (k, es) ∈ l ∧ e ∈ es

theorem queued_cons {row : KeyType × List SnapshotReplaceEntry} {k : KeyType} :
    Queued (row :: l) k e ↔ (k = row.1 ∧ e ∈ row.2) ∨ Queued l k e := by
  simp only [Queued, mem_cons, or_and_right, exists_or, Prod.ext_iff]
  refine or_congr ⟨?_, fun h => ⟨row.2, ⟨h.1, rfl⟩, h.2⟩⟩ .rfl
  rintro ⟨es, ⟨hk, rfl⟩, he⟩
  exact ⟨hk, he⟩

theorem queued_push (l : List (KeyType × List SnapshotReplaceEntry)) (k k' : KeyType)
    (e' : SnapshotReplaceEntry) :
    Queued (pushReplace l k' e') k e ↔ (k, e) = (k', e') ∨ Queued l k e := by
  induction l with
  | nil => simp [pushReplace, Queued]
  | cons row l ih =>
    rw [pushReplace]
    split_ifs with hk
    · rw [queued_cons, queued_cons, hk, mem_append, mem_singleton, Prod.mk.injEq]
      tauto
    · rw [queued_cons, mem_singleton, Prod.mk.injEq]
    · rw [queued_cons, queued_cons, ih, or_left_comm]

theorem queued_foldl {k : KeyType} : ∀ l,
    Queued (entries.foldl (fun l p => pushReplace l p.1 p.2) l) k e ↔
      (k, e) ∈ entries ∨ Queued l k e := by
  induction entries with
  | nil => simp
  | cons p entries ih =>
    intro l
    rw [foldl_cons, ih, queued_push, mem_cons, or_left_comm, or_assoc]

/-- Every row of the queue is about the item, and none is empty. -/
def RowsOf (index : Nat) (l : List (KeyType × List SnapshotReplaceEntry)) : Prop :=
  ∀ row ∈ l, (∀ e ∈ row.2, e.eventIndex = index) ∧ row.2 ≠ []

theorem push_ne_nil (h : ∀ row ∈ l, row.2 ≠ []) (k : KeyType) (e : SnapshotReplaceEntry) :
    ∀ row ∈ pushReplace l k e, row.2 ≠ [] := by
  induction l with
  | nil => simp [pushReplace]
  | cons row l ih =>
    obtain ⟨hhead, htail⟩ := forall_mem_cons.mp h
    rw [pushReplace]
    split_ifs
    · exact forall_mem_cons.mpr ⟨by simp, htail⟩
    · exact forall_mem_cons.mpr ⟨cons_ne_nil _ _, h⟩
    · exact forall_mem_cons.mpr ⟨hhead, ih htail⟩

theorem rowsOf_foldl (hentries : ∀ p ∈ entries, p.2.eventIndex = index) :
    RowsOf index (entries.foldl (fun l p => pushReplace l p.1 p.2) []) := by
  intro row hrow
  refine ⟨fun e he => ?_, ?_⟩
  · rcases (queued_foldl []).mp ⟨row.2, hrow, he⟩ with hmem | ⟨es, hes, -⟩
    · exact hentries _ hmem
    · cases hes
  · exact foldlRecOn (motive := fun l => ∀ row ∈ l, row.2 ≠ []) entries _ (by simp)
      (fun l h p _ => push_ne_nil h p.1 p.2) row hrow

end RequestState

/-! ## From the blocks of the item to the tasks -/

/-- A validated block keeps its key, its medium and its spec names. -/
theorem validateBlocks_forall₂ {seen : List (String × KeyType)} {total : Nat}
    {blocks : List SnapshotBlock} {out : List ValidatedAdd}
    (h : validateBlocks registered params seen total blocks = some out) :
    List.Forall₂ (fun block v => parseInt64 block.blockKey = some v.blockKey ∧
      v.medium = block.mediumIn params ∧ v.specs.map (·.name) = block.specs.map (·.name))
      blocks out := by
  induction blocks generalizing seen total out with
  | nil =>
    rw [← Option.some.inj h]
    exact .nil
  | cons block blocks ih =>
    unfold validateBlocks at h
    dsimp only at h
    split at h
    · cases h
    · rename_i key hkey
      split at h
      · cases h
      · split at h
        · cases h
        · split at h
          · cases h
          · rename_i total' specs hspecs
            obtain ⟨rest, hrest, rfl⟩ := Option.map_eq_some_iff.mp h
            exact .cons ⟨hkey, rfl, validateSpecs_names hspecs⟩ (ih hrest)

/-- A versioned block keeps its key and spec names, under its location. -/
theorem versionBlocks_forall₂
    (h : RequestState.versionBlocks req type index version blocks = some entries) :
    List.Forall₂ (fun v p => p.1 = v.blockKey ∧ p.2.eventIndex = index ∧
      p.2.locationId = SnapshotUri.buildLocationId type v.medium req.hostIpPort ∧
      p.2.specs.map (·.name) = v.specs.map (·.name)) blocks entries := by
  refine (Lib.mapM_forall₂ h).imp fun v p hv => ?_
  obtain ⟨specs, hspecs, rfl⟩ := Option.map_eq_some_iff.mp hv
  exact ⟨rfl, rfl, rfl, versionSpecs_names hspecs⟩

/-- The write of the block was answered `EC_OK`. -/
def BlockWritten (req : ReportEventRequest) (type : DataStorageType)
    (params : BlockSnapshotParams) (history : List RequestCall) (block : SnapshotBlock) : Prop :=
  ∃ (key : KeyType) (tasks : List (KeyType × List ReplaceTask)) (answer : List ErrorCode)
    (k : Nat) (ts : List ReplaceTask) (task : ReplaceTask),
    parseInt64 block.blockKey = some key ∧
    RequestCall.replaced tasks answer ∈ history ∧ tasks[k]? = some (key, ts) ∧
    answer[k]? = some .ok ∧ task ∈ ts ∧
    task.resolvedLocationId
      = SnapshotUri.buildLocationId type (block.mediumIn params) req.hostIpPort ∧
    task.specs.map (·.name) = block.specs.map (·.name)

namespace RequestState

theorem queued_block (hblocks : validateBlocks registered params [] 0 params.blocks = some blocks)
    (hentries : versionBlocks req type index version blocks = some entries) {block : SnapshotBlock}
    (hblock : block ∈ params.blocks) : ∃ key e, parseInt64 block.blockKey = some key ∧
      Queued (entries.foldl (fun l p => pushReplace l p.1 p.2) []) key e ∧
      e.locationId = SnapshotUri.buildLocationId type (block.mediumIn params) req.hostIpPort ∧
      e.specs.map (·.name) = block.specs.map (·.name) := by
  obtain ⟨v, hv, hkey, hmedium, hnames⟩ :=
    Lib.forall₂_mem_left (validateBlocks_forall₂ hblocks) hblock
  obtain ⟨p, hp, hpkey, -, hploc, hpnames⟩ :=
    Lib.forall₂_mem_left (versionBlocks_forall₂ hentries) hv
  refine ⟨v.blockKey, p.2, hkey, ?_, by rw [hploc, hmedium], hpnames.trans hnames⟩
  rw [← hpkey]
  exact (queued_foldl []).mpr (.inl hp)

/-! ## The replace phase -/

theorem keyCode_ok {answer : List ErrorCode} {k : Nat} :
    keyCode answer k = .ok ↔ answer[k]? = some .ok := by
  unfold keyCode
  rw [getD_eq_getElem?_getD]
  cases answer[k]? with
  | none => simp
  | some ec => simp

/-- An item whose writes are marked is fine only if all were answered so. -/
theorem markReplaces_ok {entries : List (KeyType × List SnapshotReplaceEntry)}
    (hrows : RowsOf index entries) {answer : List ErrorCode} {codes : ItemCodes}
    (h : markReplaces entries answer codes index = .ok) {k : Nat}
    {row : KeyType × List SnapshotReplaceEntry} (hk : entries[k]? = some row) :
    answer[k]? = some .ok := by
  by_contra hne
  rw [← keyCode_ok] at hne
  obtain ⟨hindex, hnonempty⟩ := hrows row (mem_of_getElem? hk)
  obtain ⟨e, he⟩ := exists_mem_of_ne_nil row.2 hnonempty
  have hmem : (row, k) ∈ entries.zipIdx := mk_mem_zipIdx_iff_getElem?.mpr hk
  refine ItemCodes.foldl_fails (fun codes p => ?_) hmem (fun codes => ?_) codes h
  · split
    · exact .refl codes
    · exact ItemCodes.foldl_worse
        (fun codes (e : SnapshotReplaceEntry) => ItemCodes.fail_worse codes e.eventIndex _) _ codes
  · rw [if_neg hne]
    refine ItemCodes.foldl_fails
      (fun codes (e : SnapshotReplaceEntry) => ItemCodes.fail_worse codes e.eventIndex _) he
      (fun codes => ?_) codes
    rw [hindex e he]
    exact ItemCodes.fail_self_ne codes index hne

end RequestState

/-! ## Begin, abort and commit -/

theorem Reporter.abort_inFlight {r : Reporter} {version : String}
    (hvalid : SnapshotUri.isValidSnapshotVersionToken version = true) (hne : version ≠ "")
    (hfence : r.inFlight = version → r.fence.isSome = true) :
    (r.abortSnapshotVersion true version).inFlight ≠ version := by
  unfold Reporter.abortSnapshotVersion
  split
  · rename_i hcond
    rw [hvalid] at hcond
    intro h
    have := hfence h
    rw [Option.isNone_eq_false_iff.mpr this] at hcond
    exact absurd hcond (by decide)
  · split
    · rename_i hnone
      rw [inFlight, hnone]
      exact hne.symm
    · rename_i state hstate
      split
      · exact hne.symm
      · rename_i hother
        rwa [inFlight, hstate]

namespace RequestState

/-- An abort leaves its version out of flight, whoever works on the reporter
meanwhile. -/
theorem abortSnapshot_inFlight {m : Nat} (hnamed : namedReporter req.reporterKey = true)
    (hfence : st.reporter.inFlight = (env.token m).1 → st.reporter.fence.isSome = true) :
    (st.abortSnapshot env req (env.token m).1).reporter.inFlight ≠ (env.token m).1 := by
  have hoff : Reporter.KeepsOff (env.token m).1 st.reporter _ :=
    others_keepsOff m st.calls st.reporter
  unfold abortSnapshot
  rw [hnamed]
  exact Reporter.abort_inFlight (env.token m).2 (env.token m).ne_empty
    (hoff.fenced hfence)

end RequestState

theorem Reporter.commit_inFlight {r : Reporter} {version : String} {accepting : Bool}
    {generation : Nat} {nowMs : Int}
    (h : (r.commitSnapshotVersionIfGeneration accepting version generation nowMs).1 = .ok) :
    (r.commitSnapshotVersionIfGeneration accepting version generation nowMs).2.inFlight = "" := by
  rcases r.commitSnapshotVersionIfGeneration_cases accepting version generation nowMs with
    ⟨hno, -⟩ | ⟨-, heq, hiff⟩
  · exact absurd h hno
  · rcases r.commitSnapshotVersion_cases version nowMs with hcase | ⟨-, -, hcase⟩
    · rw [hcase] at hiff
      cases hiff.mp h
    · rw [heq, hcase]
      rfl

namespace RequestState

end RequestState

/-! ## The way of a snapshot -/

/-- How the snapshot of item `i` has ended. -/
inductive Outcome (env : Surroundings σ) (req : ReportEventRequest) (type : DataStorageType)
    (i : Nat) (st : RequestState σ) : Prop
  | none (hcalls : st.snapshotCalls = [])
      (hcode : st.codes i = .ok → ∀ params, req.events[i]? ≠ some (.blockSnapshot params))
  | aborted (m : Nat) (rest : List RequestCall)
      (hcalls : st.snapshotCalls
        = .begun i (env.token m).1 :: rest ++ [.aborted (env.token m).1])
      (hrest : ∀ c ∈ rest, ∃ tasks answer, c = .replaced tasks answer)
      (hflight : st.reporter.inFlight ≠ (env.token m).1) (hcode : st.codes i ≠ .ok)
  | committed (m : Nat) (rest : List RequestCall) (params : BlockSnapshotParams)
      (hcalls : st.snapshotCalls
        = .begun i (env.token m).1 :: rest ++ [.committed (env.token m).1])
      (hrest : ∀ c ∈ rest, ∃ tasks answer, c = .replaced tasks answer)
      (hflight : st.reporter.inFlight ≠ (env.token m).1)
      (hitem : req.events[i]? = some (.blockSnapshot (some params)))
      (hblocks : ∀ block ∈ params.blocks, BlockWritten req type params st.snapshotCalls block)

/-- How far the snapshot is before the replace phase. -/
inductive Stage (env : Surroundings σ) (req : ReportEventRequest) (registered : List String)
    (type : DataStorageType) (i : Nat) (st : RequestState σ) : Prop
  | settled (h : Outcome env req type i st) (htask : st.snapshotCommitTask = none)
      (hqueue : st.snapshotToReplace = [])
  | pending (m : Nat) (params : BlockSnapshotParams) (blocks : List ValidatedAdd)
      (entries : List (KeyType × SnapshotReplaceEntry))
      (hitem : req.events[i]? = some (.blockSnapshot (some params)))
      (hblocks : validateBlocks registered params [] 0 params.blocks = some blocks)
      (hentries : RequestState.versionBlocks req type i (env.token m).1 blocks = some entries)
      (hcalls : st.snapshotCalls = [.begun i (env.token m).1])
      (htask : st.snapshotCommitTask = some ⟨(env.token m).1, i⟩)
      (hqueue : st.snapshotToReplace
        = entries.foldl (fun l p => RequestState.pushReplace l p.1 p.2) [])
      (hflight : st.reporter.inFlight = (env.token m).1 → st.reporter.fence.isSome = true)

variable {i m : Nat}

namespace RequestState

theorem snapshotCalls_note (st : RequestState σ) {c : RequestCall} (hc : c.isSnapshotCall = true) :
    (st.note c).snapshotCalls = st.snapshotCalls ++ [c] := by
  rw [snapshotCalls, note, filter_append, filter_singleton, hc]
  rfl

/-- The queue is written by one call, whose failures fail the item. -/
theorem replacePhase_written (hrows : RowsOf i st.snapshotToReplace) {begun : RequestCall}
    (hcalls : st.snapshotCalls = [begun])
    (hflight : st.reporter.inFlight = (env.token m).1 → st.reporter.fence.isSome = true) :
    ∃ out rest, out = st.replacePhase env type ∧ out.snapshotCommitTask = st.snapshotCommitTask ∧
      out.snapshotCalls = begun :: rest ∧
      (∀ c ∈ rest, ∃ tasks answer, c = .replaced tasks answer) ∧
      (out.codes i = .ok → ∀ (k : Nat) row, st.snapshotToReplace[k]? = some row →
        ∃ answer, .replaced (st.replaceTasks type) answer ∈ rest ∧ answer[k]? = some .ok) ∧
      (out.reporter.inFlight = (env.token m).1 → out.reporter.fence.isSome = true) := by
  have hlease : Beside env i st (st.acquireWriteLease env).2 := st.acquireWriteLease_beside
  unfold replacePhase
  split
  · rename_i hempty
    refine ⟨st, [], rfl, rfl, hcalls, by simp, fun _ k row hk => ?_, hflight⟩
    rw [isEmpty_iff.mp hempty] at hk
    cases hk
  · refine ⟨_, _, rfl, hlease.commitTask, (snapshotCalls_note _ rfl).trans
      (congrArg (· ++ _) (hlease.calls.trans hcalls)), by simp, ?_,
      (hlease.reporter m).fenced hflight⟩
    intro hok k row hk
    exact ⟨_, mem_singleton.mpr rfl, markReplaces_ok hrows hok hk⟩

end RequestState

open RequestState

theorem BlockWritten.mono {params : BlockSnapshotParams} {block : SnapshotBlock}
    {history history' : List RequestCall} (h : BlockWritten req type params history block)
    (hsub : ∀ c ∈ history, c ∈ history') : BlockWritten req type params history' block := by
  obtain ⟨key, tasks, answer, k, ts, task, hkey, hcall, hmore⟩ := h
  exact ⟨key, tasks, answer, k, ts, task, hkey, hsub _ hcall, hmore⟩

theorem Stage.outcome (hnamed : namedReporter req.reporterKey = true)
    (h : Stage env req registered type i st) :
    Outcome env req type i ((st.replacePhase env type).commitPhase env req) := by
  cases h with
  | settled h htask hqueue =>
    rw [replacePhase, if_pos (by rw [hqueue]; rfl), commitPhase, htask]
    exact h
  | pending m params blocks entries hitem hblocks hentries hcalls htask hqueue hflight =>
    have hrows : RowsOf i st.snapshotToReplace := by
      rw [hqueue]
      refine rowsOf_foldl fun p hp => ?_
      obtain ⟨v, -, -, hindex, -⟩ := Lib.forall₂_mem_right (versionBlocks_forall₂ hentries) hp
      exact hindex
    obtain ⟨out, rest, hout, htask', hcalls', hrest, hwritten, hfence⟩ :=
      replacePhase_written hrows hcalls hflight
    rw [← hout, commitPhase, htask', htask]
    dsimp only
    -- each block of the item is among the tasks
    have hall (hok : out.codes i = .ok) (block : SnapshotBlock) (hblock : block ∈ params.blocks) :
        BlockWritten req type params (.begun i (env.token m).1 :: rest) block := by
      obtain ⟨key, e, hkey, ⟨es, hrow, he⟩, hlocation, hnames⟩ :=
        queued_block hblocks hentries hblock
      rw [← hqueue] at hrow
      obtain ⟨k, hk⟩ := mem_iff_getElem?.mp hrow
      obtain ⟨answer, hcall, hanswer⟩ := hwritten hok k _ hk
      refine ⟨key, _, answer, k, es.map (·.toTask type), e.toTask type, hkey,
        mem_cons_of_mem _ hcall, ?_, hanswer, mem_map.mpr ⟨e, he, rfl⟩, hlocation, hnames⟩
      rw [replaceTasks, getElem?_map, hk]
      rfl
    split
    · rename_i hne
      refine .aborted m rest ?_ hrest (abortSnapshot_inFlight hnamed hfence) hne
      exact (snapshotCalls_note _ rfl).trans (congrArg (· ++ _) hcalls')
    · rename_i hok
      have hcall : Beside env i out (out.call env fun accepting r =>
          r.commitSnapshotVersionIfGeneration accepting (env.token m).1 out.lifecycleGeneration
            (env.nowMs out.calls)).2 := out.call_beside env fun m' accepting r =>
        (r.commitSnapshotVersionIfGeneration_gate ..).drifts_keepsOff (env.token m').ne_empty
      split
      · rename_i hec
        refine .committed m rest params ?_ hrest (fun hv => ?_) hitem fun block hblock => ?_
        · exact (snapshotCalls_note _ rfl).trans (congrArg (· ++ _) (hcall.calls.trans hcalls'))
        · exact (env.token m).ne_empty (hv.symm.trans (Reporter.commit_inFlight hec))
        · rw [snapshotCalls_note _ rfl, hcall.calls, hcalls']
          exact (hall (not_not.mp hok) block hblock).mono fun c hc => mem_append_left _ hc
      · rename_i hec
        refine .aborted m rest ?_ hrest
          (abortSnapshot_inFlight hnamed ((hcall.reporter m).fenced hfence)) ?_
        · exact (snapshotCalls_note _ rfl).trans (congrArg (· ++ _) (hcall.calls.trans hcalls'))
        · intro hcode
          exact hec ((ItemCodes.set_self _ _ _).symm.trans hcode)

end Request

end TairKvCache.EventReport
