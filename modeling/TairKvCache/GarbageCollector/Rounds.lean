import TairKvCache.Lib.Slots
import TairKvCache.MetaScan
import TairKvCache.GarbageCollector.Collector

/-!
# A round ends, and covers what it started with

A round takes its instances from the registry once and then scans one page
per effective tick, going round the instances that are not done. Over stores
that do not change it ends after a bounded number of effective ticks, and by
then every instance of the snapshot is covered: all of its pages were
scanned, from the base cursor back to it, or it had no indexer, or its last
three scans in this round failed.

The log of the effective ticks carries the argument. While an instance is
open (`Open`), the pages logged for it and the pages still ahead of its
cursor make up its store, its failure count is the length of the run of
failures at the end of its log, and each page accounts for at most three
entries of the log. One effective tick keeps that for the current instance or
makes it `Done`, and touches no other (`scanCurrent_step`). So the log of a
running round is bounded (`log_bounded`); and as long as the actions in
flight complete, effective ticks keep coming (`eventually_effective`).
-/

namespace TairKvCache.GarbageCollector

open Lib List
open Option (some.inj map_some elim_none)

/-! ## Fixed stores -/

/-- What an instance's indexer scans, when nothing changes it: the pages from
the base cursor come back to it, and hold all keys. -/
structure MaintenanceStore where
  page : Nat → Option MaintenanceScanBatch
  pages : List MaintenanceScanBatch
  closes : Pages page MaintenanceScanBatch.nextCursor 0 pages
  keys : List KeyType
  complete : ∀ k ∈ keys, ∃ b ∈ pages, k ∈ b.keys

/-- The local backend is such a store. -/
noncomputable def localStore (t : MetaScan.LocalTable) (limit : Nat) : MaintenanceStore where
  page := t.scanLocationsForMaintenance limit
  pages := (t.scan_pages limit).choose
  closes := (t.scan_pages limit).choose_spec.1
  keys := t.keys
  complete k hk := by
    rw [← (t.scan_pages limit).choose_spec.2] at hk
    exact mem_flatMap.mp hk

/-- A tick over fixed stores: a scan fails, or answers the store's page; no
indexer is reported exactly for the instances without a store. -/
structure Fixed (stores : String → Option MaintenanceStore) (env : TickEnv) : Prop where
  missing : ∀ id cursor, env.scan id cursor = none ↔ stores id = none
  page : ∀ id cursor batch store, env.scan id cursor = some (.ok batch) →
    stores id = some store → store.page cursor = some batch

def NotStopped (env : TickEnv) : Prop := ∀ c, env.stopped c = false

/-! ## The log of a round -/

def TickEvent.isAbout (name : String × String) : TickEvent → Bool
  | .skipped | .roundCompleted => false
  | .indexerMissing n | .scanFailed n _ | .scanned n _ _ => n = name

def TickEvent.page? : TickEvent → Option MaintenanceScanBatch
  | .scanned _ _ batch => some batch
  | .skipped | .roundCompleted | .indexerMissing _ | .scanFailed _ _ => none

def eventsOf (name : String × String) (log : List TickEvent) : List TickEvent :=
  log.filter (·.isAbout name)

def scannedOf (name : String × String) (log : List TickEvent) : List MaintenanceScanBatch :=
  (eventsOf name log).filterMap TickEvent.page?

section Log

variable {name : String × String} {log : List TickEvent} {ev : TickEvent}

theorem eventsOf_snoc (h : ev.isAbout name = true) :
    eventsOf name (log ++ [ev]) = eventsOf name log ++ [ev] := by
  simp [eventsOf, filter_append, h]

theorem length_eventsOf_snoc (log) (h : ev.isAbout name = true) :
    (eventsOf name (log ++ [ev])).length = (eventsOf name log).length + 1 := by
  rw [eventsOf_snoc h, length_append, length_singleton]

theorem eventsOf_snoc_other (h : ev.isAbout name = false) :
    eventsOf name (log ++ [ev]) = eventsOf name log := by
  simp [eventsOf, filter_append, h]

theorem scannedOf_snoc (h : ev.isAbout name = true) :
    scannedOf name (log ++ [ev]) = scannedOf name log ++ ev.page?.toList := by
  rw [scannedOf, eventsOf_snoc h, filterMap_append, scannedOf]
  cases hp : ev.page? <;> simp [hp]

theorem scannedOf_snoc_other (h : ev.isAbout name = false) :
    scannedOf name (log ++ [ev]) = scannedOf name log := by
  rw [scannedOf, eventsOf_snoc_other h, scannedOf]

end Log

/-! ## Coverage -/

section Coverage

variable (stores : String → Option MaintenanceStore)

/-- How an entry can be finished with. -/
def Covered (log : List TickEvent) (name : String × String) : Prop :=
  (stores name.2 = none ∧ .indexerMissing name ∈ log) ∨
    (∃ store, stores name.2 = some store ∧ scannedOf name log = store.pages) ∨
    ∃ cursor before, eventsOf name log
      = before ++ [.scanFailed name cursor, .scanFailed name cursor, .scanFailed name cursor]

def budget (name : String × String) : Nat :=
  match stores name.2 with
  | none => 1
  | some store => 3 * store.pages.length

structure Done (log : List TickEvent) (name : String × String) : Prop where
  covered : Covered stores log name
  bounded : (eventsOf name log).length ≤ budget stores name

structure Open (log : List TickEvent) (e : InstanceScanEntry) : Prop where
  failures : e.scanFailureCount < maxScanFailuresPerInstancePerRound
  trailing : ∃ before, eventsOf e.name log
    = before ++ List.replicate e.scanFailureCount (.scanFailed e.name e.cursor)
  count : (eventsOf e.name log).length
    ≤ 3 * (scannedOf e.name log).length + e.scanFailureCount
  ahead : ∀ store, stores e.instanceId = some store → ∃ rest,
    store.pages = scannedOf e.name log ++ rest ∧
      Pages store.page MaintenanceScanBatch.nextCursor e.cursor rest
  untouched : stores e.instanceId = none → eventsOf e.name log = []

def EntryOk (log : List TickEvent) (e : InstanceScanEntry) : Prop :=
  if e.completed then Done stores log e.name else Open stores log e

end Coverage

variable {store : MaintenanceStore} {n : Nat} {entries : List InstanceScanEntry}
    {e : InstanceScanEntry}

section Entries

variable {stores : String → Option MaintenanceStore} {log : List TickEvent}
  {e : InstanceScanEntry} {ev : TickEvent}

theorem budget_store (hs : stores e.instanceId = some store) :
    budget stores e.name = 3 * store.pages.length := by
  rw [budget, show stores e.name.2 = some store from hs]

theorem open_fresh (hc : e.cursor = 0) (hf : e.scanFailureCount = 0) : Open stores [] e where
  failures := by
    rw [hf]
    decide
  trailing := ⟨[], by rw [hf]; rfl⟩
  count := Nat.zero_le _
  ahead store _ := ⟨store.pages, rfl, by rw [hc]; exact store.closes⟩
  untouched _ := rfl

theorem Done.other {name : String × String} (h : Done stores log name)
    (hev : ev.isAbout name = false) : Done stores (log ++ [ev]) name := by
  refine ⟨?_, by rw [eventsOf_snoc_other hev]; exact h.bounded⟩
  rcases h.covered with ⟨hs, hm⟩ | ⟨store, hs, hp⟩ | hthree
  · exact .inl ⟨hs, mem_append_left _ hm⟩
  · exact .inr (.inl ⟨store, hs, by rw [scannedOf_snoc_other hev, hp]⟩)
  · exact .inr (.inr (by rwa [eventsOf_snoc_other hev]))

theorem Open.other (h : Open stores log e) (hev : ev.isAbout e.name = false) :
    Open stores (log ++ [ev]) e where
  failures := h.failures
  trailing := by rw [eventsOf_snoc_other hev]; exact h.trailing
  count := by rw [eventsOf_snoc_other hev, scannedOf_snoc_other hev]; exact h.count
  ahead := by rw [scannedOf_snoc_other hev]; exact h.ahead
  untouched := by rw [eventsOf_snoc_other hev]; exact h.untouched

theorem EntryOk.other (h : EntryOk stores log e) (hev : ev.isAbout e.name = false) :
    EntryOk stores (log ++ [ev]) e := by
  unfold EntryOk at h ⊢
  split_ifs at h ⊢
  · exact h.other hev
  · exact h.other hev

theorem Open.missing (h : Open stores log e) (hnone : stores e.instanceId = none) :
    Done stores (log ++ [.indexerMissing e.name]) e.name := by
  have habout : (TickEvent.indexerMissing e.name).isAbout e.name = true := by
    simp [TickEvent.isAbout]
  refine ⟨.inl ⟨hnone, by simp⟩, ?_⟩
  rw [eventsOf_snoc habout, h.untouched hnone, budget]
  have hnone' : stores e.name.2 = none := hnone
  rw [hnone']
  exact Nat.le_refl 1

theorem Open.scanned_lt (h : Open stores log e) (hs : stores e.instanceId = some store) :
    (scannedOf e.name log).length < store.pages.length := by
  obtain ⟨rest, hpages, hrest⟩ := h.ahead store hs
  obtain ⟨b, rest', rfl, -⟩ := hrest.cases
  rw [hpages, length_append, length_cons]
  omega

theorem Open.length_le (h : Open stores log e) :
    (eventsOf e.name log).length ≤ budget stores e.name := by
  cases hs : stores e.instanceId with
  | none =>
    rw [h.untouched hs]
    exact Nat.zero_le _
  | some store =>
    have hlt := h.scanned_lt hs
    have hcount := h.count
    have hf := h.failures
    rw [maxScanFailuresPerInstancePerRound] at hf
    rw [budget_store hs]
    omega

theorem EntryOk.length_le (h : EntryOk stores log e) :
    (eventsOf e.name log).length ≤ budget stores e.name := by
  unfold EntryOk at h
  split_ifs at h
  · exact h.bounded
  · exact h.length_le

/-- A failed scan: one failure more, and the third gives the entry up. -/
theorem Open.failed (h : Open stores log e) (hs : stores e.instanceId = some store) :
    if maxScanFailuresPerInstancePerRound ≤ e.scanFailureCount + 1 then
      Done stores (log ++ [.scanFailed e.name e.cursor]) e.name
    else Open stores (log ++ [.scanFailed e.name e.cursor])
      { e with scanFailureCount := e.scanFailureCount + 1 } := by
  have habout : (TickEvent.scanFailed e.name e.cursor).isAbout e.name = true := by
    simp [TickEvent.isAbout]
  have hscanned : scannedOf e.name (log ++ [.scanFailed e.name e.cursor])
      = scannedOf e.name log := by
    rw [scannedOf_snoc habout]
    simp [TickEvent.page?]
  obtain ⟨before, hbefore⟩ := h.trailing
  have htrail : eventsOf e.name (log ++ [.scanFailed e.name e.cursor])
      = before ++ List.replicate (e.scanFailureCount + 1) (.scanFailed e.name e.cursor) := by
    rw [eventsOf_snoc habout, hbefore, append_assoc, ← replicate_succ']
  have hlen := length_eventsOf_snoc log habout
  have hlt := h.scanned_lt hs
  have hcount := h.count
  have hf := h.failures
  split_ifs with hthree
  · rw [maxScanFailuresPerInstancePerRound] at hf hthree
    have hthree' : e.scanFailureCount + 1 = 3 := by omega
    refine ⟨.inr (.inr ⟨e.cursor, before, by rw [htrail, hthree']; rfl⟩), ?_⟩
    rw [hlen, budget_store hs]
    omega
  · refine ⟨not_le.mp hthree, ⟨before, htrail⟩, hlen.trans_le ?_, hscanned.symm ▸ h.ahead,
      fun hnone => ?_⟩
    · change _ ≤ 3 * (scannedOf e.name _).length + (e.scanFailureCount + 1)
      rw [hscanned]
      omega
    · cases hs.symm.trans hnone

/-- A scanned page: the entry is done when the cursor is back at the base. -/
theorem Open.scanned (h : Open stores log e) (hs : stores e.instanceId = some store)
    {batch : MaintenanceScanBatch} (hpage : store.page e.cursor = some batch) :
    if batch.nextCursor = 0 then Done stores (log ++ [.scanned e.name e.cursor batch]) e.name
    else Open stores (log ++ [.scanned e.name e.cursor batch])
      { e with scanFailureCount := 0, cursor := batch.nextCursor } := by
  have habout : (TickEvent.scanned e.name e.cursor batch).isAbout e.name = true := by
    simp [TickEvent.isAbout]
  have hscanned : scannedOf e.name (log ++ [.scanned e.name e.cursor batch])
      = scannedOf e.name log ++ [batch] := by
    rw [scannedOf_snoc habout]
    simp [TickEvent.page?]
  have hlen := length_eventsOf_snoc log habout
  obtain ⟨rest, hpages, hrest⟩ := h.ahead store hs
  obtain ⟨b, rest', rfl, hb, hnext⟩ := hrest.cases
  obtain rfl : b = batch := some.inj (hb.symm.trans hpage)
  have hcount := h.count
  have hf := h.failures
  rw [maxScanFailuresPerInstancePerRound] at hf
  rcases hnext with ⟨hzero, rfl⟩ | ⟨hne, hrest'⟩
  · rw [if_pos hzero]
    refine ⟨.inr (.inl ⟨store, hs, by rw [hscanned, hpages]⟩), ?_⟩
    have hlength := congrArg List.length hpages
    rw [length_append, length_singleton] at hlength
    rw [hlen, budget_store hs]
    omega
  · rw [if_neg hne]
    refine ⟨Nat.zero_lt_succ 2, ⟨_, (append_nil _).symm⟩, hlen.trans_le ?_,
      fun store' hs' => ?_, fun hnone => ?_⟩
    · change _ ≤ 3 * (scannedOf e.name _).length + 0
      rw [hscanned, length_append, length_singleton]
      omega
    · obtain rfl : store = store' := some.inj (hs.symm.trans hs')
      refine ⟨rest', ?_, hrest'⟩
      change _ = scannedOf e.name _ ++ rest'
      rw [hscanned, hpages, append_assoc]
      rfl
    · cases hs.symm.trans hnone

end Entries

/-! ## Advancing -/

theorem set_getElem?_self {α : Type} {l : List α} {i : Nat} {a : α} (h : l[i]? = some a) :
    l.set i a = l := by
  obtain ⟨hlt, rfl⟩ := List.getElem?_eq_some_iff.mp h
  exact set_getElem_self hlt

theorem exists_offset {i j : Nat} (hi : i < n) (hj : j < n) :
    ∃ offset < n, (i + (offset + 1)) % n = j := by
  by_cases hij : i < j
  · refine ⟨j - i - 1, by omega, ?_⟩
    rw [show i + (j - i - 1 + 1) = j by omega, Nat.mod_eq_of_lt hj]
  · refine ⟨n - i + j - 1, by omega, ?_⟩
    rw [show i + (n - i + j - 1 + 1) = j + n by omega, Nat.add_mod_right, Nat.mod_eq_of_lt hj]

theorem nextIndex_spec {s : Collector} (hi : s.instanceIndex < s.instances.length)
    (h : ¬ s.instances.all (·.completed) = true) :
    ∃ e, s.instances[s.nextIndex]? = some e ∧ e.completed = false := by
  obtain ⟨e, he, hopen⟩ : ∃ e ∈ s.instances, e.completed = false := by
    simpa [all_eq_true] using h
  obtain ⟨j, hj, rfl⟩ := mem_iff_getElem.mp he
  obtain ⟨offset, hlt, hoff⟩ := exists_offset hi hj
  have hsome : (((List.range s.instances.length).map fun offset =>
      (s.instanceIndex + (offset + 1)) % s.instances.length).find? fun i =>
        (s.instances[i]?).any fun e => !e.completed).isSome := by
    rw [find?_isSome]
    refine ⟨j, mem_map.mpr ⟨offset, mem_range.mpr hlt, hoff⟩, ?_⟩
    rw [getElem?_eq_getElem hj]
    simp [hopen]
  obtain ⟨i, hfound⟩ := Option.isSome_iff_exists.mp hsome
  have hi' := find?_some hfound
  rw [Collector.nextIndex, hfound, Option.getD_some]
  cases hx : s.instances[i]? with
  | none => simp [hx] at hi'
  | some x =>
    rw [hx] at hi'
    exact ⟨x, rfl, by simpa using hi'⟩

/-- Marking the current entry ends the round or leaves it at an open entry. -/
theorem advanceInstance_spec (cfg : Config) (env : TickEnv) (done : Bool) {s : Collector}
    (hcur : s.instances[s.instanceIndex]? = some e) :
    ∃ s' entries, s' = s.advanceInstance cfg env done ∧
      entries = s.instances.set s.instanceIndex { e with completed := e.completed || done } ∧
      (((∀ x ∈ entries, x.completed = true) ∧ s'.roundActive = false) ∨
        (s'.instances = entries ∧ s'.roundActive = s.roundActive ∧
          s'.nextRoundAt = s.nextRoundAt ∧
          ∃ x, entries[s'.instanceIndex]? = some x ∧ x.completed = false)) := by
  refine ⟨_, _, rfl, rfl, ?_⟩
  obtain ⟨hlt, hget⟩ := List.getElem?_eq_some_iff.mp hcur
  have hmodify : (s.instances.modify s.instanceIndex fun e =>
        { e with completed := e.completed || done })
      = s.instances.set s.instanceIndex { e with completed := e.completed || done } := by
    rw [modify_eq_set_getElem? , hcur]
    rfl
  rw [Collector.advanceInstance, if_neg (not_le.mpr hlt)]
  dsimp only
  rw [hmodify]
  have hlt' : s.instanceIndex < (s.instances.set s.instanceIndex
      { e with completed := e.completed || done }).length := by rwa [length_set]
  generalize s.instances.set s.instanceIndex { e with completed := e.completed || done } = entries
    at hlt' ⊢
  split_ifs with hall
  · exact .inl ⟨fun x hx => all_eq_true.mp hall x hx, rfl⟩
  · have hnext : ∃ x, entries[({ s with instances := entries } : Collector).nextIndex]? = some x ∧
        x.completed = false := nextIndex_spec (s := { s with instances := entries }) hlt' hall
    exact .inr ⟨rfl, rfl, rfl, hnext⟩

/-! ## A running round -/

/-- The state of a round that began with the entries `names`. -/
structure Running (stores : String → Option MaintenanceStore) (names : List (String × String))
    (log : List TickEvent) (s : Collector) : Prop where
  active : s.roundActive = true
  unpaused : s.nextRoundAt = none
  names_eq : s.instances.map (·.name) = names
  current : ∃ e, s.instances[s.instanceIndex]? = some e ∧ e.completed = false
  entries : ∀ e ∈ s.instances, EntryOk stores log e
  known : ∀ ev ∈ log, ∃ name ∈ names, ev.isAbout name = true

def SameRound (s s' : Collector) : Prop :=
  s'.roundActive = s.roundActive ∧ s'.nextRoundAt = s.nextRoundAt ∧
    s'.instances = s.instances ∧ s'.instanceIndex = s.instanceIndex

section Rounds

variable {stores : String → Option MaintenanceStore} {names : List (String × String)}
  {log : List TickEvent} {s s' : Collector}

theorem Running.same (h : Running stores names log s) (hs : SameRound s s') :
    Running stores names log s' := by
  obtain ⟨ha, hn, hi, hx⟩ := hs
  exact ⟨ha.trans h.active, hn.trans h.unpaused, by rw [hi]; exact h.names_eq,
    by rw [hi, hx]; exact h.current, by rw [hi]; exact h.entries, h.known⟩

theorem submitAndTrack_sameRound (cfg : Config) (env : TickEnv) (instanceId : String)
    (action : ActionName) (targets : List PendingLocationKey) (s : Collector) :
    SameRound s (s.submitAndTrack cfg env instanceId action targets) := by
  unfold Collector.submitAndTrack
  split_ifs
  · exact ⟨rfl, rfl, rfl, rfl⟩
  · split
    case h_5 =>
      dsimp only
      split_ifs <;> exact ⟨rfl, rfl, rfl, rfl⟩
    all_goals exact ⟨rfl, rfl, rfl, rfl⟩

theorem SameRound.trans {s'' : Collector} (h : SameRound s s') (h' : SameRound s' s'') :
    SameRound s s'' :=
  ⟨h'.1.trans h.1, h'.2.1.trans h.2.1, h'.2.2.1.trans h.2.2.1, h'.2.2.2.trans h.2.2.2⟩

theorem submitActions_sameRound (cfg : Config) (env : TickEnv) (instanceId : String)
    (actions : ScanDeleteActions) (s : Collector) :
    SameRound s (s.submitActions cfg env instanceId actions) :=
  (submitAndTrack_sameRound cfg env instanceId .physicalDelete _ s).trans
    (submitAndTrack_sameRound cfg env instanceId .eventReportMetadata _ _)

/-- What one effective tick leads to: the round goes on, or it is over and
every entry is finished with. -/
def Advanced (stores : String → Option MaintenanceStore) (names : List (String × String))
    (log : List TickEvent) (s : Collector) : Prop :=
  Running stores names log s ∨
    (s.roundActive = false ∧ (∀ name ∈ names, Done stores log name) ∧
      ∀ ev ∈ log, ∃ name ∈ names, ev.isAbout name = true)

theorem Advanced.same (h : Advanced stores names log s) (hs : SameRound s s') :
    Advanced stores names log s' :=
  h.imp (·.same hs) fun ⟨ha, hd, hk⟩ => ⟨hs.1.trans ha, hd, hk⟩

/-- The current entry replaced and advanced after an event about it. -/
theorem Running.advance (h : Running stores names log s) (hnd : names.Nodup)
    (hcur : s.instances[s.instanceIndex]? = some e) (e' : InstanceScanEntry)
    (hname : e'.name = e.name) (hopen : e'.completed = false) (ev : TickEvent)
    (hev : ∀ name, ev.isAbout name = true ↔ name = e.name) (done : Bool)
    (hnew : if done then Done stores (log ++ [ev]) e.name else Open stores (log ++ [ev]) e')
    (cfg : Config) (env : TickEnv) :
    Advanced stores names (log ++ [ev]) ((s.setEntry e').advanceInstance cfg env done) := by
  obtain ⟨hlt, hget⟩ := List.getElem?_eq_some_iff.mp hcur
  have hcur' : (s.setEntry e').instances[(s.setEntry e').instanceIndex]? = some e' :=
    getElem?_set_self hlt
  obtain ⟨t, entries, rfl, hentries, hcases⟩ := advanceInstance_spec cfg env done hcur'
  have hset : entries = s.instances.set s.instanceIndex { e' with completed := done } := by
    rw [hentries]
    simp [Collector.setEntry, hopen]
  have hnames : entries.map (·.name) = names := by
    rw [hset, map_set, ← h.names_eq]
    refine set_getElem?_self ?_
    rw [getElem?_map, hcur, map_some]
    exact congrArg some hname.symm
  have hmem : e.name ∈ names := by
    rw [← h.names_eq]
    exact mem_map_of_mem (mem_of_getElem? hcur)
  -- every entry but the current one is not what the event is about
  have hok : ∀ x ∈ entries, EntryOk stores (log ++ [ev]) x := by
    intro x hx
    obtain ⟨i, hi⟩ := mem_iff_getElem?.mp hx
    rw [hset, getElem?_set] at hi
    split_ifs at hi with hidx
    · obtain rfl := some.inj hi
      unfold EntryOk
      cases done with
      | true => simpa [InstanceScanEntry.name] using (hname ▸ hnew : Done stores (log ++ [ev]) e'.name)
      | false =>
        have hself : ({ e' with completed := false } : InstanceScanEntry) = e' := by
          rw [← hopen]
        rw [hself, if_neg (by simp [hopen])]
        simpa using hnew
    · refine (h.entries x (mem_of_getElem? hi)).other ?_
      rw [Bool.eq_false_iff, ne_eq, hev]
      intro hxe
      have hi' : names[i]? = some x.name := by
        rw [← h.names_eq, getElem?_map, hi, map_some]
      have hc' : names[s.instanceIndex]? = some x.name := by
        rw [← h.names_eq, getElem?_map, hcur, map_some, hxe]
      obtain ⟨hil, hig⟩ := List.getElem?_eq_some_iff.mp hi'
      obtain ⟨hcl, hcg⟩ := List.getElem?_eq_some_iff.mp hc'
      exact hidx (hnd.getElem_inj_iff.mp (hcg.trans hig.symm))
  have hknown : ∀ x ∈ log ++ [ev], ∃ name ∈ names, x.isAbout name = true := by
    intro x hx
    rcases mem_append.mp hx with hx | hx
    · exact h.known x hx
    · rw [mem_singleton.mp hx]
      exact ⟨e.name, hmem, (hev _).mpr rfl⟩
  rcases hcases with ⟨hall, hdone⟩ | ⟨hinst, hact, hpause, hcurrent⟩
  · refine .inr ⟨hdone, fun name hn => ?_, hknown⟩
    rw [← hnames] at hn
    obtain ⟨x, hx, rfl⟩ := mem_map.mp hn
    have hx' := hok x hx
    rwa [EntryOk, if_pos (hall x hx)] at hx'
  · exact .inl ⟨hact.trans h.active, hpause.trans h.unpaused, by rw [hinst]; exact hnames,
      by rw [hinst]; exact hcurrent, by rw [hinst]; exact hok, hknown⟩

theorem setEntry_self (hcur : s.instances[s.instanceIndex]? = some e) : s.setEntry e = s := by
  rw [Collector.setEntry, set_getElem?_self hcur]

theorem scanCurrent_step {env : TickEnv} (hfixed : Fixed stores env) (hrun : NotStopped env)
    (hnd : names.Nodup) (h : Running stores names log s) (cfg : Config) :
    ∃ out, out = s.scanCurrent cfg env ∧ out.2 ≠ .skipped ∧
      Advanced stores names (log ++ [out.2]) out.1 := by
  obtain ⟨e, hcur, hopen⟩ := h.current
  have hopen' : Open stores log e := by
    have hok := h.entries e (mem_of_getElem? hcur)
    rwa [EntryOk, if_neg (by simp [hopen])] at hok
  refine ⟨_, rfl, ?_⟩
  rw [Collector.scanCurrent, hcur]
  dsimp only
  rw [if_neg (by simp [hrun .beforeScan])]
  cases hscan : env.scan e.instanceId e.cursor with
  | none =>
    have hstore := (hfixed.missing _ _).mp hscan
    have hadv := h.advance hnd hcur e rfl hopen (.indexerMissing e.name)
      (fun name => by simp [TickEvent.isAbout, eq_comm]) true
      (by simpa using hopen'.missing hstore) cfg env
    rw [setEntry_self hcur] at hadv
    exact ⟨TickEvent.noConfusion, hadv⟩
  | some answer =>
    obtain ⟨store, hstore⟩ : ∃ store, stores e.instanceId = some store := by
      refine Option.ne_none_iff_exists'.mp fun hnone => ?_
      rw [(hfixed.missing _ e.cursor).mpr hnone] at hscan
      cases hscan
    cases answer with
    | error ec =>
      have hadv := h.advance hnd hcur
        { e with scanFailureCount := e.scanFailureCount + 1 } rfl hopen
        (.scanFailed e.name e.cursor) (fun name => by simp [TickEvent.isAbout, eq_comm])
        (decide (maxScanFailuresPerInstancePerRound ≤ e.scanFailureCount + 1))
        (by simpa using hopen'.failed hstore) cfg env
      exact ⟨TickEvent.noConfusion, hadv⟩
    | ok batch =>
      have hadv := h.advance hnd hcur
        { e with scanFailureCount := 0, cursor := batch.nextCursor } rfl hopen
        (.scanned e.name e.cursor batch) (fun name => by simp [TickEvent.isAbout, eq_comm])
        (decide (batch.nextCursor = 0))
        (by simpa using hopen'.scanned hstore (hfixed.page _ _ _ _ hscan hstore)) cfg env
      refine ⟨TickEvent.noConfusion, ?_⟩
      dsimp only [Collector.onScanned]
      rw [if_neg (by simp [hrun .scanned]), if_neg (by simp [hrun .beforeSubmit])]
      exact hadv.same (submitActions_sameRound _ _ _ _ _)

/-! ## Ticks -/

theorem poll_inflight (env : TickEnv) (s : Collector) : (s.poll env).inflightDeletes
      = s.inflightDeletes.filter fun d => env.future d.future = .notReady := by
  rw [Collector.poll]
  dsimp only
  generalize s.pendingLocations = pending
  induction s.inflightDeletes generalizing pending with
  | nil => rfl
  | cons d ds ih =>
    rw [pollInflightDeletes, filter_cons]
    cases hfuture : env.future d.future with
    | notReady | ready | threw | invalid => simp [ih]

theorem poll_sameRound (env : TickEnv) (s : Collector) : SameRound s (s.poll env) :=
  ⟨rfl, rfl, rfl, rfl⟩

/-- A tick of a collector that is not stopped: held up by the actions in
flight, or by the round that does not begin, or effective. -/
theorem runOneTick_eq {env : TickEnv} (hrun : NotStopped env) (cfg : Config) (s : Collector) :
    s.runOneTick cfg env
      = if cfg.maxInflightDeleteRequests ≤ (s.poll env).inflightDeletes.length then
          (s.poll env, .skipped)
        else ((s.poll env).enterRound env).elim (s.poll env, .skipped) (·.scanCurrent cfg env) := by
  rw [Collector.runOneTick, if_neg (by simp [hrun .start])]
  dsimp only
  rw [hrun .polled, Bool.or_false]
  simp only [decide_eq_true_eq]
  cases (s.poll env).enterRound env <;> rfl

theorem Running.enterRound (h : Running stores names log s) (env : TickEnv) :
    s.enterRound env = some s := by
  rw [Collector.enterRound, h.unpaused, h.active]
  rfl

/-- A tick of a running round is skipped, with the actions in flight polled,
or effective. -/
theorem runOneTick_step {env : TickEnv} (hfixed : Fixed stores env) (hrun : NotStopped env)
    (hnd : names.Nodup) (h : Running stores names log s) (cfg : Config) :
    ∃ out, out = s.runOneTick cfg env ∧
      ((out = (s.poll env, .skipped) ∧
          cfg.maxInflightDeleteRequests ≤ (s.poll env).inflightDeletes.length) ∨
        (out.2 ≠ .skipped ∧ Advanced stores names (log ++ [out.2]) out.1)) := by
  refine ⟨_, rfl, ?_⟩
  rw [runOneTick_eq hrun]
  have hpoll := h.same (poll_sameRound env s)
  split_ifs with hfull
  · exact .inl ⟨rfl, hfull⟩
  · rw [hpoll.enterRound env]
    obtain ⟨out, rfl, hne, hadv⟩ := scanCurrent_step hfixed hrun hnd hpoll cfg
    exact .inr ⟨hne, hadv⟩

/-- Every event belongs to an entry, so the log is as long as the entries'
own logs together. -/
theorem log_length_le (hknown : ∀ ev ∈ log, ∃ name ∈ names, ev.isAbout name = true) :
    log.length ≤ (names.map fun name => (eventsOf name log).length).sum := by
  induction log with
  | nil => exact Nat.zero_le _
  | cons ev log ih =>
    obtain ⟨name, hn, habout⟩ := hknown ev mem_cons_self
    have hrest := ih fun x hx => hknown x (mem_cons_of_mem _ hx)
    have hsplit : ∀ n, (eventsOf n (ev :: log)).length
        = (if ev.isAbout n then 1 else 0) + (eventsOf n log).length := by
      intro n
      rw [eventsOf, filter_cons, eventsOf]
      split_ifs
      · rw [length_cons, Nat.add_comm]
      · rw [Nat.zero_add]
    have hone : 1 ≤ (names.map fun n => if ev.isAbout n then 1 else 0).sum :=
      single_le_sum (fun _ _ => Nat.zero_le _) 1
        (mem_map.mpr ⟨name, hn, by rw [if_pos habout]⟩)
    simp only [hsplit, sum_map_add, length_cons]
    omega

theorem Running.log_bounded (h : Running stores names log s) :
    log.length ≤ (names.map (budget stores)).sum := by
  refine (log_length_le h.known).trans (sum_le_sum fun name hn => ?_)
  rw [← h.names_eq] at hn
  obtain ⟨e, he, rfl⟩ := mem_map.mp hn
  exact (h.entries e he).length_le

end Rounds

/-! ## Sequences of ticks -/

section Ticks

variable (cfg : Config) (env : Nat → TickEnv) (s₀ : Collector)

def states : Nat → Collector
  | 0 => s₀
  | n + 1 => ((states n).runOneTick cfg (env n)).1

def event (n : Nat) : TickEvent := ((states cfg env s₀ n).runOneTick cfg (env n)).2

/-- The events of the effective ticks among the first `n`. -/
def effectiveTicks : Nat → List TickEvent
  | 0 => []
  | n + 1 =>
    match event cfg env s₀ n with
    | .skipped => effectiveTicks n
    | ev => effectiveTicks n ++ [ev]

/-- Every action in flight is at some later tick found completed. -/
def Completes : Prop :=
  ∀ n, ∀ d ∈ (states cfg env s₀ n).inflightDeletes,
    ∃ m, n ≤ m ∧ (env m).future d.future ≠ .notReady

end Ticks

section Ticks

variable {cfg : Config} {env : Nat → TickEnv} {s₀ : Collector}
  {stores : String → Option MaintenanceStore} {names : List (String × String)}

theorem effectiveTicks_succ (h : event cfg env s₀ n ≠ .skipped) :
    effectiveTicks cfg env s₀ (n + 1) = effectiveTicks cfg env s₀ n ++ [event cfg env s₀ n] := by
  rw [effectiveTicks]
  split
  · exact absurd ‹_› h
  · rfl

theorem effectiveTicks_skipped (h : event cfg env s₀ n = .skipped) :
    effectiveTicks cfg env s₀ (n + 1) = effectiveTicks cfg env s₀ n := by
  rw [effectiveTicks, h]

theorem effectiveTicks_mono : Monotone fun n => (effectiveTicks cfg env s₀ n).length := by
  refine monotone_nat_of_le_succ fun n => ?_
  by_cases hskip : event cfg env s₀ n = .skipped
  · rw [effectiveTicks_skipped hskip]
  · rw [effectiveTicks_succ hskip, length_append]
    exact Nat.le_add_right ..

/-- The round of `names` is running after `n` ticks. -/
def RunningAt (cfg : Config) (env : Nat → TickEnv) (s₀ : Collector)
    (stores : String → Option MaintenanceStore) (names : List (String × String)) (n : Nat) :
    Prop :=
  Running stores names (effectiveTicks cfg env s₀ n) (states cfg env s₀ n)

/-- The round is over after tick `n`, with every entry finished with. -/
structure EndsAt (cfg : Config) (env : Nat → TickEnv) (s₀ : Collector)
    (stores : String → Option MaintenanceStore) (names : List (String × String)) (n : Nat) :
    Prop where
  inactive : (states cfg env s₀ (n + 1)).roundActive = false
  done : ∀ name ∈ names, Done stores (effectiveTicks cfg env s₀ (n + 1)) name
  known : ∀ ev ∈ effectiveTicks cfg env s₀ (n + 1), ∃ name ∈ names, ev.isAbout name = true

theorem RunningAt.step (hfixed : Fixed stores (env n)) (hrun : NotStopped (env n))
    (hnd : names.Nodup) (h : RunningAt cfg env s₀ stores names n) : (event cfg env s₀ n = .skipped ∧
        states cfg env s₀ (n + 1) = (states cfg env s₀ n).poll (env n) ∧
        cfg.maxInflightDeleteRequests ≤ (states cfg env s₀ (n + 1)).inflightDeletes.length ∧
        RunningAt cfg env s₀ stores names (n + 1)) ∨
      (event cfg env s₀ n ≠ .skipped ∧
        (RunningAt cfg env s₀ stores names (n + 1) ∨ EndsAt cfg env s₀ stores names n)) := by
  obtain ⟨out, hout, hcases⟩ := runOneTick_step hfixed hrun hnd h cfg
  have hstate : states cfg env s₀ (n + 1) = out.1 := by rw [hout, states]
  have hevent : event cfg env s₀ n = out.2 := by rw [hout, event]
  rcases hcases with ⟨heq, hfull⟩ | ⟨hne, hadv⟩
  · rw [heq] at hstate hevent
    refine .inl ⟨hevent, hstate, by rw [hstate]; exact hfull, ?_⟩
    rw [RunningAt, effectiveTicks_skipped hevent, hstate]
    exact h.same (poll_sameRound _ _)
  · rw [← hevent] at hne hadv
    rw [← hstate, ← effectiveTicks_succ hne] at hadv
    exact .inr ⟨hne, hadv.imp_right fun ⟨ha, hd, hk⟩ => ⟨ha, hd, hk⟩⟩

section Ends

variable (hfixed : ∀ n, Fixed stores (env n)) (hrun : ∀ n, NotStopped (env n))
  (hnd : names.Nodup) (hcompletes : Completes cfg env s₀)

include hfixed hrun hnd hcompletes

/-- As long as the actions in flight complete, a running round comes to an
effective tick: while all ticks are skipped the actions only go away, and each
one does. -/
theorem eventually_effective (h : RunningAt cfg env s₀ stores names n) :
    ∃ m, n ≤ m ∧ (∀ k, n ≤ k → k ≤ m → RunningAt cfg env s₀ stores names k) ∧
      event cfg env s₀ m ≠ .skipped := by
  have hskip : ∀ m, RunningAt cfg env s₀ stores names m → event cfg env s₀ m = .skipped →
      states cfg env s₀ (m + 1) = (states cfg env s₀ m).poll (env m) ∧
        cfg.maxInflightDeleteRequests ≤ (states cfg env s₀ (m + 1)).inflightDeletes.length ∧
        RunningAt cfg env s₀ stores names (m + 1) := by
    intro m hat hev
    exact ((hat.step (hfixed m) (hrun m) hnd).resolve_right fun hne => hne.1 hev).2
  have hsome : ∃ m, n ≤ m ∧ event cfg env s₀ m ≠ .skipped := by
    by_contra hnone
    have hall : ∀ m, n ≤ m → event cfg env s₀ m = .skipped := fun m hm =>
      not_not.mp fun hne => hnone ⟨m, hm, hne⟩
    have hat : ∀ m, n ≤ m → RunningAt cfg env s₀ stores names m := fun m hm =>
      Nat.le_induction h (fun m hm ih => (hskip m ih (hall m hm)).2.2) m hm
    have hsub : ∀ m i, n ≤ m → (states cfg env s₀ (m + i)).inflightDeletes.Sublist
        (states cfg env s₀ m).inflightDeletes := by
      intro m i hm
      induction i with
      | zero => exact .refl _
      | succ i ih =>
        rw [← Nat.add_assoc, (hskip _ (hat _ (by omega)) (hall _ (by omega))).1, poll_inflight]
        exact filter_sublist.trans ih
    -- from the tick with the fewest actions on, one of them still goes away
    obtain ⟨m, hm, hleast⟩ :=
      (measure fun m => (states cfg env s₀ m).inflightDeletes.length).wf.has_min
        {m | n ≤ m} ⟨n, Nat.le_refl n⟩
    have hm' : n ≤ m := hm
    obtain ⟨d, hd⟩ := exists_mem_of_length_pos
      (cfg.maxInflight_pos.trans_le (hskip m (hat m hm) (hall m hm)).2.1)
    obtain ⟨j, hj, hdone⟩ := hcompletes (m + 1) d hd
    have hj' : n ≤ j := by omega
    have hgone : d ∉ (states cfg env s₀ (j + 1)).inflightDeletes := by
      rw [(hskip j (hat j hj') (hall j hj')).1, poll_inflight]
      simp [hdone]
    have hpart := hsub (m + 1) (j - m) (Nat.le_succ_of_le hm)
    rw [show m + 1 + (j - m) = j + 1 by omega] at hpart
    have hfewer := lt_of_le_of_ne hpart.length_le fun hlen => hgone (hpart.eq_of_length hlen ▸ hd)
    exact hleast (j + 1) (Nat.le_succ_of_le hj') (hfewer.trans_le (hsub m 1 hm).length_le)
  -- the first effective tick: all before it were skipped
  classical
  refine ⟨Nat.find hsome, (Nat.find_spec hsome).1, fun k hk hle => ?_, (Nat.find_spec hsome).2⟩
  induction k, hk using Nat.le_induction with
  | base => exact h
  | succ k hk ih =>
    have hev : event cfg env s₀ k = .skipped :=
      not_not.mp fun hne => Nat.find_min hsome (Nat.lt_of_succ_le hle) ⟨hk, hne⟩
    exact (hskip k (ih (Nat.le_of_succ_le hle)) hev).2.2

/-- A running round ends: every effective tick makes the log longer, which is
bounded. -/
theorem running_ends (h : RunningAt cfg env s₀ stores names n) :
    ∃ e, (∀ k, n ≤ k → k ≤ e → RunningAt cfg env s₀ stores names k) ∧
      EndsAt cfg env s₀ stores names e := by
  induction hw : (names.map (budget stores)).sum - (effectiveTicks cfg env s₀ n).length
    using Nat.strong_induction_on generalizing n with
  | _ w ih =>
    obtain ⟨m, hm, hall, hne⟩ := eventually_effective hfixed hrun hnd hcompletes h
    rcases (hall m hm (Nat.le_refl m)).step (hfixed m) (hrun m) hnd with
      ⟨hskip, -⟩ | ⟨-, hat | hend⟩
    · exact absurd hskip hne
    · have hlen := congrArg List.length (effectiveTicks_succ hne)
      rw [length_append, length_singleton] at hlen
      have hmono : (effectiveTicks cfg env s₀ n).length ≤ (effectiveTicks cfg env s₀ m).length :=
        effectiveTicks_mono hm
      have hbound := hat.log_bounded
      obtain ⟨e, hall', hend⟩ := ih _ (by omega) hat rfl
      refine ⟨e, fun k hk hk' => ?_, hend⟩
      rcases Nat.lt_or_ge m k with hlt | hge
      · exact hall' k hlt hk'
      · exact hall k hk hge
    · exact ⟨m, hall, hend⟩

end Ends

/-! ## The snapshot -/

theorem mem_groupEntries {group : String} {ids : List (Option String)}
    (h : groupEntries group (.ok ids) = some entries) :
    (∀ e ∈ entries, ∃ id, e = { instanceGroup := group, instanceId := id }) ∧
      ∀ id, some id ∈ ids → { instanceGroup := group, instanceId := id } ∈ entries := by
  rw [groupEntries] at h
  have hall := mapM_forall₂ h
  constructor
  · intro e he
    obtain ⟨id, -, hid⟩ := forall₂_mem_right hall he
    cases id with
    | none => cases hid
    | some id =>
      dsimp only at hid
      split_ifs at hid
      exact ⟨id, (some.inj hid).symm⟩
  · intro id hid
    obtain ⟨e, he, heq⟩ := forall₂_mem_left hall hid
    dsimp only at heq
    split_ifs at heq
    rwa [some.inj heq]

theorem mem_listEntries {env : TickEnv} {groups : List (Option String)}
    (h : listEntries env groups = some entries) :
    (∀ e ∈ entries, ∃ group id, e = { instanceGroup := group, instanceId := id }) ∧
      ∀ group, some group ∈ groups → ∀ ids, env.listInstanceInfo group = .ok ids →
        ∀ id, some id ∈ ids → { instanceGroup := group, instanceId := id } ∈ entries := by
  induction groups generalizing entries with
  | nil =>
    cases h
    exact ⟨fun e he => absurd he not_mem_nil, fun g hg => absurd hg not_mem_nil⟩
  | cons g groups ih =>
    rw [listEntries.eq_def] at h
    dsimp only at h
    split_ifs at h
    cases g with
    | none => cases h
    | some name =>
      dsimp only at h
      split_ifs at h
      cases hanswer : env.listInstanceInfo name with
      | error ec =>
        rw [hanswer] at h
        cases h
      | ok ids =>
        rw [hanswer] at h
        cases hhead : groupEntries name (.ok ids) with
        | none =>
          rw [hhead] at h
          cases h
        | some first =>
          rw [hhead] at h
          obtain ⟨rest, hrest, rfl⟩ := Option.map_eq_some_iff.mp h
          obtain ⟨hfresh, hall⟩ := mem_groupEntries hhead
          obtain ⟨hfresh', hall'⟩ := ih hrest
          refine ⟨fun e he => ?_, fun group hg ids' hids id hid => ?_⟩
          · rcases mem_append.mp he with he | he
            · exact ⟨name, hfresh e he⟩
            · exact hfresh' e he
          · rcases mem_cons.mp hg with hg | hg
            · obtain rfl := some.inj hg
              obtain rfl := Except.ok.inj (hanswer.symm.trans hids)
              exact mem_append_left _ (hall id hid)
            · exact mem_append_right _ (hall' group hg ids' hids id hid)

/-- The entries of a round are fresh and distinct, and hold every instance
the registry lists. -/
theorem snapshot_spec {env : TickEnv} (h : snapshot env = some entries) :
    (∀ e ∈ entries, ∃ group id, e = { instanceGroup := group, instanceId := id }) ∧
      (entries.map (·.name)).Nodup ∧
      ∀ groups, env.listInstanceGroup = .ok groups → ∀ group, some group ∈ groups →
        ∀ ids, env.listInstanceInfo group = .ok ids → ∀ id, some id ∈ ids →
          (group, id) ∈ entries.map (·.name) := by
  rw [snapshot] at h
  cases hgroups : env.listInstanceGroup with
  | error ec =>
    rw [hgroups] at h
    cases h
  | ok groups =>
    rw [hgroups] at h
    obtain ⟨all, hall, rfl⟩ := Option.map_eq_some_iff.mp h
    obtain ⟨hfresh, hmem⟩ := mem_listEntries hall
    have hin : ∀ e, e ∈ (all.insertionSort fun a b => entryLe a b = true).dedup ↔ e ∈ all :=
      fun e => by rw [mem_dedup, mem_insertionSort]
    refine ⟨fun e he => hfresh e ((hin e).mp he), ?_, ?_⟩
    · refine List.Nodup.map_on (fun e he e' he' hname => ?_) (nodup_dedup _)
      obtain ⟨g, id, rfl⟩ := hfresh e ((hin e).mp he)
      obtain ⟨g', id', rfl⟩ := hfresh e' ((hin e').mp he')
      obtain ⟨rfl, rfl⟩ := Prod.mk.inj hname
      rfl
    · intro groups' hgroups' group hg ids hids id hid
      obtain rfl := Except.ok.inj hgroups'
      exact mem_map.mpr ⟨_, (hin _).mpr (hmem group hg ids hids id hid), rfl⟩

/-! ## The round -/

theorem round_begins (hrun : NotStopped (env 0)) (hidle : s₀.roundActive = false)
    (hbegins : (states cfg env s₀ 1).roundId = s₀.roundId + 1) :
    ∃ entries, ∃ s₁ : Collector, snapshot (env 0) = some entries ∧ s₁.roundActive = true ∧
      s₁.nextRoundAt = none ∧ s₁.instances = entries ∧ s₁.instanceIndex = 0 ∧
      s₀.runOneTick cfg (env 0) = s₁.scanCurrent cfg (env 0) := by
  have hpolled : (s₀.poll (env 0)).roundId = s₀.roundId := rfl
  have hidle' : (s₀.poll (env 0)).roundActive = false := hidle
  have hbegins' : (s₀.runOneTick cfg (env 0)).1.roundId = s₀.roundId + 1 := hbegins
  rw [runOneTick_eq hrun] at hbegins' ⊢
  split_ifs at hbegins' ⊢ with hfull
  · rw [hpolled] at hbegins'
    omega
  · cases hsnap : snapshot (env 0) with
    | none =>
      have hno : (s₀.poll (env 0)).enterRound (env 0) = none := by
        rw [Collector.enterRound, Collector.beginRound, hsnap, hidle']
        simp
      rw [hno, elim_none, hpolled] at hbegins'
      omega
    | some entries =>
      cases henter : (s₀.poll (env 0)).enterRound (env 0) with
      | none =>
        rw [henter, elim_none, hpolled] at hbegins'
        omega
      | some s₁ =>
        rw [Collector.enterRound, hidle', Collector.beginRound, hsnap] at henter
        simp only [Bool.false_eq_true, if_false, map_some] at henter
        split_ifs at henter
        obtain rfl := some.inj henter
        exact ⟨entries, _, rfl, rfl, rfl, rfl, rfl, rfl⟩

/-- Over fixed stores, when the actions in flight complete and the collector
is not stopped, a round that begins is over after finitely many ticks, of
which a bounded number are effective, and has by then covered every instance
the registry listed at its start. -/
theorem round_covers (cfg : Config) (stores : String → Option MaintenanceStore)
    (env : Nat → TickEnv) (s₀ : Collector) (hfixed : ∀ n, Fixed stores (env n))
    (hrun : ∀ n, NotStopped (env n)) (hcompletes : Completes cfg env s₀)
    (hidle : s₀.roundActive = false) (hbegins : (states cfg env s₀ 1).roundId = s₀.roundId + 1) :
    ∃ n entries, snapshot (env 0) = some entries ∧
      (∀ k, 1 ≤ k → k ≤ n → (states cfg env s₀ k).roundActive = true) ∧
      (states cfg env s₀ (n + 1)).roundActive = false ∧
      (effectiveTicks cfg env s₀ (n + 1)).length
        ≤ (entries.map fun e => budget stores e.name).sum + 1 ∧
      ∀ groups, (env 0).listInstanceGroup = .ok groups → ∀ group, some group ∈ groups →
        ∀ ids, (env 0).listInstanceInfo group = .ok ids → ∀ id, some id ∈ ids →
          Covered stores (effectiveTicks cfg env s₀ (n + 1)) (group, id) := by
  obtain ⟨entries, s₁, hsnap, hactive, hpause, hinst, hidx, htick⟩ :=
    round_begins (hrun 0) hidle hbegins
  obtain ⟨hfresh, hnd, hlisted⟩ := snapshot_spec hsnap
  have hstate : states cfg env s₀ 1 = (s₁.scanCurrent cfg (env 0)).1 := by
    rw [← htick, states, states]
  have hevent : event cfg env s₀ 0 = (s₁.scanCurrent cfg (env 0)).2 := by
    rw [← htick, event, states]
  have hsum : (entries.map fun e => budget stores e.name)
      = (entries.map (·.name)).map (budget stores) := by rw [map_map]; rfl
  have hbound : ∀ n, EndsAt cfg env s₀ stores (entries.map (·.name)) n →
      (effectiveTicks cfg env s₀ (n + 1)).length
        ≤ (entries.map fun e => budget stores e.name).sum + 1 := by
    intro n hend
    rw [hsum]
    refine ((log_length_le hend.known).trans (sum_le_sum fun name hn => ?_)).trans
      (Nat.le_succ _)
    exact (hend.done name hn).bounded
  cases hempty : entries with
  | nil =>
    -- nothing to scan: the first tick completes the round
    have hnone : s₁.instances[s₁.instanceIndex]? = none := by
      rw [hinst, hempty]
      rfl
    rw [Collector.scanCurrent, hnone] at hstate hevent
    have hlog : effectiveTicks cfg env s₀ 1 = [.roundCompleted] := by
      rw [effectiveTicks, hevent, effectiveTicks]
      rfl
    refine ⟨0, [], by rw [hsnap, hempty], fun k hk hk' => by omega, by rw [hstate]; rfl,
      by rw [hlog]; exact Nat.le_refl 1, fun groups hg group hgroup ids hids id hid => ?_⟩
    have := hlisted groups hg group hgroup ids hids id hid
    rw [hempty] at this
    exact absurd this not_mem_nil
  | cons first rest =>
    have hstart : Running stores (entries.map (·.name)) [] s₁ := by
      refine ⟨hactive, hpause, by rw [hinst], ⟨first, by rw [hinst, hidx, hempty]; rfl, ?_⟩,
        fun e he => ?_, fun ev hev => absurd hev not_mem_nil⟩
      · obtain ⟨g, id, rfl⟩ := hfresh first (by rw [hempty]; exact mem_cons_self)
        rfl
      · rw [hinst] at he
        obtain ⟨g, id, rfl⟩ := hfresh e he
        rw [EntryOk, if_neg (by simp)]
        exact open_fresh rfl rfl
    obtain ⟨out, hout, hne, hadv⟩ := scanCurrent_step (hfixed 0) (hrun 0) hnd hstart cfg
    rw [← hout] at hstate hevent
    have hlog : effectiveTicks cfg env s₀ 1 = [] ++ [out.2] := by
      rw [effectiveTicks_succ (by rw [hevent]; exact hne), hevent, effectiveTicks]
    rw [← hlog, ← hstate] at hadv
    have hends : ∃ n, (∀ k, 1 ≤ k → k ≤ n → (states cfg env s₀ k).roundActive = true) ∧
        EndsAt cfg env s₀ stores (entries.map (·.name)) n := by
      rcases hadv with hat | ⟨hinactive, hdone, hknown⟩
      · obtain ⟨n, hall, hend⟩ := running_ends (n := 1) hfixed hrun hnd hcompletes hat
        exact ⟨n, fun k hk hk' => (hall k hk hk').active, hend⟩
      · exact ⟨0, fun k hk hk' => by omega, hinactive, hdone, hknown⟩
    obtain ⟨n, hall, hend⟩ := hends
    exact ⟨n, entries, hsnap, hall, hend.inactive, hbound n hend,
      fun groups hg group hgroup ids hids id hid =>
        (hend.done _ (hlisted groups hg group hgroup ids hids id hid)).covered⟩

end Ticks

/-! A round of one instance over a local table of two shards. -/

def twoShards : MetaScan.LocalTable where
  shards := [[(1, .ok, ∅)], [(2, .ok, ∅)]]
  nonempty := by simp

noncomputable def twoShardStores (id : String) : Option MaintenanceStore :=
  if id = "i" then some (localStore twoShards 1) else none

/-- Nothing fails and every future is ready when polled. -/
def calmTick : TickEnv where
  now := 0
  stopped _ := false
  future _ := .ready .ok
  listInstanceGroup := .ok [some "g"]
  listInstanceInfo _ := .ok [some "i"]
  scan id cursor :=
    if id = "i" then
      some ((twoShards.scanLocationsForMaintenance 1 cursor).elim (.error .badargs) .ok)
    else none
  build :=
    { nowUs := 0, stopSeen := false
      hasActiveCopyTarget := fun _ _ => false, storageType := fun _ => none
      mightExist := fun _ _ _ _ => none, eventReportStorageCandidates := none
      eventReportBackend := fun _ => none, probe := fun _ _ _ => none }
  submit _ := .rejected

theorem calmTick_fixed : Fixed twoShardStores calmTick := by
  refine ⟨fun id cursor => ?_, fun id cursor batch store hscan hstore => ?_⟩
  · by_cases hid : id = "i" <;> simp [calmTick, twoShardStores, hid]
  · by_cases hid : id = "i"
    · obtain rfl : localStore twoShards 1 = store := by simpa [twoShardStores, hid] using hstore
      have hscan' : (twoShards.scanLocationsForMaintenance 1 cursor).elim
          (Except.error ErrorCode.badargs) Except.ok = .ok batch := by
        simpa [calmTick, hid] using hscan
      cases hp : twoShards.scanLocationsForMaintenance 1 cursor with
      | none =>
        rw [hp] at hscan'
        cases hscan'
      | some b =>
        rw [hp] at hscan'
        exact hp.trans (congrArg some (Except.ok.inj hscan'))
    · simp [calmTick, hid] at hscan

theorem round_covers_twoShards :
    ∃ n, (states Config.default (fun _ => calmTick) {} (n + 1)).roundActive = false ∧
      Covered twoShardStores (effectiveTicks Config.default (fun _ => calmTick) {} (n + 1))
        ("g", "i") := by
  obtain ⟨n, entries, -, -, hinactive, -, hcovered⟩ :=
    round_covers Config.default twoShardStores (fun _ => calmTick) {} (fun _ => calmTick_fixed)
      (fun _ _ => rfl) (fun m _ _ => ⟨m, Nat.le_refl m, FutureStatus.noConfusion⟩) rfl
      (by decide +kernel)
  exact ⟨n, hinactive, hcovered _ rfl "g" (by simp) _ rfl "i" (by simp)⟩

end TairKvCache.GarbageCollector
