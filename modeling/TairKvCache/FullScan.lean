import TairKvCache.Manager
import TairKvCache.MetaScan

/-!
# Full scans through the backend manager

`VisitAllLocations` and `CleanupLocationsByPredicate` (`manager/meta_searcher.cc`)
read the metadata page by page through `MetaStorageBackendManager::ListKeys`,
which asks the cache once recovery is over and the persistent backend before.
Everything may change between two pages, so a scan runs over a list of
`PageEnv`, one for each page: the recovery state, both stores and what the
reads and the caller answer.

A store is anything with the paged listing of `MetaStorageBackend::ListKeys`
(`ScanStore`): following its own cursors from the base cursor to the end, it
lists every key that was there all the time. The sharded table of the local
backend is one (`shardedStore`), whatever happens to its contents meanwhile.

The cursors of two stores have nothing to do with each other. A scan that
starts before recovery is over and ends after it continues in the cache with a
cursor of the persistent backend, and misses keys without an error
(`fullScan_misses_key`).
-/

namespace TairKvCache.MetaScan

open Lib List GarbageCollector Option

/-! ## Stores with a paged listing -/

/-- The pages listed from cursor `c` on, each by the contents of its moment. -/
inductive Listed {σ : Type} (list : σ → Nat → Except ErrorCode (List KeyType × Nat)) :
    Nat → List σ → List (List KeyType) → Prop where
  | last {c : Nat} {s : σ} {ks : List KeyType} : list s c = .ok (ks, 0) → Listed list c [s] [ks]
  | more {c n : Nat} {s : σ} {ks : List KeyType} {ss : List σ} {pages : List (List KeyType)} :
      list s c = .ok (ks, n) → n ≠ 0 → Listed list n ss pages →
      Listed list c (s :: ss) (ks :: pages)

/-- A backend as `ListKeys` shows it, with the contract of its cursors. -/
structure ScanStore where
  σ : Type
  keys : σ → List KeyType
  listKeys : (limit : Nat) → σ → Nat → Except ErrorCode (List KeyType × Nat)
  failure : ∀ {limit s c ec}, listKeys limit s c = .error ec → ec ≠ .ok
  complete : ∀ {limit ss pages}, Listed (listKeys limit) 0 ss pages →
    ∀ k, (∀ s ∈ ss, k ∈ keys s) → k ∈ pages.flatten

/-- The shards of a local backend: as many as it was made with, every key in
the shard of its hash. -/
structure Shards (n : Nat) (shardOf : KeyType → Nat) where
  shards : List (List KeyType)
  length_eq : shards.length = n
  placed : ∀ i l, shards[i]? = some l → ∀ k ∈ l, shardOf k = i

variable {limit c : Nat} {pages : List (List KeyType)}

namespace Shards

variable {n : Nat} {shardOf : KeyType → Nat}

/-- `MetaLocalBackend::ListKeys`. -/
def listKeys (limit : Nat) (t : Shards n shardOf) (cursor : Nat) :
    Except ErrorCode (List KeyType × Nat) :=
  match shardPage limit t.shards cursor with
  | none => .error .badargs
  | some page => .ok page

theorem listKeys_error {t : Shards n shardOf} {ec : ErrorCode} (h : t.listKeys limit c = .error ec) :
    ec ≠ .ok := by
  unfold listKeys at h
  split at h
  next =>
    obtain rfl := Except.error.inj h
    decide
  next => cases h

/-- A page that starts at or before the shard of a key has the key, or names a
cursor that does not go past it. -/
theorem mem_page {next : Nat} {t : Shards n shardOf} {ks : List KeyType} {k : KeyType}
    (hpage : t.listKeys limit c = .ok (ks, next)) (hk : k ∈ t.shards.flatten) (hc : c ≤ shardOf k) :
    k ∈ ks ∨ (next ≠ 0 ∧ next ≤ shardOf k) := by
  obtain ⟨l, hl, hkl⟩ := mem_flatten.mp hk
  obtain ⟨i, hi⟩ := getElem?_of_mem hl
  obtain rfl : shardOf k = i := t.placed i l hi k hkl
  unfold listKeys shardPage at hpage
  split_ifs at hpage with hlt
  · have hout := Except.ok.inj hpage
    rcases collectShards_spec limit 0 (c + 1) (t.shards.drop c) with ⟨-, hall⟩ | ⟨j, hj, hjlt, hnext, htake⟩
    · left
      rw [hout] at hall
      rw [show ks = (t.shards.drop c).flatten from hall]
      refine mem_flatten.mpr ⟨l, ?_, hkl⟩
      refine mem_of_getElem? (i := shardOf k - c) ?_
      rw [getElem?_drop, Nat.add_sub_cancel' hc, hi]
    · rw [hout] at hnext htake
      dsimp only at hnext htake
      by_cases hin : shardOf k < c + j
      · left
        rw [htake]
        refine mem_flatten.mpr ⟨l, ?_, hkl⟩
        refine mem_of_getElem? (i := shardOf k - c) ?_
        rw [getElem?_take, if_pos (by omega), getElem?_drop, Nat.add_sub_cancel' hc, hi]
      · exact .inr (by omega)

theorem listed_complete {ss : List (Shards n shardOf)}
    (h : Listed (Shards.listKeys limit) c ss pages) (k : KeyType)
    (hk : ∀ s ∈ ss, k ∈ s.shards.flatten) (hc : c ≤ shardOf k) : k ∈ pages.flatten := by
  induction h with
  | last hpage =>
    rcases mem_page hpage (hk _ mem_cons_self) hc with hmem | ⟨hne, -⟩
    · simpa using hmem
    · exact absurd rfl hne
  | more hpage _ _ ih =>
    rw [flatten_cons, mem_append]
    rcases mem_page hpage (hk _ mem_cons_self) hc with hmem | ⟨-, hle⟩
    · exact .inl hmem
    · exact .inr (ih (fun s hs => hk s (mem_cons_of_mem _ hs)) hle)

def ofKeys (n : Nat) (shardOf : KeyType → Nat) (keys : List KeyType) : Shards n shardOf where
  shards := (List.range n).map fun i => keys.filter fun k => shardOf k = i
  length_eq := by rw [length_map, length_range]
  placed := by
    intro i l h k hk
    rw [getElem?_map] at h
    obtain ⟨j, hj, rfl⟩ := map_eq_some_iff.mp h
    obtain ⟨hlt, hij⟩ := List.getElem?_eq_some_iff.mp hj
    rw [getElem_range] at hij
    rw [hij]
    exact of_decide_eq_true (mem_filter.mp hk).2

end Shards

/-- The local backend keeps the contract of its cursors. -/
def shardedStore (n : Nat) (shardOf : KeyType → Nat) : ScanStore where
  σ := Shards n shardOf
  keys := fun t => t.shards.flatten
  listKeys := Shards.listKeys
  failure := Shards.listKeys_error
  complete := fun h k hk => Shards.listed_complete h k hk (Nat.zero_le _)

/-! ## Pages through the manager -/

/-- The backends of a manager; the cache is a local backend. -/
structure Backends where
  persistent : ScanStore
  /-- Whether there is a `cache_backend_`. -/
  cached : Bool
  shardCount : Nat
  shardOf : KeyType → Nat

def Backends.cache (b : Backends) : ScanStore := shardedStore b.shardCount b.shardOf

structure GetLocationsResult where
  ec : ErrorCode
  errorCodes : List ErrorCode
  locationMaps : List CacheLocationMap

/-- The moment of one page. -/
structure PageEnv (b : Backends) where
  recoverState : RecoverState
  persistent : b.persistent.σ
  cache : b.cache.σ
  getLocations : List KeyType → GetLocationsResult
  /-- `should_abort` at the start of the page and before its delete. -/
  abortAtStart : Bool := false
  abortBeforeDelete : Bool := false
  /-- The code of `acquire_cleanup_lease`, where the caller gave one. -/
  lease : Option ErrorCode := none
  deleteFailed : Bool := false
  submitAvailable : Bool := true

variable {b : Backends} {e : PageEnv b}

/-- The test by which `ListKeys` chooses its backend. -/
def PageEnv.fromCache (e : PageEnv b) : Bool := b.cached && e.recoverState = .running

/-- `MetaStorageBackendManager::ListKeys`. -/
def PageEnv.listKeys (limit : Nat) (e : PageEnv b) (cursor : Nat) :
    Except ErrorCode (List KeyType × Nat) :=
  if e.fromCache then b.cache.listKeys limit e.cache cursor
  else b.persistent.listKeys limit e.persistent cursor

/-- The locations read for a page: whether some read failed, and the keys
whose locations are visited. -/
def readKeys : List KeyType → List ErrorCode → List CacheLocationMap →
    Bool × List (KeyType × CacheLocationMap)
  | [], _, _ => (false, [])
  | k :: ks, .ok :: codes, m :: maps =>
    let r := readKeys ks codes maps
    (r.1, (k, m) :: r.2)
  | _ :: ks, codes, maps =>
    let r := readKeys ks codes.tail maps.tail
    (true, r.2)

/-- How a page ends: with the return of the scan, or with the next cursor, a
failure or not, and what was visited. -/
inductive PageStep where
  | stop (ec : ErrorCode)
  | next (cursor : Nat) (failed : Bool) (visited : List (KeyType × CacheLocationMap))

/-- List a page and read its locations, then go on with what was read. -/
def scanPage (limit : Nat) (e : PageEnv b) (cursor : Nat)
    (andThen : Nat → Bool → List (KeyType × CacheLocationMap) → PageStep) : PageStep :=
  match e.listKeys limit cursor with
  | .error ec => .stop ec
  | .ok (keys, nextCursor) =>
    if keys.isEmpty then .next nextCursor false []
    else
      let got := e.getLocations keys
      if got.ec ≠ .ok ∧ got.ec ≠ .partialOk then .stop got.ec
      else
        let r := readKeys keys got.errorCodes got.locationMaps
        andThen nextCursor (got.ec = .partialOk || r.1) r.2

def visitPage (limit : Nat) (e : PageEnv b) (cursor : Nat) : PageStep :=
  scanPage limit e cursor .next

/-- The codes of a lease that say the reporter's lifecycle has changed. -/
def lifecycleChanged (ec : ErrorCode) : Bool :=
  ec = .mismatch || ec = .nodeNotRegistered || ec = .instanceNotExist

/-- The deletes of a page of `CleanupLocationsByPredicate`. -/
def cleanupDelete (e : PageEnv b) (nextCursor : Nat) (failed : Bool)
    (visited : List (KeyType × CacheLocationMap)) : PageStep :=
  match e.lease with
  | some ec =>
    if e.abortBeforeDelete then .stop .ok
    else if lifecycleChanged ec then .stop .ok
    else if ec ≠ .ok then .stop ec
    else .next nextCursor (failed || e.deleteFailed) visited
  | none => if e.submitAvailable then .next nextCursor failed visited else .stop .error

/-- A page of `CleanupLocationsByPredicate` after its reads: the predicate is
asked about every location of the type. -/
def cleanupRead (storageType : DataStorageType)
    (shouldDelete : KeyType → LocationId → CacheLocation → Bool) (e : PageEnv b)
    (nextCursor : Nat) (failed : Bool) (visited : List (KeyType × CacheLocationMap)) : PageStep :=
  if visited.any (fun v => v.2.entries.any fun loc =>
      loc.2.type = storageType && shouldDelete v.1 loc.1 loc.2) then
    cleanupDelete e nextCursor failed visited
  else .next nextCursor failed visited

/-- The loop body of `CleanupLocationsByPredicate`. -/
def cleanupPage (storageType : DataStorageType)
    (shouldDelete : KeyType → LocationId → CacheLocation → Bool) (limit : Nat) (e : PageEnv b)
    (cursor : Nat) : PageStep :=
  if e.abortAtStart then .stop .ok
  else scanPage limit e cursor (cleanupRead storageType shouldDelete e)

/-- The loop over the pages: the code returned, what was visited and the
number of pages. `none` while the scan goes on. -/
def scanLoop (page : PageEnv b → Nat → PageStep) : List (PageEnv b) → Nat → Bool →
    Option (ErrorCode × List (KeyType × CacheLocationMap) × Nat)
  | [], _, _ => none
  | e :: es, cursor, failed =>
    match page e cursor with
    | .stop ec => some (ec, [], 1)
    | .next nextCursor f visited =>
      if nextCursor = 0 then some (if failed || f then .partialOk else .ok, visited, 1)
      else
        (scanLoop page es nextCursor (failed || f)).map fun r =>
          (r.1, visited ++ r.2.1, r.2.2 + 1)

/-- `scan_batch_size`, with its default. -/
def batchSize (n : Nat) : Nat := if n = 0 then 1000 else n

def visitAllLocations (scanBatchSize : Nat) (es : List (PageEnv b)) :
    Option (ErrorCode × List (KeyType × CacheLocationMap) × Nat) :=
  scanLoop (visitPage (batchSize scanBatchSize)) es 0 false

def cleanupLocationsByPredicate (storageType : DataStorageType) (scanBatchSize : Nat)
    (shouldDelete : KeyType → LocationId → CacheLocation → Bool) (es : List (PageEnv b)) :
    Option (ErrorCode × List (KeyType × CacheLocationMap) × Nat) :=
  scanLoop (cleanupPage storageType shouldDelete (batchSize scanBatchSize)) es 0 false

/-! ## What a page visits -/

theorem readKeys_all {ks : List KeyType} {codes : List ErrorCode} {maps : List CacheLocationMap}
    (h : (readKeys ks codes maps).1 = false) : (readKeys ks codes maps).2.map Prod.fst = ks := by
  fun_induction readKeys ks codes maps with
  | case1 => rfl
  | case2 k ks codes m maps r ih => rw [map_cons, ih h]
  | case3 => cases h

theorem listKeys_error {ec : ErrorCode} (h : e.listKeys limit c = .error ec) :
    ec ≠ .ok := by
  unfold PageEnv.listKeys at h
  split at h
  next => exact b.cache.failure h
  next => exact b.persistent.failure h

/-- What a loop body owes the scan: where it goes on without a failure it has
visited the keys it listed, and it does not end the scan with success. -/
structure VisitsPage (limit : Nat) (page : PageEnv b → Nat → PageStep) (e : PageEnv b) : Prop where
  visits : ∀ c n v, page e c = .next n false v → e.listKeys limit c = .ok (v.map Prod.fst, n)
  goesOn : ∀ c, page e c ≠ .stop .ok

/-- What becomes of a page after its reads: the scan ends with an error, or
goes on with what was read and with no failure forgotten. -/
def Follows (n : Nat) (f : Bool) (v : List (KeyType × CacheLocationMap)) : PageStep → Prop
  | .stop ec => ec ≠ .ok
  | .next n' f' v' => n' = n ∧ v' = v ∧ (f' = false → f = false)

theorem scanPage_visits {andThen : Nat → Bool → List (KeyType × CacheLocationMap) → PageStep}
    (hthen : ∀ n f v, Follows n f v (andThen n f v)) :
    VisitsPage limit (fun e c => scanPage limit e c andThen) e := by
  refine ⟨fun c n v h => ?_, fun c h => ?_⟩
  · unfold scanPage at h
    split at h
    next => cases h
    next keys nextCursor hlist =>
      dsimp only at h
      split_ifs at h with hempty hcode
      · obtain ⟨rfl, -, rfl⟩ := PageStep.next.inj h
        rw [hlist, isEmpty_iff.mp hempty, map_nil]
      · obtain ⟨rfl, rfl, hf⟩ := h ▸ hthen ..
        rw [hlist, readKeys_all (Bool.or_eq_false_iff.mp (hf rfl)).2]
  · unfold scanPage at h
    split at h
    next ec hlist => exact listKeys_error hlist (PageStep.stop.inj h)
    next keys nextCursor hlist =>
      dsimp only at h
      split_ifs at h with hempty hcode
      · exact hcode.1 (PageStep.stop.inj h)
      · exact (h ▸ hthen .. : Follows _ _ _ (.stop .ok)) rfl

theorem visitPage_visits (limit : Nat) (e : PageEnv b) : VisitsPage limit (visitPage limit) e :=
  scanPage_visits fun _ _ _ => ⟨rfl, rfl, id⟩

/-- The caller lets the scan run to its end: it neither aborts it nor finds
the lifecycle changed. -/
structure RunsOn (e : PageEnv b) : Prop where
  start : e.abortAtStart = false
  delete : e.abortBeforeDelete = false
  lease : ∀ ec, e.lease = some ec → lifecycleChanged ec = false

theorem cleanupDelete_follows (he : RunsOn e) (n : Nat) (f : Bool)
    (v : List (KeyType × CacheLocationMap)) : Follows n f v (cleanupDelete e n f v) := by
  unfold cleanupDelete
  split
  next ec hlease =>
    simp only [he.delete, he.lease ec hlease, Bool.false_eq_true, if_false]
    split
    next hec => exact hec
    next => exact ⟨rfl, rfl, fun h => (Bool.or_eq_false_iff.mp h).1⟩
  next =>
    split
    next => exact ⟨rfl, rfl, id⟩
    next => exact show ErrorCode.error ≠ .ok by decide

theorem cleanupPage_visits (storageType : DataStorageType)
    (shouldDelete : KeyType → LocationId → CacheLocation → Bool) (limit : Nat) (he : RunsOn e) :
    VisitsPage limit (cleanupPage storageType shouldDelete limit) e := by
  have hpage : ∀ c, cleanupPage storageType shouldDelete limit e c
      = scanPage limit e c (cleanupRead storageType shouldDelete e) := by
    intro c
    rw [cleanupPage, if_neg (by rw [he.start]; decide)]
  have hscan : VisitsPage limit
      (fun e' c => scanPage limit e' c (cleanupRead storageType shouldDelete e)) e := by
    refine scanPage_visits fun n f v => ?_
    unfold cleanupRead
    split
    next => exact cleanupDelete_follows he n f v
    next => exact ⟨rfl, rfl, id⟩
  exact ⟨fun c n v h => hscan.visits c n v (hpage c ▸ h), fun c h => hscan.goesOn c (hpage c ▸ h)⟩

/-! ## Whole scans -/

/-- A scan that succeeds has visited what its pages listed, one after the
other. -/
theorem scanLoop_ok {page : PageEnv b → Nat → PageStep} {es : List (PageEnv b)}
    (hpage : ∀ e ∈ es, VisitsPage limit page e) {used : Nat} {failed : Bool}
    {visited : List (KeyType × CacheLocationMap)}
    (h : scanLoop page es c failed = some (.ok, visited, used)) :
    failed = false ∧ ∃ pages, Listed (PageEnv.listKeys limit) c (es.take used) pages ∧
      visited.map Prod.fst = pages.flatten := by
  induction es generalizing c failed visited used with
  | nil => cases h
  | cons e es ih =>
    have he := hpage e mem_cons_self
    rw [scanLoop] at h
    split at h
    next ec hstop =>
      cases h
      exact absurd hstop (he.goesOn c)
    next n f v hnext =>
      by_cases hn : n = 0
      · rw [if_pos hn] at h
        split_ifs at h with hok
        · cases h
        cases h
        obtain ⟨hfailed, rfl⟩ := Bool.or_eq_false_iff.mp (Bool.eq_false_iff.mpr hok)
        have hlist := he.visits c n _ hnext
        rw [hn] at hlist
        refine ⟨hfailed, [visited.map Prod.fst], ?_, by simp⟩
        rw [take_succ_cons, take_zero]
        exact .last hlist
      · rw [if_neg hn] at h
        obtain ⟨⟨ec, visited', used'⟩, hr, ⟨⟩⟩ := map_eq_some_iff.mp h
        obtain ⟨hok, pages, hpages, hvisited⟩ :=
          ih (fun e' he' => hpage e' (mem_cons_of_mem _ he')) hr
        obtain ⟨hfailed, rfl⟩ := Bool.or_eq_false_iff.mp hok
        refine ⟨hfailed, v.map Prod.fst :: pages, ?_, ?_⟩
        · rw [take_succ_cons]
          exact .more (he.visits c n v hnext) hn hpages
        · rw [map_append, hvisited, flatten_cons]

/-- The pages of a scan that were all read from one store. -/
theorem Listed.map {σ τ : Type} {list : σ → Nat → Except ErrorCode (List KeyType × Nat)}
    {list' : τ → Nat → Except ErrorCode (List KeyType × Nat)} (f : σ → τ) {ss : List σ}
    (h : Listed list c ss pages) (hlist : ∀ s ∈ ss, ∀ c, list s c = list' (f s) c) :
    Listed list' c (ss.map f) pages := by
  induction h with
  | last hpage => exact .last (hlist _ mem_cons_self _ ▸ hpage)
  | more hpage hn _ ih =>
    exact .more (hlist _ mem_cons_self _ ▸ hpage) hn
      (ih fun s hs => hlist s (mem_cons_of_mem _ hs))

/-- The pages of a scan come from one store: all from the persistent backend,
or all from a cache that holds what the persistent backend holds. -/
def Steady (es : List (PageEnv b)) : Prop :=
  (∀ e ∈ es, e.fromCache = false) ∨
    ∀ e ∈ es, e.fromCache = true ∧ ∀ k ∈ b.persistent.keys e.persistent, k ∈ b.cache.keys e.cache

theorem listed_steady {es : List (PageEnv b)} (h : Listed (PageEnv.listKeys limit) 0 es pages)
    (hs : Steady es) {k : KeyType} (hk : ∀ e ∈ es, k ∈ b.persistent.keys e.persistent) :
    k ∈ pages.flatten := by
  rcases hs with hpersistent | hcache
  · have hlist : Listed (b.persistent.listKeys limit) 0 (es.map PageEnv.persistent) pages :=
      h.map PageEnv.persistent fun e he c => by
        rw [PageEnv.listKeys, if_neg (by rw [hpersistent e he]; decide)]
    refine b.persistent.complete hlist k fun s hs => ?_
    obtain ⟨e, he, rfl⟩ := mem_map.mp hs
    exact hk e he
  · have hlist : Listed (b.cache.listKeys limit) 0 (es.map PageEnv.cache) pages :=
      h.map PageEnv.cache fun e he c => by
        rw [PageEnv.listKeys, if_pos (hcache e he).1]
    refine b.cache.complete hlist k fun s hs => ?_
    obtain ⟨e, he, rfl⟩ := mem_map.mp hs
    exact (hcache e he).2 k (hk e he)

/-- Over steady pages, a scan that returns success has visited every key that
was in the persistent store on each of its pages. -/
theorem fullScan_visits (b : Backends) (scanBatchSize : Nat) (es : List (PageEnv b)) :
    (∀ visited used, visitAllLocations scanBatchSize es = some (.ok, visited, used) →
      Steady (es.take used) → ∀ k, (∀ e ∈ es.take used, k ∈ b.persistent.keys e.persistent) →
      k ∈ visited.map Prod.fst) ∧
    ∀ storageType shouldDelete, (∀ e ∈ es, RunsOn e) → ∀ visited used,
      cleanupLocationsByPredicate storageType scanBatchSize shouldDelete es
        = some (.ok, visited, used) →
      Steady (es.take used) → ∀ k, (∀ e ∈ es.take used, k ∈ b.persistent.keys e.persistent) →
      k ∈ visited.map Prod.fst := by
  refine ⟨fun visited used h hs k hk => ?_, fun storageType shouldDelete hruns visited used h hs k hk => ?_⟩
  · obtain ⟨-, pages, hpages, hvisited⟩ := scanLoop_ok (fun e _ => visitPage_visits _ e) h
    rw [hvisited]
    exact listed_steady hpages hs hk
  · obtain ⟨-, pages, hpages, hvisited⟩ :=
      scanLoop_ok (fun e he => cleanupPage_visits storageType shouldDelete _ (hruns e he)) h
    rw [hvisited]
    exact listed_steady hpages hs hk

/-! ## A scan across the end of recovery -/

/-- The keys 0, 1 and 2 in three buckets of the persistent store and in two
shards of the cache. -/
def threeKeys : Backends where
  persistent := shardedStore 3 Int.toNat
  cached := true
  shardCount := 2
  shardOf := fun k => k.toNat / 2

/-- A page at which both stores hold the three keys. -/
def threeKeysAt (recoverState : RecoverState) : PageEnv threeKeys where
  recoverState
  persistent := Shards.ofKeys 3 Int.toNat [0, 1, 2]
  cache := Shards.ofKeys 2 (fun k => k.toNat / 2) [0, 1, 2]
  getLocations := fun ks => ⟨.ok, ks.map fun _ => .ok, ks.map fun _ => ∅⟩

theorem fullScan_visits_recovering :
    (1 : KeyType) ∈ ((visitAllLocations 1 (List.replicate 3 (threeKeysAt .recover))).elim []
      fun r => r.2.1.map Prod.fst) := by
  have hrun : visitAllLocations 1 (List.replicate 3 (threeKeysAt .recover))
      = some (.ok, [(0, ∅), (1, ∅), (2, ∅)], 3) := rfl
  have hall : ∀ e ∈ (List.replicate 3 (threeKeysAt .recover)).take 3, e = threeKeysAt .recover :=
    fun e he => eq_of_mem_replicate (mem_of_mem_take he)
  rw [hrun]
  refine (fullScan_visits threeKeys 1 _).1 _ 3 hrun (.inl fun e he => ?_) 1 fun e he => ?_
  · rw [hall e he]
    rfl
  · rw [hall e he]
    decide

/-- Recovery ends between the two pages. The cursor 1, the next bucket of the
persistent store, is the last shard of the cache, and key 1 is never visited
although both stores hold it all the time. -/
theorem fullScan_misses_key :
    ∃ (es : List (PageEnv threeKeys)) (visited : List (KeyType × CacheLocationMap)) (used : Nat),
      visitAllLocations 1 es = some (.ok, visited, used) ∧
        (∀ e ∈ es.take used, 1 ∈ threeKeys.persistent.keys e.persistent) ∧
        1 ∉ visited.map Prod.fst := by
  refine ⟨[threeKeysAt .recover, threeKeysAt .running], [(0, ∅), (2, ∅)], 2, rfl, ?_, by decide⟩
  intro e he
  rcases mem_cons.mp he with rfl | he
  · decide
  · rw [mem_singleton.mp he]
    decide

end TairKvCache.MetaScan
