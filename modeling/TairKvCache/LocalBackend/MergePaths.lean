import TairKvCache.WritePhase
import TairKvCache.LocalBackend.SingleTarget

/-!
# The two paths of a merge agree

The argument follows a batch. Both reads return the same statuses and
locations (`getLocationsWithKeyStatus_eq`, `getSingleLocationViews_eq`), both
modifiers reach the same decision (`decisions_agree`), and both write halves
make the same loop of writes and count the same new keys (`write_agree`). A
request is a sequence of such batches over distinct keys.
-/

namespace TairKvCache

open Lib List LruCache Indexer

namespace LruCache

/-! ## Reads -/

def status (c : LruCache) (k : KeyType) : ErrorCode :=
  keyStatus (if c.has k then some k else none)

theorem getLocationsWithKeyStatus_eq (c : LruCache) (ts : List Target) :
    c.getLocationsWithKeyStatus (ts.map (·.key)) (ts.map (·.ids))
      = (c, ts.map fun t => (c.status t.key, t.ids.map (c.readLocation t.key))) := by
  unfold getLocationsWithKeyStatus
  rw [lookupBatch_eq]
  refine Prod.ext (releaseBatch_held c _) ?_
  simp only [hits, zip_map', map_map, zipWith_map, zipWith_self]
  rfl

theorem getSingleLocationViews_eq (c : LruCache) (ts : List Target) :
    c.getSingleLocationViewsWithKeyStatusInto (ts.map (·.key)) (ts.map fun t => t.ids.headD "")
      = (c.addRefs (held (c.hits (ts.map (·.key)))),
        ⟨ts.map (·.key), c.hits (ts.map (·.key))⟩,
        ts.map fun t => (c.status t.key, c.readLocation t.key (t.ids.headD ""))) := by
  unfold getSingleLocationViewsWithKeyStatusInto
  rw [lookupBatch_eq]
  refine Prod.ext rfl (Prod.ext rfl ?_)
  simp only [hits, zip_map', map_map, zipWith_map, zipWith_self]
  rfl

end LruCache

/-! ## Decisions -/

variable {ec : ErrorCode} {γ : Type} {us : List SingleRmw} {ecs : List ErrorCode}

theorem mergeOneLocation_error {task : MergeTask} {incoming : Nat} {now : Int} {read : LocationRead}
    (h : mergeOneLocation task incoming now read = .error ec) : ec ≠ .ok := by
  unfold mergeOneLocation at h
  split at h
  · unfold mergeExisting at h
    dsimp only at h
    split_ifs at h <;> cases h <;> decide
  · cases h
    decide
  · cases h
  · rename_i hok _
    cases h
    rintro rfl
    cases hv : ‹Option CacheLocation› with
    | none => simp_all
    | some l => simp_all

theorem readFailed_of_merge {task : MergeTask} {incoming : Nat} {now : Int} {read : LocationRead}
    {r : CacheLocation × StorageUsageChange}
    (h : mergeOneLocation task incoming now read = .ok r) : readFailed read = false := by
  obtain ⟨ec, v⟩ := read
  cases ec <;> first | rfl | (cases v <;> cases h)

/-- Equal in everything the request's result depends on. What was captured
counts only where it is used, for a location that passed. -/
structure Decision.Agree {π : Type} (d d' : Decision π) : Prop where
  index : d.index = d'.index
  key : d.key = d'.key
  intent : d.intent = d'.intent
  codes : d.codes = d'.codes
  failed : d.failed = d'.failed
  captured : d.codes = [.ok] → d.captured = d'.captured
  one : d.codes.length = 1

/-- What a single-location decision can ask for. -/
def SingleIntent (id : LocationId) (i : Intent) : Prop :=
  i = .settled ∨ ∃ l isNew, l.id = id ∧ i = .upsert ((∅ : CacheLocationMap).insert id l) ∅ isNew

section

variable (env : SpecsEnv) (tasks : List (List MergeTask)) (i : Nat) (id : LocationId)
  (read : LocationRead)

/-- What `merge_one_location` makes of the first task of key `i`. -/
def mergeFirst : Except ErrorCode (CacheLocation × StorageUsageChange) :=
  let task := taskAt noMergeTask tasks i 0
  mergeOneLocation task (task.incomingSize.getD 0) env.now read

theorem mergeModifier_unleased (h : env.leaseEc ≠ .ok) :
    mergeModifier env tasks i [(id, read)]
      = { action := .fail, slots := [(env.leaseEc, read.2)], captured := [] } := by
  simp [mergeModifier, leased, h]

theorem modifiers_ok (h : env.leaseEc = .ok) {l : CacheLocation} {ch : StorageUsageChange}
    (hm : mergeFirst env tasks i read = .ok (l, ch)) :
    mergeModifier env tasks i [(id, read)]
        = { action := .ok, slots := [(.ok, some l)], captured := [ch] }
      ∧ singleMergeModifier env tasks i id read = ⟨.ok, .ok, some l, [ch]⟩ := by
  unfold mergeFirst at hm
  constructor
  · simp [mergeModifier, leased, h, slotModifier, mergeSlot, hm]
  · simp [singleMergeModifier, h, hm]

theorem modifiers_error (h : env.leaseEc = .ok) (hm : mergeFirst env tasks i read = .error ec) :
    mergeModifier env tasks i [(id, read)]
        = { action := .skip, slots := [(ec, read.2)], captured := [{}] }
      ∧ singleMergeModifier env tasks i id read = ⟨.skip, ec, none, []⟩ := by
  have hne : ec ≠ .ok := mergeOneLocation_error hm
  unfold mergeFirst at hm
  constructor
  · simp [mergeModifier, leased, h, slotModifier, mergeSlot, hm, hne]
  · simp [singleMergeModifier, h, hm]

end

/-- Both modifiers reach the same decision from the same read. -/
theorem decisions_agree (env : SpecsEnv) (tasks : List (List MergeTask)) {t : Target}
    {id : LocationId} (hids : t.ids = [id]) (keyEc : ErrorCode) (raw : LocationRead) :
    (decideLocations true (mergeModifier env tasks) t keyEc [raw]).Agree
        (decideSingle (singleMergeModifier env tasks) t.index t.key id keyEc raw)
      ∧ SingleIntent id
        (decideSingle (singleMergeModifier env tasks) t.index t.key id keyEc raw).intent :=
          by
  unfold decideLocations decideSingle
  simp only [hids, zip_cons_cons, zip_nil_right, map_cons, map_nil]
  generalize checkRead (id, raw) = read
  have hro : readFailed read = true → read.1 ≠ .ok := fun h => (of_decide_eq_true h).1
  by_cases hkey : keyEc ≠ .ok ∧ keyEc ≠ .noent
  · rw [if_pos hkey, if_pos hkey]
    exact ⟨⟨rfl, rfl, rfl, by simp [Decision.refused, hids], rfl, fun _ => rfl,
      by simp [Decision.refused, hids]⟩, Or.inl rfl⟩
  rw [if_neg hkey, if_neg hkey]
  by_cases hmiss : keyEc = .noent ∧ read.1 = .ok
  · rw [if_pos (by simpa using hmiss), if_pos hmiss]
    exact ⟨⟨rfl, rfl, rfl, by simp [Decision.refused, hids], rfl, fun _ => rfl,
      by simp [Decision.refused, hids]⟩, Or.inl rfl⟩
  rw [if_neg (by simpa using hmiss), if_neg hmiss]
  by_cases hlease : env.leaseEc = .ok
  · cases hm : mergeFirst env tasks t.index read with
    | error ec =>
      have hne : ec ≠ .ok := mergeOneLocation_error hm
      obtain ⟨hgeneric, hsingle⟩ := modifiers_error env tasks t.index id read hlease hm
      rw [hgeneric, hsingle]
      by_cases hread : readFailed read <;> refine ⟨⟨?_, ?_, ?_, ?_, ?_, ?_, ?_⟩, ?_⟩ <;>
        simp [decideModified, LocationModified.checked, hids, forceRead, hread, intentOf,
          codesOf, failedOf, hro, hne, SingleIntent]
    | ok r =>
      obtain ⟨l, ch⟩ := r
      have hread : readFailed read = false := readFailed_of_merge hm
      obtain ⟨hgeneric, hsingle⟩ := modifiers_ok env tasks t.index id read hlease hm
      rw [hgeneric, hsingle]
      by_cases hid : l.id = id
      · refine ⟨⟨?_, ?_, ?_, ?_, ?_, ?_, ?_⟩, Or.inr ⟨l, keyEc = .noent, hid, ?_⟩⟩ <;>
          simp [decideModified, LocationModified.checked, hids, forceRead, hread, intentOf,
            codesOf, failedOf, hid, placedCode, upsertMap, emplace]
      · refine ⟨⟨?_, ?_, ?_, ?_, ?_, ?_, ?_⟩, ?_⟩ <;>
          simp [decideModified, LocationModified.checked, hids, forceRead, hread, intentOf,
            codesOf, failedOf, hid, SingleIntent, placedCode, upsertMap, emplace]
  · rw [mergeModifier_unleased env tasks t.index id read hlease]
    simp only [singleMergeModifier, if_pos hlease]
    by_cases hread : readFailed read <;> refine ⟨⟨?_, ?_, ?_, ?_, ?_, ?_, ?_⟩, ?_⟩ <;>
      simp [decideModified, LocationModified.checked, hids, forceRead, hread, intentOf,
        codesOf, failedOf, hro, hlease, SingleIntent]

/-! ## Outcomes -/

/-- Equal for the caller: the codes, the failure, and the usage moves. -/
structure Outcome.Same {γ : Type} (o o' : Outcome (List γ)) : Prop where
  codes : o.codes = o'.codes
  failed : o.failed = o'.failed
  usage : ∀ f, o.usage f = o'.usage f

theorem Outcome.Same.refl (o : Outcome (List γ)) : o.Same o := ⟨rfl, rfl, fun _ => rfl⟩

theorem Decision.Agree.upsert? {π : Type} {d d' : Decision π} (h : d.Agree d') :
    d.upsert? = d'.upsert? := by
  unfold Decision.upsert?
  rw [h.intent, h.index, h.key]

theorem Decision.Agree.delete? {π : Type} {d d' : Decision π} (h : d.Agree d') :
    d.delete? = d'.delete? := by
  unfold Decision.delete?
  rw [h.intent, h.index, h.key]

theorem Decision.Agree.finish {d d' : Decision (List γ)} (h : d.Agree d') (ec : ErrorCode)
    (synced : Bool) : (d.finish ec synced).Same (d'.finish ec synced) := by
  refine ⟨?_, ?_, fun f => ?_⟩
  · simp only [Decision.finish, h.codes]
  · simp only [Decision.finish, h.failed, h.delete?]
  · obtain ⟨code, hcode⟩ := length_eq_one_iff.mp h.one
    have hcode' := h.codes ▸ hcode
    by_cases hok : code = .ok
    · have hcap := h.captured (by rw [hcode, hok])
      simp only [Outcome.usage, Decision.finish, hcode, hcode', hcap]
    · -- a slot that did not pass moves no usage, whatever was captured
      have hnone : ∀ x : Decision (List γ), x.codes = [code] → (x.finish ec synced).usage f = [] := by
        intro x hx
        cases hc : x.captured.getD [] with
        | nil => simp [Outcome.usage, Decision.finish, hc]
        | cons c cs => simp [Outcome.usage, Decision.finish, hx, hok, hc]
      rw [hnone d hcode, hnone d' hcode']

namespace LocalIndexer

/-! ## The write halves -/

/-- A single-location upsert as the generic path has it. -/
def SingleRmw.toRmw (u : SingleRmw) : RmwUpsert := ⟨u.index, u.upsert.item, u.isNew⟩

theorem eraseDups_of_nodup {α : Type} [DecidableEq α] {l : List α} (h : l.Nodup) :
    l.eraseDups = l := by
  induction l with
  | nil => rfl
  | cons a l ih =>
    rw [nodup_cons] at h
    have hfilter : (l.filter fun b => !b == a) = l := by
      refine filter_eq_self.mpr fun b hb => ?_
      have hne : b ≠ a := fun heq => h.1 (heq ▸ hb)
      simp [hne]
    rw [eraseDups_cons, hfilter, ih h.2]

theorem distinctKeys_length {α : Type} {key : α → KeyType} {l : List α} (hnd : (l.map key).Nodup)
    (P : α → Bool) : ((l.filter P).map key).eraseDups.length = l.countP P := by
  rw [eraseDups_of_nodup ((filter_sublist.map _).nodup hnd), length_map, countP_eq_length_filter]

theorem newKeys_length (hnd : (us.map (·.upsert.key)).Nodup) :
    ((((us.map (·.toRmw)).filter (·.isNew)).map (·.item.key)).eraseDups).length
      = us.countP (·.isNew) := by
  rw [distinctKeys_length (by rwa [map_map]), countP_map]
  rfl

theorem createdKeys_length (hnd : (us.map (·.upsert.key)).Nodup) (hlen : ecs.length = us.length) :
    (((((us.map (·.toRmw)).zip ecs).filter fun p => p.1.isNew ∧ p.2 = .ok).map
        (·.1.item.key)).eraseDups).length
      = (us.zip ecs).countP fun p => p.1.isNew ∧ p.2 = .ok := by
  have hkeys : (((us.map (·.toRmw)).zip ecs).map (·.1.item.key)).Nodup := by
    have hfst : ((us.map (·.toRmw)).zip ecs).map Prod.fst = _ := map_fst_zip (by simp [hlen])
    have hmap : (((us.map (·.toRmw)).zip ecs).map Prod.fst).map (·.item.key) = _ := map_map
    rw [hfst, map_map] at hmap
    exact hmap ▸ hnd
  rw [distinctKeys_length hkeys, zip_map_left, countP_map]
  rfl

theorem retainedOk_sublist {s : LruCache.Scratch} {qs qs' : List LruCache.SingleUpsert}
    (hsub : qs'.Sublist qs) (h : retainedOk s qs = true) :
    retainedOk s qs' = true := by
  simp only [retainedOk, Bool.and_eq_true, decide_eq_true_eq, all_eq_true] at h ⊢
  exact ⟨h.1.sublist (hsub.map _), fun q hq => h.2 q (hsub.subset hq)⟩

theorem index_not_mem_filter {P : SingleRmw → Bool} (hnd : (us.map (·.index)).Nodup) {u : SingleRmw}
    (hu : u ∈ us) (hP : ¬P u) : u.index ∉ (us.filter P).map (·.index) := by
  intro hmem
  obtain ⟨v, hv, heq⟩ := mem_map.mp hmem
  obtain rfl := inj_on_of_nodup_map hnd (mem_filter.mp hv).1 hu heq
  exact hP (mem_filter.mp hv).2

section

variable (hnd : (us.map (·.index)).Nodup) (hlen : ecs.length = (us.filter (!·.isNew)).length)

include hnd hlen

theorem limit_new {u : SingleRmw} (hu : u ∈ us) (hnew : u.isNew = true) :
    labelled .nospc (((us.filter (!·.isNew)).map (·.index)).zip ecs) u.index = .nospc := by
  refine labelled_of_not_mem _ ?_
  rw [map_fst_zip (by rw [length_map, hlen])]
  exact index_not_mem_filter hnd hu (by simp [hnew])

/-- The codes of a batch at the key limit, as the two paths assemble them. -/
theorem limit_codes (i : Nat) :
    labelled .ok ((us.map (·.index)).zip ((us.map (·.toRmw)).map fun u =>
        labelled .nospc (((us.filter (!·.isNew)).map (·.index)).zip ecs) u.index)) i
      = labelled .ok ((us.filter (·.isNew)).map (fun u => (u.index, ErrorCode.nospc))
          ++ ((us.filter (!·.isNew)).map (·.index)).zip ecs) i := by
  have hrefused := fun u hu hnew => limit_new hnd hlen (u := u) hu hnew
  have hwritten := map_labelled_zip .nospc ((filter_sublist.map (·.index)).nodup hnd)
    (hlen.trans (length_map _).symm)
  generalize ((us.filter (!·.isNew)).map (·.index)).zip ecs = E at hwritten hrefused ⊢
  have hnew : (us.filter (·.isNew)).map (fun u => (u.index, ErrorCode.nospc))
      = (us.filter (·.isNew)).map fun u => (u.index, labelled .nospc E u.index) := by
    refine map_congr_left fun u hu => ?_
    rw [hrefused u (mem_filter.mp hu).1 (mem_filter.mp hu).2]
  have hperm := (filter_append_perm (·.isNew) us).map fun u => (u.index, labelled .nospc E u.index)
  rw [map_map, Function.comp_def] at hwritten
  rw [map_append, ← hnew, hwritten] at hperm
  rw [map_map, zip_map']
  exact labelled_perm _ hperm.symm (by rwa [map_map])

theorem limit_created :
    (((us.map (·.toRmw)).zip ((us.map (·.toRmw)).map fun u =>
        labelled .nospc (((us.filter (!·.isNew)).map (·.index)).zip ecs) u.index)).filter
          fun p => p.1.isNew ∧ p.2 = .ok) = [] := by
  refine filter_eq_nil_iff.mpr fun p hp => ?_
  rw [map_map, zip_map'] at hp
  obtain ⟨u, hu, rfl⟩ := mem_map.mp hp
  simp only [decide_eq_true_eq, not_and]
  intro hnew
  have hcode := limit_new hnd hlen hu hnew
  simp [SingleRmw.toRmw, hcode]

end

theorem toRmw_index (vs : List SingleRmw) :
    (vs.map (·.toRmw)).map (·.index) = vs.map (·.index) := by
  rw [map_map]
  rfl

theorem upsert_toRmw_length (c : LruCache) (vs : List SingleRmw) :
    (c.upsert ((vs.map (·.toRmw)).map (·.item))).2.length = vs.length := by
  rw [upsert_eq, runSlots_length, length_map, length_map]

/-- The two write halves make the same writes, report the same codes and
count the same new keys. -/
theorem write_agree (ix : LocalIndexer) (c : LruCache) {keys : List KeyType}
    (hok : retainedOk ⟨keys, c.hits keys⟩ (us.map (·.upsert)) = true)
    (hkeys : (us.map (·.upsert.key)).Nodup) (hidx : (us.map (·.index)).Nodup) :
    (ix.executeRmwUpsert c (us.map (·.toRmw))).1
        = (ix.singleWrite (c.addRefs (held (c.hits keys))) ⟨keys, c.hits keys⟩ us).1
      ∧ (∀ i, labelled .ok (((us.map (·.toRmw)).map (·.index)).zip
            (ix.executeRmwUpsert c (us.map (·.toRmw))).2.1) i
          = labelled .ok
            (ix.singleWrite (c.addRefs (held (c.hits keys))) ⟨keys, c.hits keys⟩ us).2.1 i)
      ∧ (ix.executeRmwUpsert c (us.map (·.toRmw))).2.2
        = (ix.singleWrite (c.addRefs (held (c.hits keys))) ⟨keys, c.hits keys⟩ us).2.2 :=
          by
  have hloop : ∀ vs : List SingleRmw, vs.Sublist us →
      (c.addRefs (held (c.hits keys))).upsertSingleLocationsUsingRetainedHandlesInto
          ⟨keys, c.hits keys⟩ (vs.map (·.upsert))
        = c.upsert ((vs.map (·.toRmw)).map (·.item)) := by
    intro vs hvs
    rw [upsertSingleLocationsUsingRetainedHandlesInto_eq c
      (retainedOk_sublist (hvs.map _) hok)
      (by rw [map_map]; exact (hvs.map _).nodup hkeys), upsert_eq, map_map,
      map_map]
    rfl
  have hrelease := releaseBatch_held c (c.hits keys)
  have hexisting : (us.map (·.toRmw)).filter (!·.isNew) = (us.filter (!·.isNew)).map (·.toRmw) := by
    rw [filter_map]
    rfl
  unfold executeRmwUpsert singleWrite
  dsimp only
  rw [toRmw_index, newKeys_length hkeys, hexisting, toRmw_index, isEmpty_map, isEmpty_map]
  by_cases hempty : us.isEmpty
  · obtain rfl := isEmpty_iff.mp hempty
    exact ⟨hrelease.symm, fun _ => rfl, rfl⟩
  rw [if_neg hempty, if_neg hempty]
  by_cases hcap : ix.config.maxKeyCount < us.countP (·.isNew) + ix.keyCount.toNat
  · rw [if_pos hcap, if_pos hcap, hloop _ filter_sublist, hrelease]
    have hlen := upsert_toRmw_length c (us.filter (!·.isNew))
    have hcodes := limit_codes hidx hlen
    have hcreated := limit_created hidx hlen
    by_cases hex : (us.filter (!·.isNew)).isEmpty
    · rw [isEmpty_iff.mp hex] at hcodes hcreated ⊢
      simp only [map_nil, zip_nil_left, append_nil, isEmpty_nil, if_true] at hcodes hcreated ⊢
      exact ⟨trivial, hcodes, by rw [hcreated]; rfl⟩
    · rw [if_neg hex, if_neg hex]
      exact ⟨rfl, hcodes, by rw [hcreated]; rfl⟩
  · rw [if_neg hcap, if_neg hcap, hloop us (List.Sublist.refl _)]
    exact ⟨rfl, fun _ => rfl, createdKeys_length hkeys (upsert_toRmw_length c us)⟩

/-! ## Batches -/

/-- The targets of a request with one location per key. -/
def SingleTargeted (ts : List Target) : Prop := ∀ t ∈ ts, ∃ id, t.ids = [id]

section

variable {π : Type} {dec : Target → Decision π} {ts : List Target}

theorem single?_of_intent {id : LocationId} {j : Nat} {d : Decision π}
    (h : SingleIntent id d.intent) : (d.upsert? = none ∧ single? id j d = none)
      ∨ ∃ l isNew, l.id = id ∧ single? id j d = some ⟨d.index, isNew, ⟨d.key, id, l, j⟩⟩
        ∧ d.upsert? = some (SingleRmw.toRmw ⟨d.index, isNew, ⟨d.key, id, l, j⟩⟩) := by
  rcases h with h | ⟨l, isNew, hid, h⟩
  · exact Or.inl ⟨by simp [Decision.upsert?, h], by simp [single?, h]⟩
  · have hlook : ((∅ : CacheLocationMap).insert id l).lookup id = some l := AList.lookup_insert _
    refine Or.inr ⟨l, isNew, hid, by simp only [single?, h, hlook]; rfl, ?_⟩
    simp only [Decision.upsert?, h]
    rfl

def entryAt (dec : Target → Decision π) (p : Target × Nat) : Option SingleRmw :=
  single? (p.1.ids.headD "") p.2 (dec p.1)

theorem singleUpserts_map (dec : Target → Decision π) (ts : List Target) :
    singleUpserts ts (ts.map dec)
      = ts.zipIdx.filterMap (entryAt dec) := by
  rw [singleUpserts, ← map_prod_left_eq_zip, zipIdx_map, filterMap_map]
  rfl

/-- What an entry of the upsert arrays says about its target. -/
structure FromTarget (t : Target) (j : Nat) (u : SingleRmw) : Prop where
  index : u.index = t.index
  key : u.upsert.key = t.key
  readIndex : u.upsert.readIndex = j
  locationId : u.upsert.location.id = u.upsert.locationId

variable (hdec : ∀ t ∈ ts, (dec t).index = t.index ∧ (dec t).key = t.key
  ∧ SingleIntent (t.ids.headD "") (dec t).intent)

include hdec

theorem fromTarget {t : Target} (ht : t ∈ ts) {j : Nat} {u : SingleRmw}
    (h : single? (t.ids.headD "") j (dec t) = some u) : FromTarget t j u := by
  obtain ⟨hidx, hkey, hintent⟩ := hdec t ht
  rcases single?_of_intent (j := j) hintent with ⟨-, hnone⟩ | ⟨l, isNew, hid, hsome, -⟩
  · rw [hnone] at h
    cases h
  · rw [hsome] at h
    obtain rfl := Option.some.inj h
    exact ⟨hidx, hkey, rfl, hid⟩

theorem singleUpserts_toRmw :
    (singleUpserts ts (ts.map dec)).map (·.toRmw) = (ts.map dec).filterMap Decision.upsert? := by
  rw [singleUpserts_map, filterMap_map]
  have go : ∀ (l : List Target) (n : Nat), l ⊆ ts →
      ((l.zipIdx n).filterMap (entryAt dec)).map (·.toRmw)
        = l.filterMap (Decision.upsert? ∘ dec) := by
    intro l
    induction l with
    | nil => intro n _; rfl
    | cons t l ih =>
      intro n hsub
      have hrest := ih (n + 1) fun x hx => hsub (mem_cons_of_mem _ hx)
      obtain ⟨-, -, hintent⟩ := hdec t (hsub mem_cons_self)
      rw [zipIdx_cons]
      rcases single?_of_intent (j := n) hintent with ⟨hup, hnone⟩ | ⟨l, isNew, -, hsome, hup⟩
      · have hnone' : entryAt dec (t, n) = none := hnone
        have hup' : (Decision.upsert? ∘ dec) t = none := hup
        rw [filterMap_cons_none hnone', filterMap_cons_none hup', hrest]
      · have hsome' : entryAt dec (t, n) = some _ := hsome
        have hup' : (Decision.upsert? ∘ dec) t = some _ := hup
        rw [filterMap_cons_some hsome', filterMap_cons_some hup', map_cons, hrest]
  exact go ts 0 (List.Subset.refl _)

/-- The labels of the upsert arrays, in the order of the targets. -/
theorem singleUpserts_labels {ι : Type} {g : SingleRmw → ι} {h : Target × Nat → ι}
    (hgh : ∀ t j u, FromTarget t j u → g u = h (t, j)) :
    ((singleUpserts ts (ts.map dec)).map g).Sublist (ts.zipIdx.map h) := by
  rw [singleUpserts_map]
  refine filterMap_labels_sublist fun p hp u hs => hgh p.1 p.2 u (fromTarget hdec ?_ hs)
  exact (mem_zipIdx' hp).2 ▸ getElem_mem _

theorem singleUpserts_retainedOk (c : LruCache) :
    retainedOk ⟨ts.map (·.key), c.hits (ts.map (·.key))⟩
      ((singleUpserts ts (ts.map dec)).map (·.upsert)) = true := by
  simp only [retainedOk, Bool.and_eq_true, decide_eq_true_eq, all_eq_true, map_map]
  refine ⟨?_, fun q hq => ?_⟩
  · refine List.Pairwise.sublist (singleUpserts_labels hdec (h := (·.2))
      fun t j u hu => hu.readIndex) ?_
    rw [zipIdx_map_snd]
    exact pairwise_lt_range' _
  · obtain ⟨u, hu, rfl⟩ := mem_map.mp hq
    rw [singleUpserts_map] at hu
    obtain ⟨⟨t, j⟩, hp, hs⟩ := mem_filterMap.mp hu
    have hget := mem_zipIdx_iff_getElem?.mp hp
    have hfrom := fromTarget hdec (mem_of_getElem? hget) hs
    have hlt : j < ts.length := (List.getElem?_eq_some_iff.mp hget).1
    refine ⟨⟨?_, ?_⟩, hfrom.locationId⟩
    · rw [hfrom.readIndex, getElem?_map, hget, hfrom.key]
      rfl
    · rw [hfrom.readIndex]
      simpa [hits] using hlt

end

theorem zipIdx_map_left {α ι : Type} (l : List α) (g : α → ι) :
    l.zipIdx.map (fun p => g p.1) = l.map g := by
  conv_rhs => rw [← zipIdx_map_fst 0 l, map_map]
  rfl

/-- Two labelled outcomes that are equal for the caller. -/
def SameEntry {γ : Type} (p q : Nat × Outcome (List γ)) : Prop := p.1 = q.1 ∧ p.2.Same q.2

/-- A batch of distinct keys with one location each takes either path. -/
theorem batch_agree (env : SpecsEnv) (tasks : List (List MergeTask)) (ix : LocalIndexer)
    {ts : List Target} (hsingle : SingleTargeted ts) (hkeys : (ts.map (·.key)).Nodup)
    (hidx : (ts.map (·.index)).Nodup) : (targetBatch (mergeModifier env tasks) ix ts).1
        = (singleBatch (singleMergeModifier env tasks) ix ts).1
      ∧ List.Forall₂ SameEntry (targetBatch (mergeModifier env tasks) ix ts).2
        (singleBatch (singleMergeModifier env tasks) ix ts).2 := by
  let c := ix.cache
  let dg : Target → Decision (List StorageUsageChange) := fun t =>
    decideLocations true (mergeModifier env tasks) t (c.status t.key)
      (t.ids.map (c.readLocation t.key))
  let df : Target → Decision (List StorageUsageChange) := fun t =>
    decideSingle (singleMergeModifier env tasks) t.index t.key (t.ids.headD "")
      (c.status t.key) (c.readLocation t.key (t.ids.headD ""))
  have hagree : ∀ t ∈ ts, (dg t).Agree (df t) ∧ SingleIntent (t.ids.headD "") (df t).intent := by
    intro t ht
    obtain ⟨id, hids⟩ := hsingle t ht
    have h := decisions_agree env tasks hids (c.status t.key) (c.readLocation t.key id)
    simpa only [dg, df, hids, map_cons, map_nil, headD_cons] using h
  have hdec : ∀ t ∈ ts, (df t).index = t.index ∧ (df t).key = t.key
      ∧ SingleIntent (t.ids.headD "") (df t).intent := by
    intro t ht
    have htarget := decideLocations_target true (mergeModifier env tasks) t
      (c.status t.key) (t.ids.map (c.readLocation t.key))
    obtain ⟨ha, hintent⟩ := hagree t ht
    exact ⟨ha.index.symm.trans htarget.1, ha.key.symm.trans htarget.2, hintent⟩
  have hdg : targetDecisions (mergeModifier env tasks) ts
      (ts.map fun t => (c.status t.key, t.ids.map (c.readLocation t.key))) = ts.map dg := by
    rw [targetDecisions, zipWith_map_right, zipWith_self]
  have hdf : singleDecisions (singleMergeModifier env tasks) ts
      (ts.map fun t => (c.status t.key, c.readLocation t.key (t.ids.headD ""))) = ts.map df := by
    rw [singleDecisions, zipWith_map_right, zipWith_self]
  have hups : (ts.map dg).filterMap Decision.upsert?
      = (singleUpserts ts (ts.map df)).map (·.toRmw) := by
    rw [singleUpserts_toRmw hdec, filterMap_map, filterMap_map]
    exact filterMap_congr fun t ht => (hagree t ht).1.upsert?
  obtain ⟨hcache, hcodes, hcount⟩ := write_agree ix c (singleUpserts_retainedOk hdec c)
    ((singleUpserts_labels hdec (h := (·.1.key)) fun t j u hu => hu.key).nodup
      (by rwa [zipIdx_map_left]))
    ((singleUpserts_labels hdec (h := (·.1.index)) fun t j u hu => hu.index).nodup
      (by rwa [zipIdx_map_left]))
  unfold targetBatch singleBatch
  rw [getLocationsWithKeyStatus_eq, getSingleLocationViews_eq]
  dsimp only
  rw [hdg, hdf, hups]
  refine ⟨?_, ?_⟩
  · rw [hcache, hcount]
  · rw [List.forall₂_map_left_iff, List.forall₂_map_right_iff, List.forall₂_map_left_iff,
      List.forall₂_map_right_iff]
    refine List.forall₂_same.mpr fun t ht => ⟨(hagree t ht).1.index, ?_⟩
    rw [hcodes, (hagree t ht).1.index]
    exact (hagree t ht).1.finish _ _

/-! ## Requests -/

theorem run_agree (env : SpecsEnv) (tasks : List (List MergeTask)) (ix : LocalIndexer)
    {ts : List Target} (hsingle : SingleTargeted ts) (hkeys : (ts.map (·.key)).Nodup)
    (hidx : (ts.map (·.index)).Nodup) :
    (runBatches (targetBatch (mergeModifier env tasks)) ix ts).1
        = (runBatches (singleBatch (singleMergeModifier env tasks)) ix ts).1
      ∧ List.Forall₂ SameEntry
        (runBatches (targetBatch (mergeModifier env tasks)) ix ts).2
        (runBatches (singleBatch (singleMergeModifier env tasks)) ix ts).2 := by
  unfold runBatches
  have hperm := ix.config.targetBatches_perm ts
  -- each batch is a part of the request
  have hgood : ∀ B ∈ ix.config.targetBatches ts,
      SingleTargeted B ∧ (B.map (·.key)).Nodup ∧ (B.map (·.index)).Nodup := by
    intro B hB
    have hsub : B.Sublist (ix.config.targetBatches ts).flatten := sublist_flatten_of_mem hB
    exact ⟨fun t ht => hsingle t (hperm.subset (hsub.subset ht)),
      (hsub.map _).nodup ((hperm.map _).nodup_iff.mpr hkeys),
      (hsub.map _).nodup ((hperm.map _).nodup_iff.mpr hidx)⟩
  generalize ix.config.targetBatches ts = bs at hgood
  induction bs generalizing ix with
  | nil => exact ⟨rfl, .nil⟩
  | cons B bs ih =>
    obtain ⟨hB, hBk, hBi⟩ := hgood B mem_cons_self
    obtain ⟨hstate, houts⟩ := batch_agree env tasks ix hB hBk hBi
    have hrest := ih (targetBatch (mergeModifier env tasks) ix B).1
      (IndexerConfig.targetBatches_perm _ ts) fun B' hB' => hgood B' (mem_cons_of_mem _ hB')
    simp only [runSlots_cons, flatten_cons]
    rw [← hstate]
    exact ⟨hrest.1, rel_append houts hrest.2⟩

theorem outcomeAt_same {outs outs' : List (Nat × Outcome (List γ))}
    (h : List.Forall₂ SameEntry outs outs') (i : Nat) :
    (outcomeAt outs i).Same (outcomeAt outs' i) := by
  induction h with
  | nil => exact Outcome.Same.refl _
  | @cons p q outs outs' hpq _ ih =>
    obtain ⟨hlabel, hsame⟩ := hpq
    obtain ⟨a, o⟩ := p
    obtain ⟨b, o'⟩ := q
    obtain rfl : a = b := hlabel
    rcases eq_or_ne i a with rfl | hi
    · simpa [outcomeAt, labelled] using hsame
    · have hbeq : (i == a) = false := by simpa using hi
      simpa [outcomeAt, labelled, lookup_cons, hbeq] using ih

theorem aggregateEc_congr {π : Type} {os os' : List (Outcome π)}
    (h : os.map (·.failed) = os'.map (·.failed)) : aggregateEc os = aggregateEc os' := by
  have hall := congrArg (·.all id) h
  have hany := congrArg (·.any id) h
  have hempty := congrArg isEmpty h
  simp only [all_map, any_map, isEmpty_map, Function.id_comp] at hall hany hempty
  rw [aggregateEc, aggregateEc, hall, hany, hempty]

/-- Through either path a merge with one task per key leaves the same
metadata, charges, references, key count and usage, and returns the same
aggregate code and per-key codes. -/
theorem batchMergeVia_single_eq_target (ix : LocalIndexer) (env : SpecsEnv) (keys : List KeyType)
    (tasks : List (List MergeTask)) (hone : ∀ ts ∈ tasks, ts.length = 1) :
    ix.batchMergeVia .single env keys tasks = ix.batchMergeVia .target env keys tasks := by
  unfold batchMergeVia
  split
  · rfl
  rename_i hlen
  split
  · rfl
  rename_i hok
  have hkeys : keys.Nodup := by
    simp only [specsRequestOk, Bool.not_eq_true', Bool.not_eq_false, Bool.and_eq_true,
      decide_eq_true_eq] at hok
    exact hok.1
  let ids := tasks.map (·.map (·.resolvedLocationId))
  have hlen' : keys.length = ids.length := by simpa [ids] using hlen
  have hsingle : SingleTargeted (targetsOf keys ids) := by
    intro t ht
    obtain ⟨⟨⟨k, l⟩, j⟩, hp, rfl⟩ := mem_map.mp ht
    have hl : l ∈ ids := (of_mem_zip (mem_of_getElem? (mem_zipIdx_iff_getElem?.mp hp))).2
    obtain ⟨ts, hts, rfl⟩ := mem_map.mp hl
    obtain ⟨task, rfl⟩ := length_eq_one_iff.mp (hone ts hts)
    exact ⟨task.resolvedLocationId, rfl⟩
  have hkeys' : ((targetsOf keys ids).map (·.key)) = keys := by
    rw [targetsOf, map_map]
    exact (zipIdx_map_left _ Prod.fst).trans (map_fst_zip hlen'.le)
  have hindex : ((targetsOf keys ids).map (·.index)).Nodup := by
    rw [targetsOf, map_map]
    exact Eq.mpr (congrArg Nodup (zipIdx_map_snd 0 (keys.zip ids))) nodup_range'
  obtain ⟨hstate, houts⟩ := run_agree env tasks ix hsingle (by rw [hkeys']; exact hkeys) hindex
  have hsame := outcomeAt_same houts
  have husage : ∀ f, usageOf keys.length
      (runBatches (singleBatch (singleMergeModifier env tasks)) ix
        (targetsOf keys ids)).2 f
      = usageOf keys.length
        (runBatches (targetBatch (mergeModifier env tasks)) ix
          (targetsOf keys ids)).2 f := by
    intro f
    refine flatMap_congr fun i _ => ?_
    exact ((hsame i).usage (f i)).symm
  dsimp only
  refine Prod.ext ?_ (Prod.ext ?_ ?_)
  · rw [← hstate, husage]
  · refine aggregateEc_congr ?_
    rw [outcomes, outcomes, map_map, map_map]
    exact map_congr_left fun i _ => (hsame i).failed.symm
  · rw [outcomes, outcomes, map_map, map_map]
    exact map_congr_left fun i _ => congrArg firstError (hsame i).codes.symm

/-- One shard with room for one entry, which is taken. -/
def fullIndexer : LocalIndexer where
  config := { maxKeyCount := 8, batchKeySize := 8, shardNum := 1, shardOf := fun _ => 0 }
  cache :=
    { layout := ⟨1, 1, 1, 1, 1, 1⟩, shardOf := fun _ => 0, capacity := 20
      table := (∅ : AList fun _ : KeyType => LruItem).insert 1
        ⟨⟨(∅ : CacheLocationMap).insert "a" { id := "a", type := .nfs }, ∅⟩, 10⟩
      refs := fun _ => 0, usage := fun _ => 10 }
  keyCount := 1

def mergeInto (id : LocationId) : MergeTask :=
  { locationId := id, type := .nfs, status := .serving, specs := [⟨"s", "file://h/p?size=4"⟩] }

/-- The stored key grows in place, and leaves no room for the new one. -/
theorem batchMergeVia_full_shard :
    fullIndexer.batchMergeVia .single {} [1, 2] [[mergeInto "a"], [mergeInto "a"]]
        = fullIndexer.batchMergeVia .target {} [1, 2] [[mergeInto "a"], [mergeInto "a"]]
      ∧ (fullIndexer.batchMergeVia .single {} [1, 2] [[mergeInto "a"], [mergeInto "a"]]).2
        = (.partialOk, [.ok, .nospc]) :=
  ⟨batchMergeVia_single_eq_target fullIndexer {} [1, 2] [[mergeInto "a"], [mergeInto "a"]]
    (by decide), by decide +kernel⟩

end LocalIndexer

end TairKvCache
