import TairKvCache.EventReport.Maintenance

/-!
# The two visibility checkers

`GetCheckLocDataExistFunc` (location queries) and
`GetHostCacheStateCheckLocDataExistFunc` (host cache state) of
`manager/cache_manager.cc` decide whether a stored location may be returned.
For an event-report location both look for the backend that owns its storage
type among the candidates of the instance group and then apply the same
visibility rules. They choose among the candidates by separate code: the
former takes the first *available* candidate of the type, the latter the
first one.
-/

namespace TairKvCache.EventReport

open List EventReportBackend

open SnapshotUri

/-! ## The registry -/

structure InstanceGroup where
  eventReportStorageCandidates : List String
deriving DecidableEq, Repr

/-- An entry of `DataStorageManager::storage_map_`: what its `MightExist`
answers, and the event-report backend it is, if it is one. `RegisterStorage`
keeps only what it could open, an event-report backend opens only under an
event-report type, and one that is closed is retired. -/
structure DataStorage where
  mightExist : List StandardUri → List Bool
  eventReport : Option EventReportBackend
  opened : ∀ b ∈ eventReport, isEventReportStorageType b.type = true ∧
    (b.isOpen = true ∨ b.retired = true)

/-- `RegistryManager` with its `DataStorageManager`. A group has a name
(`InstanceGroup::ValidateRequiredFields`). -/
structure RegistryManager where
  instanceInfos : AList (fun _ : String => String)
  instanceGroupConfigs : AList (fun _ : String => InstanceGroup)
  storageMap : AList (fun _ : String => DataStorage)
  named : instanceGroupConfigs.lookup "" = none

namespace RegistryManager

def getInstanceGroupName (registry : RegistryManager) (instanceId : String) : String :=
  (registry.instanceInfos.lookup instanceId).getD ""

def getInstanceGroupConfig (registry : RegistryManager) (name : String) : Option InstanceGroup :=
  registry.instanceGroupConfigs.lookup name

/-- `GetDataStorageBackend` and the cast to an `EventReportBackend`. -/
def eventReportBackend (registry : RegistryManager) (name : String) : Option EventReportBackend :=
  (registry.storageMap.lookup name).bind (·.eventReport)

/-- `DataStorageManager::Exist` on its fast path. -/
def mightExist (registry : RegistryManager) (name : String) (uris : List StandardUri) : List Bool :=
  match registry.storageMap.lookup name with
  | none => []
  | some storage => storage.mightExist uris

end RegistryManager

/-! ## Location queries -/

/-- `LookupEventReportBackend`; `none` stands for a missing registry or
storage manager. -/
def lookupEventReportBackend (registry : Option RegistryManager) (instanceId : String)
    (requestedType : DataStorageType) (requireAvailable : Bool := false) :
    Option EventReportBackend :=
  match registry with
  | none => none
  | some registry =>
    if !isEventReportStorageType requestedType then none
    else
      let groupName := registry.getInstanceGroupName instanceId
      if groupName = "" then none
      else match registry.getInstanceGroupConfig groupName with
        | none => none
        | some group =>
          group.eventReportStorageCandidates.findSome? fun name =>
            (registry.eventReportBackend name).filter fun b =>
              b.type = requestedType && (!requireAvailable || b.available)

def getCheckLocDataExistFunc (registry : Option RegistryManager) (instanceId : String)
    (loc : CacheLocation) : Bool :=
  match registry with
  | none => true
  | some manager =>
    if isEventReportStorageType loc.type then
      match lookupEventReportBackend registry instanceId loc.type true with
      | none => false
      | some b => loc.type = b.type && b.readable instanceId loc
    else
      match (loc.locationSpecs.map fun spec => StandardUri.parse spec.uri).filter (·.valid) with
      | [] => true
      | uri :: uris =>
        let result := manager.mightExist uri.hostname (uri :: uris)
        result.length = (uri :: uris).length && result.all id

/-! ## Host cache state -/

structure QueryVisibilityState where
  strict : Bool := false
  committedVersion : String := ""
deriving DecidableEq, Repr

namespace EventReportBackend

/-- `GetQueryVisibilitySnapshot`: every reporter of the instance that can be
queried, by its host. -/
def getQueryVisibilitySnapshot (b : EventReportBackend) (instanceId : String) :
    List (String × QueryVisibilityState) :=
  if !b.acceptingReports then []
  else b.reporters.entries.filterMap fun ⟨key, r⟩ =>
    if key.instanceId ≠ instanceId then none
    else match r.node with
      | none => none
      | some info =>
        if !info.available then none
        else
          let state := r.snapshot.getD {}
          some (key.hostIpPort, ⟨state.strictQueryVisibility, state.committed⟩)

end EventReportBackend

structure EventVisibilitySnapshot where
  backend : EventReportBackend
  reporters : List (String × QueryVisibilityState)

structure HostCacheLocationInfo where
  hasReporterIdentity : Bool := false
  reporterMedium : String := ""
  reporterHost : String := ""
deriving DecidableEq, Repr

/-- One candidate of `initialize_event_snapshots`: the first one of its type
stays. -/
def addEventSnapshot (registry : RegistryManager) (instanceId : String)
    (snapshots : AList (fun _ : DataStorageType => EventVisibilitySnapshot)) (name : String) :
    AList (fun _ : DataStorageType => EventVisibilitySnapshot) :=
  match registry.eventReportBackend name with
  | none => snapshots
  | some b =>
    if (snapshots.lookup b.type).isSome then snapshots
    else snapshots.insert b.type ⟨b, b.getQueryVisibilitySnapshot instanceId⟩

def initializeEventSnapshots (registry : Option RegistryManager) (instanceId : String) :
    AList (fun _ : DataStorageType => EventVisibilitySnapshot) :=
  match registry with
  | none => ∅
  | some registry =>
    match registry.getInstanceGroupConfig (registry.getInstanceGroupName instanceId) with
    | none => ∅
    | some group =>
      group.eventReportStorageCandidates.foldl (addEventSnapshot registry instanceId) ∅

/-- The function `GetHostCacheStateCheckLocDataExistFunc` returns, on the
snapshots of its first call. -/
def getHostCacheStateCheckLocDataExistFunc (registry : Option RegistryManager) (instanceId : String)
    (location : CacheLocation) : Bool × HostCacheLocationInfo :=
  if !isEventReportStorageType location.type then
    (getCheckLocDataExistFunc registry instanceId location, {})
  else match (initializeEventSnapshots registry instanceId).lookup location.type with
    | none => (false, {})
    | some snapshot =>
      match parseLocationId snapshot.backend.type location.id with
      | none => (false, {})
      | some (medium, host) =>
        match snapshot.reporters.lookup host with
        | none => (false, {})
        | some state =>
          if isEventReportLocationReadable location state.strict state.committedVersion then
            (true, ⟨true, medium, host⟩)
          else (false, {})

/-! ## The owners of a type -/

variable {b : EventReportBackend} {loc : CacheLocation} (registry : RegistryManager)
    (instanceId : String)

namespace RegistryManager

/-- The backends of one type among the candidates of the instance, in order. -/
def owners (registry : RegistryManager) (instanceId : String) (type : DataStorageType) :
    List EventReportBackend :=
  match registry.getInstanceGroupConfig (registry.getInstanceGroupName instanceId) with
  | none => []
  | some group =>
    (group.eventReportStorageCandidates.filterMap registry.eventReportBackend).filter
      (·.type = type)

variable {registry : RegistryManager} {instanceId : String} {type : DataStorageType}

theorem getInstanceGroupConfig_empty : registry.getInstanceGroupConfig "" = none :=
  registry.named

theorem opened_of_eventReportBackend {name : String} (h : registry.eventReportBackend name = some b) :
    isEventReportStorageType b.type = true ∧ (b.isOpen = true ∨ b.retired = true) := by
  obtain ⟨storage, -, hb⟩ := Option.bind_eq_some_iff.mp h
  exact storage.opened b hb

theorem owners_spec (h : b ∈ registry.owners instanceId type) :
    b.type = type ∧ (b.isOpen = true ∨ b.retired = true) := by
  unfold owners at h
  split at h
  · cases h
  · obtain ⟨hb, htype⟩ := mem_filter.mp h
    obtain ⟨name, -, hname⟩ := mem_filterMap.mp hb
    exact ⟨of_decide_eq_true htype, (opened_of_eventReportBackend hname).2⟩

end RegistryManager

/-! ### Which owner each checker takes -/

theorem findSome?_filter {α β : Type*} (f : α → Option β) (p q : β → Bool) (l : List α) :
    l.findSome? (fun a => (f a).filter fun b => p b && q b)
      = ((l.filterMap f).filter p).find? q := by
  induction l with
  | nil => rfl
  | cons a l ih =>
    rw [findSome?_cons, ih, filterMap_cons]
    cases f a with
    | none => rfl
    | some b => cases hp : p b <;> cases hq : q b <;> simp [Option.filter, hp, hq]

theorem lookup_eq_find_owners {type : DataStorageType}
    (htype : isEventReportStorageType type = true) (requireAvailable : Bool) :
    lookupEventReportBackend (some registry) instanceId type requireAvailable
      = (registry.owners instanceId type).find? fun b => !requireAvailable || b.available := by
  simp only [lookupEventReportBackend, htype, Bool.not_true, Bool.false_eq_true, if_false,
    RegistryManager.owners]
  by_cases hname : registry.getInstanceGroupName instanceId = ""
  · simp [hname, RegistryManager.getInstanceGroupConfig_empty]
  · rw [if_neg hname]
    cases registry.getInstanceGroupConfig (registry.getInstanceGroupName instanceId) with
    | none => rfl
    | some group =>
      exact findSome?_filter _ (fun b : EventReportBackend => decide (b.type = type)) _ _

theorem lookup_addEventSnapshots (type : DataStorageType) (names : List String)
    (snapshots : AList (fun _ : DataStorageType => EventVisibilitySnapshot)) :
    (names.foldl (addEventSnapshot registry instanceId) snapshots).lookup type
      = (snapshots.lookup type).or
          (((names.filterMap registry.eventReportBackend).filter (·.type = type)).head?.map
            fun b => ⟨b, b.getQueryVisibilitySnapshot instanceId⟩) := by
  induction names generalizing snapshots with
  | nil => simp
  | cons name names ih =>
    rw [foldl_cons, ih, filterMap_cons, addEventSnapshot]
    cases registry.eventReportBackend name with
    | none => rfl
    | some b =>
      rcases eq_or_ne b.type type with rfl | htype
      · cases hl : snapshots.lookup b.type <;> simp [hl]
      · have hne : type ≠ b.type := fun h => htype h.symm
        cases hl : snapshots.lookup b.type <;> simp [hl, htype, AList.lookup_insert_ne hne]

theorem lookup_initializeEventSnapshots (type : DataStorageType) :
    (initializeEventSnapshots (some registry) instanceId).lookup type
      = (registry.owners instanceId type).head?.map
          fun b => ⟨b, b.getQueryVisibilitySnapshot instanceId⟩ := by
  unfold initializeEventSnapshots RegistryManager.owners
  dsimp only
  cases registry.getInstanceGroupConfig (registry.getInstanceGroupName instanceId) with
  | none => rfl
  | some group => rw [lookup_addEventSnapshots]; simp

/-! ### The snapshot of the reporters -/

theorem lookup_filterMap_entries {β : Type*} (host : String) (g : Reporter → Option β)
    {l : List (Sigma fun _ : ReporterSnapshotKey => Reporter)} (hl : l.NodupKeys) :
    (l.filterMap fun e => if e.1.instanceId ≠ instanceId then none
        else (g e.2).map fun s => (e.1.hostIpPort, s)).lookup host
      = (l.dlookup ⟨instanceId, host⟩).bind g := by
  induction l with
  | nil => rfl
  | cons e l ih =>
    obtain ⟨key, r⟩ := e
    obtain ⟨hfresh, htail⟩ := nodupKeys_cons.mp hl
    rw [filterMap_cons]
    by_cases hkey : key = ⟨instanceId, host⟩
    · -- the entry of the host: a dropped one must not hide a later one
      subst hkey
      have hnone : l.dlookup ⟨instanceId, host⟩ = none := dlookup_eq_none.mpr hfresh
      cases hg : g r with
      | none =>
        simp only [ne_eq, not_true_eq_false, if_false, hg, Option.map_none,
          dlookup_cons_eq, Option.bind_some]
        rw [ih htail, hnone, Option.bind_none]
      | some s => simp [hg]
    · rw [dlookup_cons_ne _ _ (Ne.symm hkey), ← ih htail]
      by_cases hinst : key.instanceId = instanceId
      · have hhost : host ≠ key.hostIpPort := by
          rintro rfl
          exact hkey (by rw [← hinst])
        cases hg : g r with
        | none => simp [hinst]
        | some s =>
          have hbeq : (host == key.hostIpPort) = false := by simpa using hhost
          simp [hinst, lookup_cons, hbeq]
      · simp [hinst]

namespace Reporter

/-- What a query snapshot keeps of a reporter. -/
def visibility (r : Reporter) : Option QueryVisibilityState :=
  (r.getQueryVisibilityState true).map fun (strict, committed) => ⟨strict, committed⟩

end Reporter

namespace EventReportBackend

/-- A host is in the snapshot with the state a single query would see. -/
theorem lookup_getQueryVisibilitySnapshot (b : EventReportBackend) (instanceId host : String) :
    (b.getQueryVisibilitySnapshot instanceId).lookup host
      = ((b.reporter ⟨instanceId, host⟩).getQueryVisibilityState b.acceptingReports).map
          fun (strict, committed) => ⟨strict, committed⟩ := by
  cases hacc : b.acceptingReports with
  | false => simp [getQueryVisibilitySnapshot, hacc, Reporter.getQueryVisibilityState]
  | true =>
    have hsame : b.getQueryVisibilitySnapshot instanceId
        = b.reporters.entries.filterMap fun e =>
            if e.1.instanceId ≠ instanceId then none
            else e.2.visibility.map fun s => (e.1.hostIpPort, s) := by
      rw [getQueryVisibilitySnapshot, hacc]
      refine filterMap_congr fun e _ => ?_
      by_cases hinst : e.1.instanceId = instanceId
      · cases hnode : e.2.node with
        | none => simp [hinst, hnode, Reporter.visibility, Reporter.getQueryVisibilityState]
        | some info =>
          cases hav : info.available <;>
            simp [hinst, hnode, hav, Reporter.visibility, Reporter.getQueryVisibilityState]
      · simp [hinst]
    rw [hsame, lookup_filterMap_entries _ _ _ b.reporters.nodupKeys]
    change (b.reporters.lookup ⟨instanceId, host⟩).bind Reporter.visibility = _
    unfold reporter
    cases b.reporters.lookup ⟨instanceId, host⟩ <;> rfl

end EventReportBackend

/-! ### What the checkers answer -/

theorem getCheckLocDataExistFunc_eq (htype : isEventReportStorageType loc.type = true) :
    getCheckLocDataExistFunc (some registry) instanceId loc
      = ((registry.owners instanceId loc.type).find? (·.available)).any
          (·.readable instanceId loc) := by
  simp only [getCheckLocDataExistFunc, htype, if_true, lookup_eq_find_owners registry _ htype,
    Bool.not_true, Bool.false_or]
  cases hfind : (registry.owners instanceId loc.type).find? (·.available) with
  | none => rfl
  | some b =>
    have hb := (RegistryManager.owners_spec (mem_of_find?_eq_some hfind)).1
    simp [hb]

theorem getHostCacheStateCheckLocDataExistFunc_eq
    (htype : isEventReportStorageType loc.type = true) :
    (getHostCacheStateCheckLocDataExistFunc (some registry) instanceId loc).1
      = (registry.owners instanceId loc.type).head?.any (·.readable instanceId loc) := by
  simp only [getHostCacheStateCheckLocDataExistFunc, htype, Bool.not_true, Bool.false_eq_true,
    if_false, lookup_initializeEventSnapshots]
  cases (registry.owners instanceId loc.type).head? with
  | none => rfl
  | some b =>
    simp only [Option.map_some, Option.any_some, readable]
    cases parseLocationId b.type loc.id with
    | none => rfl
    | some ids =>
      obtain ⟨medium, host⟩ := ids
      dsimp only
      rw [b.lookup_getQueryVisibilitySnapshot]
      cases (b.reporter ⟨instanceId, host⟩).getQueryVisibilityState b.acceptingReports with
      | none => rfl
      | some state =>
        obtain ⟨strict, committed⟩ := state
        dsimp only [Option.map_some]
        cases isEventReportLocationReadable loc strict committed <;> rfl

/-! ## When they agree -/

def uriOf (token : String) : String := "a://b?s_version=" ++ token

theorem amp_not_mem_token {token : String} (h : isValidSnapshotVersionToken token = true) :
    '&' ∉ token.toList := by
  simp only [isValidSnapshotVersionToken, Bool.and_eq_true, all_eq_true] at h
  intro hmem
  exact absurd (h.2 _ hmem) (by decide)

theorem inspect_uriOf {token : String} (h : isValidSnapshotVersionToken token = true)
    (prevalidated : Bool) :
    inspectSnapshotUriForVisibility (uriOf token) prevalidated = some token := by
  refine inspect_prevalidated ?_ prevalidated
  have hlist : (uriOf token).toList = "a://b?s_version=".toList ++ token.toList := by
    simp [uriOf]
  have hquery : inspectQuery ("s_version=".toList ++ token.toList) = some token := by
    have hamp : '&' ∉ "s_version=".toList ++ token.toList := by
      rw [mem_append, not_or]
      exact ⟨by decide, amp_not_mem_token h⟩
    have hseg : versionSegment ("s_version=".toList ++ token.toList) = some (some token.toList) := by
      rfl
    simp only [inspectQuery, splitOn_eq_singleton hamp, filterMap_cons, hseg,
      filterMap_nil, String.ofList_toList, h, if_true]
  unfold inspectSnapshotUriForVisibility
  rw [hlist]
  exact hquery

namespace EventReportBackend

/-- Some location of the instance is readable: a live reporter with a
nameable host, which answers softly or has a generation to point at. -/
def Serves (b : EventReportBackend) (instanceId : String) : Prop :=
  ∃ host strict committed, isValidLocationIdComponent host = true ∧
    (b.reporter ⟨instanceId, host⟩).getQueryVisibilityState b.acceptingReports
      = some (strict, committed) ∧
    (strict = true → isValidSnapshotVersionToken committed = true)

theorem not_readable_of_not_accepting (h : b.acceptingReports = false) (instanceId : String)
    (loc : CacheLocation) : b.readable instanceId loc = false := by
  unfold readable
  split
  · rfl
  · simp [Reporter.getQueryVisibilityState, h]

theorem not_accepting_of_not_available (hopened : b.isOpen = true ∨ b.retired = true)
    (h : b.available = false) : b.acceptingReports = false := by
  unfold available at h
  unfold acceptingReports
  rcases hopened with ho | hr
  · simp_all
  · simp [hr]

theorem readable_iff {instanceId : String} :
    b.readable instanceId loc = true ↔ ∃ medium host strict committed,
      parseLocationId b.type loc.id = some (medium, host) ∧
      (b.reporter ⟨instanceId, host⟩).getQueryVisibilityState b.acceptingReports
        = some (strict, committed) ∧
      isEventReportLocationReadable loc strict committed = true := by
  unfold readable
  constructor
  · intro h
    split at h
    · cases h
    · rename_i medium host hparse
      split at h
      · cases h
      · exact ⟨medium, host, _, _, hparse, ‹_›, h⟩
  · rintro ⟨medium, host, strict, committed, hparse, hstate, hread⟩
    simp only [hparse, hstate, hread]

/-- A location that is readable in strict mode names a token. -/
theorem token_of_readable {committed : String}
    (h : isEventReportLocationReadable loc true committed = true) :
    isValidSnapshotVersionToken committed = true := by
  simp only [isEventReportLocationReadable, Bool.not_true, Bool.false_or, Bool.and_eq_true,
    any_eq_true, mem_map] at h
  obtain ⟨-, version, ⟨spec, -, hinspect⟩, hversion⟩ := h
  cases hv : version with
  | none => simp [hv] at hversion
  | some v =>
    simp only [hv, ne_eq, decide_not, Bool.and_eq_true, Bool.not_eq_true',
      decide_eq_false_iff_not, decide_eq_true_eq] at hversion
    rw [← hversion.2]
    exact inspect_token (hinspect.trans hv) hversion.1

/-- A location of the type that the backend finds readable. -/
def servedLocation (type : DataStorageType) (host : String) (strict : Bool) (committed : String) :
    CacheLocation :=
  { id := buildLocationId type "cpu" host, type
    locationSpecs := [⟨"tp0", if strict then uriOf committed else "a://b"⟩] }

theorem serves_iff (htype : isEventReportStorageType b.type = true) {instanceId : String} :
    b.Serves instanceId ↔
      ∃ loc : CacheLocation, loc.type = b.type ∧ b.readable instanceId loc = true := by
  constructor
  · rintro ⟨host, strict, committed, hhost, hstate, htoken⟩
    refine ⟨servedLocation b.type host strict committed, rfl, readable_iff.mpr
      ⟨"cpu", host, strict, committed, parse_buildLocationId htype (by decide) hhost, hstate, ?_⟩⟩
    cases strict with
    | false =>
      have hplain : ∀ p, inspectSnapshotUriForVisibility "a://b" p = some "" :=
        inspect_prevalidated (by decide)
      simp [isEventReportLocationReadable, servedLocation, hplain]
    | true =>
      have hne : committed ≠ "" := by
        rintro rfl
        exact absurd (htoken rfl) (by decide)
      simp [isEventReportLocationReadable, servedLocation, inspect_uriOf (htoken rfl), hne]
  · rintro ⟨loc, -, hread⟩
    obtain ⟨medium, host, strict, committed, hparse, hstate, hvisible⟩ := readable_iff.mp hread
    refine ⟨host, strict, committed, parseLocationId_host hparse, hstate, ?_⟩
    rintro rfl
    exact token_of_readable hvisible

end EventReportBackend

/-- The choice among the owners of one type: an unavailable first owner shows
nothing, so the checkers differ on what the first available one shows. -/
theorem agree_on_type {owners : List EventReportBackend} {type : DataStorageType}
    (htype : isEventReportStorageType type = true)
    (hspec : ∀ b ∈ owners, b.type = type ∧ (b.isOpen = true ∨ b.retired = true))
    (instanceId : String) : (∀ loc : CacheLocation, loc.type = type →
      owners.head?.any (·.readable instanceId loc)
        = (owners.find? (·.available)).any (·.readable instanceId loc)) ↔
    ∀ first ∈ owners.head?, ∀ winner ∈ owners.find? (·.available),
      first.available = true ∨ ¬ winner.Serves instanceId := by
  cases owners with
  | nil => simp
  | cons b rest =>
    cases hav : b.available with
    | true => simp [hav]
    | false =>
      have hshow : ∀ loc, b.readable instanceId loc = false :=
        not_readable_of_not_accepting
          (not_accepting_of_not_available
            (hspec b mem_cons_self).2 hav) instanceId
      simp only [head?_cons, Option.any_some, hshow, find?_cons, hav,
        Option.mem_def, Option.some.injEq, forall_eq', Bool.false_eq_true, false_or]
      cases hfind : rest.find? (·.available) with
      | none => simp
      | some winner =>
        obtain ⟨rfl, -⟩ := hspec winner
          (mem_cons_of_mem _ (mem_of_find?_eq_some hfind))
        simp only [Option.any_some, Option.some.injEq, forall_eq',
          serves_iff htype, not_exists, not_and, Bool.not_eq_true]
        exact forall₂_congr fun _ _ => eq_comm

/-- The two checkers agree on every event-report location exactly when, for
each type, the first candidate is available, or no candidate is, or the first
available one has nothing to show for the instance. -/
theorem visibility_checkers_agree (registry : RegistryManager) (instanceId : String) :
    (∀ location : CacheLocation, isEventReportStorageType location.type = true →
      (getHostCacheStateCheckLocDataExistFunc (some registry) instanceId location).1
        = getCheckLocDataExistFunc (some registry) instanceId location) ↔
    ∀ type, isEventReportStorageType type = true →
      ∀ first ∈ lookupEventReportBackend (some registry) instanceId type,
      ∀ winner ∈ lookupEventReportBackend (some registry) instanceId type true,
        first.available = true ∨ ¬ winner.Serves instanceId := by
  have hchoice : ∀ type, isEventReportStorageType type = true →
      ((∀ loc : CacheLocation, loc.type = type →
        (getHostCacheStateCheckLocDataExistFunc (some registry) instanceId loc).1
          = getCheckLocDataExistFunc (some registry) instanceId loc) ↔
      ∀ first ∈ lookupEventReportBackend (some registry) instanceId type,
      ∀ winner ∈ lookupEventReportBackend (some registry) instanceId type true,
        first.available = true ∨ ¬ winner.Serves instanceId) := by
    intro type htype
    have hspec : ∀ b ∈ registry.owners instanceId type,
        b.type = type ∧ (b.isOpen = true ∨ b.retired = true) :=
      fun _ => RegistryManager.owners_spec
    have hagree := agree_on_type htype hspec instanceId
    have hfirst : ∀ l : List EventReportBackend,
        l.find? (fun b => !false || b.available) = l.head? := by
      intro l
      cases l <;> simp
    have hwinner : ∀ l : List EventReportBackend,
        l.find? (fun b => !true || b.available) = l.find? (·.available) := by
      intro l
      simp
    rw [lookup_eq_find_owners registry instanceId htype, hfirst,
      lookup_eq_find_owners registry instanceId htype, hwinner, ← hagree]
    refine forall₂_congr fun loc hloc => ?_
    subst hloc
    rw [getHostCacheStateCheckLocDataExistFunc_eq registry instanceId htype,
      getCheckLocDataExistFunc_eq registry instanceId htype]
  constructor
  · intro h type htype
    exact (hchoice type htype).mp fun loc hloc => h loc (hloc ▸ htype)
  · intro h loc hloc
    exact (hchoice loc.type hloc).mpr (h loc.type hloc) loc rfl

/-- A storage that is an event-report backend of the second tier. -/
def tierTwo (isAvailable : Bool)
    (reporters : AList (fun _ : ReporterSnapshotKey => Reporter) := ∅) : DataStorage where
  mightExist uris := uris.map fun _ => false
  eventReport := some
    { type := .eventReportL2, isOpen := true, isAvailable, heartbeatTimeoutMs := 10
      cleanupGraceMs := 10, snapshotMinIntervalMs := 0, reporters }
  opened := by
    rintro b hb
    obtain rfl := Option.some.inj hb
    exact ⟨rfl, Or.inl rfl⟩

/-- Two storages of one type: the first is disabled, the second has a live
reporter. -/
def failedOver : RegistryManager where
  instanceInfos := (∅ : AList _).insert "i" "g"
  instanceGroupConfigs := (∅ : AList _).insert "g" ⟨["old", "new"]⟩
  storageMap := ((∅ : AList _).insert "old" (tierTwo false)).insert "new" (tierTwo true
    ((∅ : AList _).insert ⟨"i", "h"⟩ { node := some { lastHeartbeatMs := 1 } }))
  named := by decide

/-- The location query shows the new owner's location, the host cache state
does not. -/
theorem visibility_checkers_differ : getCheckLocDataExistFunc (some failedOver) "i"
        (servedLocation .eventReportL2 "h" false "") = true ∧
      (getHostCacheStateCheckLocDataExistFunc (some failedOver) "i"
        (servedLocation .eventReportL2 "h" false "")).1 = false := by
  decide

end TairKvCache.EventReport
