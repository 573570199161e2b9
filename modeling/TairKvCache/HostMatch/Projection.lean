import TairKvCache.EventReport.SnapshotUri
import TairKvCache.Lib.OrdMap
import TairKvCache.Lib.SortedVec

/-!
# Projecting stored locations on hosts

`VisitHostSpecsForOneKey` (`manager/meta_searcher.cc`): what the locations of
one key say about the hosts that hold its data. Both host queries and both of
their paths read the metadata through it, with two kinds of visit: with the
names of the specs, and with the hosts only. The second visits exactly the
hosts of the first (`mem_hosts_iff`).
-/

namespace TairKvCache

open List

def StandardUri.getHostPort (u : StandardUri) : String :=
  if u.port > 0 then u.hostname ++ ":" ++ toString u.port else u.hostname

namespace HostMatch

/-! ## Queries -/

structure HostCacheLocationInfo where
  hasReporterIdentity : Bool := false
  reporterMedium : String := ""
  reporterHost : String := ""
deriving DecidableEq, Repr

/-- What the two host queries share of their arguments, with the searcher's own
existence check. -/
structure HostQuery where
  keys : List KeyType
  useEaglePop : Bool := false
  mediumFilter : List String := []
  checkLocDataExist : Option (CacheLocation → Bool) := none
  requestCheckLocation : Option (CacheLocation → Option HostCacheLocationInfo) := none

/-- The stored metadata as a batched read returns it: the code of a key and,
under `EC_OK`, its locations. -/
structure StoredValues where
  read : KeyType → ErrorCode × List CacheLocation

/-! ## Visiting one location -/

structure HostVisit where
  host : String
  specName : String
  isVineyard : Bool
deriving DecidableEq, Repr

/-- The admission of a location: the request's checker, else the searcher's. -/
def HostQuery.admitLocation (q : HostQuery) (loc : CacheLocation) : Option HostCacheLocationInfo :=
  match q.requestCheckLocation with
  | some check => check loc
  | none =>
    match q.checkLocDataExist with
    | some exist => if exist loc then some {} else none
    | none => some {}

def isMediumMatched (uri : StandardUri) (mediums : List String) : Bool :=
  mediums.isEmpty || mediums.contains
    (match uri.path.toList with
      | '/' :: rest => String.ofList rest
      | _ => uri.path)

def isReporterMediumMatched (medium : String) (mediums : List String) : Bool :=
  mediums.isEmpty || mediums.contains medium

/-- Medium and host of the reporter: the checker's, else those of the id. -/
def reporterIdentity (loc : CacheLocation) (info : HostCacheLocationInfo) :
    Option (String × String) :=
  if !isEventReportStorageType loc.type then none
  else if info.hasReporterIdentity then some (info.reporterMedium, info.reporterHost)
  else (SnapshotUri.parseEventReportLocationId loc.id).map (·.2)

/-- The visits of a reported location. `validated` says that the checker has
scanned every URI. -/
def visitReported (visitSpecNames validated isVineyard : Bool) (host : String)
    (specs : List LocationSpec) : List HostVisit :=
  let usable := specs.filter fun spec => validated || (StandardUri.parse spec.uri).valid
  if visitSpecNames then usable.map fun spec => ⟨host, spec.name, isVineyard⟩
  else if usable.isEmpty then [] else [⟨host, "", isVineyard⟩]

def visitSpec (mediums : List String) (spec : LocationSpec) : Option HostVisit :=
  let uri := StandardUri.parse spec.uri
  if !uri.valid || !isMediumMatched uri mediums then none
  else if uri.getHostPort = "" then none
  else some ⟨uri.getHostPort, spec.name, false⟩

def visitLocation (q : HostQuery) (visitSpecNames : Bool) (loc : CacheLocation) :
    List HostVisit :=
  if loc.status ≠ .serving || loc.locationSpecs.isEmpty then []
  else
    match q.admitLocation loc with
    | none => []
    | some info =>
      match reporterIdentity loc info with
      | some (medium, host) =>
        if !isReporterMediumMatched medium q.mediumFilter || host = "" then []
        else visitReported visitSpecNames
          (q.requestCheckLocation.isSome && isEventReportStorageType loc.type
            && info.hasReporterIdentity)
          (loc.type = .eventReportL2) host loc.locationSpecs
      | none => loc.locationSpecs.filterMap (visitSpec q.mediumFilter)

def visitHostSpecsForOneKey (q : HostQuery) (visitSpecNames : Bool)
    (locations : List CacheLocation) : List HostVisit :=
  locations.flatMap (visitLocation q visitSpecNames)

def hostsAt (q : HostQuery) (locations : List CacheLocation) : List String :=
  (visitHostSpecsForOneKey q false locations).map (·.host)

def specNamesAt (q : HostQuery) (locations : List CacheLocation) (host : String) : Finset String :=
  (((visitHostSpecsForOneKey q true locations).filter fun v => v.host = host).map
    (·.specName)).toFinset

theorem mem_hosts_visitReported (validated isVineyard : Bool) (host x : String)
    (specs : List LocationSpec) :
    x ∈ (visitReported false validated isVineyard host specs).map (·.host) ↔
      x ∈ (visitReported true validated isVineyard host specs).map (·.host) := by
  simp only [visitReported]
  generalize specs.filter (fun spec => validated || (StandardUri.parse spec.uri).valid) = usable
  cases usable with
  | nil => simp
  | cons spec usable =>
    simp only [Bool.false_eq_true, if_false, if_true, isEmpty_cons, map_cons,
      map_nil, map_map, mem_cons, not_mem_nil, or_false, mem_map,
      Function.comp_apply]
    constructor
    · exact .inl
    · rintro (h | ⟨_, _, h⟩)
      · exact h
      · exact h.symm

theorem mem_hosts_visitLocation (q : HostQuery) (loc : CacheLocation) (x : String) :
    x ∈ (visitLocation q false loc).map (·.host) ↔
      x ∈ (visitLocation q true loc).map (·.host) := by
  unfold visitLocation
  split
  · rfl
  · split
    · rfl
    · split
      · split
        · rfl
        · exact mem_hosts_visitReported ..
      · rfl

theorem mem_hosts_iff (q : HostQuery) (locations : List CacheLocation) (x : String) :
    x ∈ hostsAt q locations ↔
      ∃ v ∈ visitHostSpecsForOneKey q true locations, v.host = x := by
  rw [hostsAt, ← mem_map]
  simp only [visitHostSpecsForOneKey, map_flatMap, mem_flatMap, mem_hosts_visitLocation]

theorem specNamesAt_nonempty_iff (q : HostQuery) (locations : List CacheLocation) (x : String) :
    (specNamesAt q locations x).Nonempty ↔ x ∈ hostsAt q locations := by
  rw [mem_hosts_iff, specNamesAt, toFinset_nonempty_iff, ne_eq, map_eq_nil_iff,
    filter_eq_nil_iff]
  simp

end HostMatch

end TairKvCache
