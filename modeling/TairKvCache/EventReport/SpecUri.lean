import TairKvCache.EventReport.SnapshotUri

/-!
# The URI of a reported spec

`ReportEvent` checks the URI of every spec before it asks for a generation
token and appends the token afterwards. A URI in the form
`StandardUri::ToUriString` prints is checked by a scan and gets the token by
a textual insertion; any other one goes through `StandardUri`
(`ValidateEventLocationSpec` and `ValidatedEventLocationSpec` of
`manager/cache_manager.cc`, `data_storage/snapshot_uri_utils.h`).
-/

namespace TairKvCache

namespace StandardUri

def hasParam (u : StandardUri) (key : String) : Bool := (u.params.lookup key).isSome

/-- The text before the query: what `ToUriString` prints first. -/
def printHead (u : StandardUri) : String :=
  u.protocol ++ "://" ++ (if u.userInfo = "" then "" else u.userInfo ++ "@") ++ u.hostname
    ++ (if u.port > 0 then ":" ++ toString u.port else "") ++ u.path

def printParam (p : String × String) : String := p.1 ++ "=" ++ p.2

/-- `ToUriStringWithExtraParam`; the empty string refuses. -/
def toUriStringWithExtraParam (u : StandardUri) (key value : String) : String :=
  if !u.valid || key = "" || u.hasParam key then ""
  else u.printHead ++ "?" ++ "&".intercalate ((setParam u.params key value).map printParam)

end StandardUri

namespace SnapshotUri

def snapshotVersionParam : String := "s_version"

/-! ## The scan of a canonical URI -/

structure CanonicalSnapshotUriAppendInfo where
  insertionOffset : Nat
  size : Nat := 0
  hasQuery : Bool := false
deriving DecidableEq, Repr

/-- The port of a canonical URI: decimal, positive, without leading zeros. -/
def canonicalPort (host : List Char) : Bool :=
  match StandardUri.splitAt? ':' host with
  | none => true
  | some (_, port) =>
    port.head? ≠ some '0' && (StandardUri.parseBelow (2 ^ 63) port).isSome

/-- User info and host of a canonical URI. -/
def canonicalAuthority (authority : List Char) : Bool :=
  match StandardUri.splitAt? '@' authority with
  | none => canonicalPort authority
  | some (userInfo, host) => !userInfo.isEmpty && canonicalPort host

/-- The query scan: `previous` is the key before, `start` the position of the
segment. Keys are explicit, ascending and not the version's own. -/
def scanCanonicalQuery (info : CanonicalSnapshotUriAppendInfo) (atEnd : Bool)
    (previous : Option String) (start : Nat) :
    List (List Char) → Option CanonicalSnapshotUriAppendInfo
  | [] => some info
  | seg :: segs =>
    match StandardUri.splitAt? '=' seg with
    | none => none
    | some (keyText, value) =>
      let key := String.ofList keyText
      if previous.any (fun p => !decide (p < key)) || key = snapshotVersionParam then none
      else
        let here := atEnd && decide (snapshotVersionParam < key)
        let info := if here then { info with insertionOffset := start } else info
        let info := if key = "size" then
            { info with size := (StandardUri.parseBelow (2 ^ 64) value).getD info.size }
          else info
        scanCanonicalQuery info (atEnd && !here) (some key) (start + seg.length + 1) segs

def parseCanonicalUriForSnapshotAppend (uri : String) : Option CanonicalSnapshotUriAppendInfo :=
  match StandardUri.splitProtocol uri.toList with
  | none => none
  | some (protocol, rest) =>
    let head := rest.takeWhile (· ≠ '?')
    -- a path that starts after the query is not canonical
    if protocol.isEmpty || (head.all (· ≠ '/') && rest.contains '/') then none
    else if !canonicalAuthority (rest.takeWhile fun c => c ≠ '/' ∧ c ≠ '?') then none
    else
      let length := uri.toList.length
      match StandardUri.splitAt? '?' rest with
      | none => some { insertionOffset := length }
      | some (_, query) =>
        scanCanonicalQuery { insertionOffset := length, hasQuery := true } true none
          (length - query.length) (query.splitOn '&')

def addPrevalidatedSnapshotVersionToCanonicalUri (uri : String)
    (info : CanonicalSnapshotUriAppendInfo) (version : String) : Option String :=
  let text := uri.toList
  if info.insertionOffset > text.length then none
  else if info.insertionOffset = text.length then
    some (uri ++ (if info.hasQuery then "&" else "?") ++ snapshotVersionParam ++ "=" ++ version)
  else
    some (String.ofList (text.take info.insertionOffset) ++ snapshotVersionParam ++ "=" ++ version
      ++ "&" ++ String.ofList (text.drop info.insertionOffset))

end SnapshotUri

namespace EventReport

open SnapshotUri

/-! ## Validated specs -/

/-- `ValidatedEventLocationSpec`: `canonical` when the scan accepted the URI. -/
structure ValidatedEventLocationSpec where
  name : String
  rawUri : String
  size : Nat
  canonical : Option CanonicalSnapshotUriAppendInfo
deriving DecidableEq, Repr

def validateEventLocationSpec (spec : LocationSpec) : Option ValidatedEventLocationSpec :=
  if spec.name = "" then none
  else match parseCanonicalUriForSnapshotAppend spec.uri with
    | some info => some ⟨spec.name, spec.uri, info.size, some info⟩
    | none =>
      let uri := StandardUri.parse spec.uri
      -- `HasEventReportInternalUriMetadata`
      if !uri.valid || uri.hasParam snapshotVersionParam then none
      else some ⟨spec.name, spec.uri, uri.getParamAs "size" 0, none⟩

namespace ValidatedEventLocationSpec

/-- `AddPrevalidatedSnapshotVersion`: the spec with its versioned URI. -/
def addPrevalidatedSnapshotVersion (spec : ValidatedEventLocationSpec) (version : String) :
    Option LocationSpec :=
  let uri := match spec.canonical with
    | some info => addPrevalidatedSnapshotVersionToCanonicalUri spec.rawUri info version
    | none =>
      let uri := (StandardUri.parse spec.rawUri).toUriStringWithExtraParam snapshotVersionParam
        version
      if uri = "" then none else some uri
  uri.map fun uri => ⟨spec.name, uri⟩

theorem add_name {spec : ValidatedEventLocationSpec} {version : String} {out : LocationSpec}
    (h : spec.addPrevalidatedSnapshotVersion version = some out) : out.name = spec.name := by
  obtain ⟨uri, -, rfl⟩ := Option.map_eq_some_iff.mp h
  rfl

end ValidatedEventLocationSpec

theorem validate_name {spec : LocationSpec} {out : ValidatedEventLocationSpec}
    (h : validateEventLocationSpec spec = some out) : out.name = spec.name := by
  unfold validateEventLocationSpec at h
  split at h
  · cases h
  · split at h
    · rw [← Option.some.inj h]
    · dsimp only at h
      split at h
      · cases h
      · rw [← Option.some.inj h]

end EventReport

end TairKvCache
