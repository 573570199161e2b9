import TairKvCache.Types

/-!
# Snapshot versions in URIs and location ids

`data_storage/snapshot_uri_utils.h`. A reported URI carries the generation
token KVCM gave it as the query parameter `s_version`; the location it
belongs to is named `kvs#<type>#<medium>#<host>`, so the reporter can be read
off the id.

The visibility scan has a flag for URIs whose structure was validated when
they were stored. It only skips the port check: a URI the full scan accepts
is read the same way with the flag (`inspect_prevalidated`).
-/

namespace TairKvCache.SnapshotUri

open StandardUri List

def isValidLocationIdComponent (value : String) : Bool :=
  value ≠ "" && !value.toList.contains '#'

def isAsciiHexDigit (c : Char) : Bool :=
  ('0' ≤ c && c ≤ '9') || ('a' ≤ c && c ≤ 'f') || ('A' ≤ c && c ≤ 'F')

def isValidSnapshotVersionToken (version : String) : Bool :=
  version.length = 32 && version.toList.all isAsciiHexDigit

/-! ## The visibility scan -/

/-- The value of an `s_version` segment of the query; `some none` for one
without a value. -/
def versionSegment (seg : List Char) : Option (Option (List Char)) :=
  match splitAt? '=' seg with
  | some (key, value) => if String.ofList key = "s_version" then some (some value) else none
  | none => if String.ofList seg = "s_version" then some none else none

/-- The generation a query names: empty when it names none, `none` when the
parameter is repeated, has no value or no valid token. -/
def inspectQuery (query : List Char) : Option String :=
  match (query.splitOn '&').filterMap versionSegment with
  | [] => some ""
  | [some value] =>
    if isValidSnapshotVersionToken (String.ofList value) then some (String.ofList value) else none
  | _ => none

/-- The port check of the scan: `StandardUri` would reject the URI without it. -/
def portOk (rest : List Char) : Bool :=
  let authority := rest.takeWhile fun c => c ≠ '/' ∧ c ≠ '?'
  let host := ((splitAt? '@' authority).map (·.2)).getD authority
  (parseHostPort host).isSome

/-- `InspectSnapshotUriForVisibility`: the version (empty for legacy
metadata), or `none` for a malformed URI. -/
def inspectSnapshotUriForVisibility (uri : String) (uriStructurePrevalidated : Bool) :
    Option String :=
  match splitProtocol uri.toList with
  | none => none
  | some (protocol, rest) =>
    if protocol.isEmpty || protocol.contains '?' then none
    else if !uriStructurePrevalidated && !portOk rest then none
    else match splitAt? '?' rest with
      | none => some ""
      | some (_, query) => inspectQuery query

theorem inspect_prevalidated {uri : String} {v : String}
    (h : inspectSnapshotUriForVisibility uri false = some v) (prevalidated : Bool) :
    inspectSnapshotUriForVisibility uri prevalidated = some v := by
  cases prevalidated with
  | false => exact h
  | true =>
    unfold inspectSnapshotUriForVisibility at h ⊢
    cases hp : splitProtocol uri.toList with
    | none => simp [hp] at h
    | some cut =>
      obtain ⟨protocol, rest⟩ := cut
      simp only [hp] at h ⊢
      split at h
      · cases h
      · rename_i hproto
        rw [if_neg hproto]
        split at h
        · cases h
        · exact h

theorem inspectQuery_token {query : List Char} {v : String} (h : inspectQuery query = some v)
    (hv : v ≠ "") : isValidSnapshotVersionToken v = true := by
  unfold inspectQuery at h
  split at h
  · exact absurd (Option.some.inj h).symm hv
  · split at h
    · rename_i htoken
      rwa [← Option.some.inj h]
    · cases h
  · cases h

theorem inspect_token {uri v : String} {prevalidated : Bool}
    (h : inspectSnapshotUriForVisibility uri prevalidated = some v) (hv : v ≠ "") :
    isValidSnapshotVersionToken v = true := by
  unfold inspectSnapshotUriForVisibility at h
  split at h
  · cases h
  · split at h
    · cases h
    · split at h
      · cases h
      · split at h
        · exact absurd (Option.some.inj h).symm hv
        · exact inspectQuery_token h hv

/-! ## Location ids -/

/-- `ToString` of the two event-report storage types. -/
def typeToken : DataStorageType → String
  | .eventReportL1p5 => "event_report_l1p5"
  | .eventReportL2 => "event_report_l2"
  | _ => ""

/-- `ParseEventReportLocationIdView`: storage type, medium and reporter host. -/
def parseEventReportLocationId (locationId : String) : Option (String × String × String) :=
  match locationId.toList.splitOn '#' with
  | [root, type, medium, host] =>
    let type := String.ofList type
    if String.ofList root = "kvs" && (type = "event_report_l1p5" || type = "event_report_l2")
        && !medium.isEmpty && !host.isEmpty then
      some (type, String.ofList medium, String.ofList host)
    else none
  | _ => none

/-- `EventReportBackend::ParseLocationIdView`: medium and host, if the id is
of the backend's own type. -/
def parseLocationId (type : DataStorageType) (locationId : String) : Option (String × String) :=
  match parseEventReportLocationId locationId with
  | none => none
  | some (storageType, medium, host) =>
    if isEventReportStorageType type && storageType = typeToken type then some (medium, host)
    else none

/-- `EventReportBackend::BuildLocationId`. -/
def buildLocationId (type : DataStorageType) (medium hostIpPort : String) : String :=
  if isValidLocationIdComponent medium && isValidLocationIdComponent hostIpPort then
    "kvs#" ++ typeToken type ++ "#" ++ medium ++ "#" ++ hostIpPort
  else ""

/-- An id a backend builds is parsed back to its medium and host. -/
theorem parse_buildLocationId {type : DataStorageType} {medium host : String}
    (htype : isEventReportStorageType type = true)
    (hmedium : isValidLocationIdComponent medium = true)
    (hhost : isValidLocationIdComponent host = true) :
    parseLocationId type (buildLocationId type medium host) = some (medium, host) := by
  have htoken : '#' ∉ (typeToken type).toList ∧
      (typeToken type = "event_report_l1p5" ∨ typeToken type = "event_report_l2") := by
    cases type <;> simp [isEventReportStorageType, typeToken] at htype ⊢
  have hm : '#' ∉ medium.toList ∧ medium.toList ≠ [] := by
    simpa [isValidLocationIdComponent, and_comm] using hmedium
  have hh : '#' ∉ host.toList ∧ host.toList ≠ [] := by
    simpa [isValidLocationIdComponent, and_comm] using hhost
  have hsplit : (buildLocationId type medium host).toList.splitOn '#'
      = ["kvs".toList, (typeToken type).toList, medium.toList, host.toList] := by
    have hlist : (buildLocationId type medium host).toList
        = "kvs".toList ++ '#' :: ((typeToken type).toList ++ '#' ::
            (medium.toList ++ '#' :: host.toList)) := by
      simp [buildLocationId, hmedium, hhost]
    rw [hlist, splitOn_append_cons_self_of_not_mem (by decide),
      splitOn_append_cons_self_of_not_mem htoken.1,
      splitOn_append_cons_self_of_not_mem hm.1, splitOn_eq_singleton hh.1]
  simp only [parseLocationId, parseEventReportLocationId, hsplit]
  rcases htoken.2 with h | h <;> simp [h, hm.2, hh.2, htype]

theorem not_mem_of_mem_splitOn {α : Type*} [BEq α] [LawfulBEq α] {a : α} {l s : List α}
    (h : s ∈ l.splitOn a) : a ∉ s := by
  induction l generalizing s with
  | nil =>
    obtain rfl : s = [] := by simpa using h
    exact not_mem_nil
  | cons x l ih =>
    rw [splitOn_cons_eq_if_modifyHead] at h
    split at h
    · rcases mem_cons.mp h with rfl | h
      · exact not_mem_nil
      · exact ih h
    · rename_i hx
      obtain ⟨t, ts, hts⟩ := exists_cons_of_ne_nil (splitOn_ne_nil a l)
      rw [hts] at h ih
      rcases mem_cons.mp h with rfl | h
      · have ht := ih mem_cons_self
        simp only [mem_cons, not_or]
        exact ⟨fun heq => hx (by simp [heq]), ht⟩
      · exact ih (mem_cons_of_mem _ h)

/-- The host read off an id is nonempty and has no separator. -/
theorem parseEventReportLocationId_host {id type medium host : String}
    (h : parseEventReportLocationId id = some (type, medium, host)) :
    isValidLocationIdComponent host = true := by
  unfold parseEventReportLocationId at h
  split at h
  · rename_i root typeText mediumText hostText hsplit
    have hsharp : '#' ∉ hostText := not_mem_of_mem_splitOn (by rw [hsplit]; simp)
    dsimp only at h
    split at h
    · rename_i hcond
      obtain ⟨-, -, rfl⟩ := by simpa using h
      have hne : hostText ≠ [] := by simp_all
      simp [isValidLocationIdComponent, hsharp, hne]
    · cases h
  · cases h

theorem parseLocationId_host {type : DataStorageType} {id medium host : String}
    (h : parseLocationId type id = some (medium, host)) :
    isValidLocationIdComponent host = true := by
  unfold parseLocationId at h
  split at h
  · cases h
  · rename_i hparse
    split at h
    · obtain ⟨-, rfl⟩ := by simpa using h
      exact parseEventReportLocationId_host hparse
    · cases h

end TairKvCache.SnapshotUri
