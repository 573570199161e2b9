import TairKvCache.Lib.Json

/-!
# From a document to a `ReportEventRequest`

The converter of `report_event_json_parser.cc` from a document to the request
message. It takes the canonical spellings only and leaves everything else to
the generic parser: a member that is set twice, a value of another type, an
enum value it does not know.

Each `Parse*` function of the source is a loop over the members of an object
that looks each name up in a few known ones and keeps a `seen_*` flag for
each. The loop is `parseMembers`; a function is the table of its fields.
-/

namespace TairKvCache.ReportEventJson

open Lib

/-! ## The messages -/

/-- `proto::meta::StorageType`, an open enum. -/
inductive StorageType
  | unspecified
  | hf3fs
  | mooncake
  | tairMempool
  | nfs
  | vcns3fs
  | dummy
  | eventReportL1P5
  | eventReportL2
  | tairMempoolSsd
  | unrecognized (number : Int)
deriving DecidableEq, Repr

inductive ReportEventType
  | unspecified
  | nodeRegister
  | blockAdd
  | blockDelete
  | hostDown
  | heartbeat
  | blockSnapshot
  | unrecognized (number : Int)
deriving DecidableEq, Repr

structure LocationSpec where
  name : Bytes := []
  uri : Bytes := []
deriving DecidableEq, Repr

structure NodeRegisterEventParams where
  mediums : List Bytes := []
deriving DecidableEq, Repr

structure BlockAddEventParams where
  blockKey : Bytes := []
  uri : Bytes := []
  medium : Bytes := []
  specs : List LocationSpec := []
deriving DecidableEq, Repr

structure BlockDeleteEventParams where
  blockKey : Bytes := []
  medium : Bytes := []
  specNames : List Bytes := []
deriving DecidableEq, Repr

structure BlockSnapshotItem where
  blockKey : Bytes := []
  medium : Bytes := []
  specs : List LocationSpec := []
deriving DecidableEq, Repr

structure BlockSnapshotEventParams where
  medium : Bytes := []
  blocks : List BlockSnapshotItem := []
deriving DecidableEq, Repr

/-- The map `system_status` as its entries, with distinct keys. -/
structure HeartbeatEventParams where
  systemStatus : List (Bytes × Bytes) := []
deriving DecidableEq, Repr

/-- `oneof event_params`. -/
inductive EventParams
  | nodeRegister (params : NodeRegisterEventParams)
  | blockAdd (params : BlockAddEventParams)
  | blockDelete (params : BlockDeleteEventParams)
  | hostDown
  | heartbeat (params : HeartbeatEventParams)
  | blockSnapshot (params : BlockSnapshotEventParams)
deriving DecidableEq, Repr

structure EventItem where
  eventType : ReportEventType := .unspecified
  eventParams : Option EventParams := none
deriving DecidableEq, Repr

structure ReportEventRequest where
  traceId : Bytes := []
  instanceId : Bytes := []
  hostIpPort : Bytes := []
  events : List EventItem := []
  storageType : StorageType := .unspecified
deriving DecidableEq, Repr

/-! ## Members -/

/-- A known member: its spellings, its `seen_*` flag, and how its value is set. -/
structure Field (α : Type) where
  names : List String
  flag : Nat
  set : Json → α → Option α

def Field.nameIs {α : Type} (f : Field α) (name : Bytes) : Bool :=
  f.names.any fun spelling => ascii spelling == name

/-- The loop over the members. A flag that is set already refuses the object;
unknown members are skipped. -/
def parseMembers {α : Type} (fields : List (Field α)) :
    List Nat → α → List (Bytes × Json) → Option α
  | _, out, [] => some out
  | seen, out, (name, value) :: rest =>
    match fields.find? (·.nameIs name) with
    | none => parseMembers fields seen out rest
    | some f =>
      if f.flag ∈ seen then none
      else (f.set value out).bind fun out => parseMembers fields (f.flag :: seen) out rest

def parseObject {α : Type} (fields : List (Field α)) (out : α) : Json → Option α
  | .object members => parseMembers fields [] out members
  | _ => none

def asString : Json → Option Bytes
  | .scalar (.string s) => some s
  | _ => none

/-- Every element of an array, in order. -/
def parseArray {α : Type} (parse : Json → Option α) : Json → Option (List α)
  | .array elements => elements.mapM parse
  | _ => none

/-- `SetString` with a setter. -/
def setString {α : Type} (setter : Bytes → α → α) (value : Json) (out : α) : Option α :=
  (asString value).map (setter · out)

/-! ## Enums -/

/-- `value.IsInt()`. -/
def asInt : Json → Option Int
  | .scalar (.int i) => if -2 ^ 31 ≤ i ∧ i < 2 ^ 31 then some i else none
  | _ => none

/-- An enum value by its number or by its name, of those in a table. -/
def parseEnum {ε : Type} (table : List (Int × String × ε)) (value : Json) : Option ε :=
  match asInt value with
  | some i => (table.find? (·.1 == i)).map (·.2.2)
  | none => (asString value).bind fun name =>
    (table.find? (ascii ·.2.1 == name)).map (·.2.2)

/-- `ST_TAIRMEMPOOL_SSD` is not in the source's `switch`. -/
def parseStorageType : Json → Option StorageType :=
  parseEnum [(0, "ST_UNSPECIFIED", .unspecified), (1, "ST_3FS", .hf3fs),
    (2, "ST_MOONCAKE", .mooncake), (3, "ST_TAIRMEMPOOL", .tairMempool), (4, "ST_NFS", .nfs),
    (5, "ST_VCNS_3FS", .vcns3fs), (6, "ST_DUMMY", .dummy),
    (7, "ST_EVENT_REPORT_L1P5", .eventReportL1P5), (8, "ST_EVENT_REPORT_L2", .eventReportL2)]

def parseEventType : Json → Option ReportEventType :=
  parseEnum [(0, "EVENT_UNSPECIFIED", .unspecified), (1, "EVENT_NODE_REGISTER", .nodeRegister),
    (2, "EVENT_BLOCK_ADD", .blockAdd), (3, "EVENT_BLOCK_DELETE", .blockDelete),
    (4, "EVENT_HOST_DOWN", .hostDown), (5, "EVENT_HEARTBEAT", .heartbeat),
    (6, "EVENT_BLOCK_SNAPSHOT", .blockSnapshot)]

/-! ## The functions of the source -/

def parseLocationSpec : Json → Option LocationSpec :=
  parseObject [
    ⟨["name"], 0, setString fun s out => { out with name := s }⟩,
    ⟨["uri"], 1, setString fun s out => { out with uri := s }⟩] {}

def parseSpecs : Json → Option (List LocationSpec) := parseArray parseLocationSpec

def parseNodeRegister : Json → Option NodeRegisterEventParams :=
  parseObject [
    ⟨["mediums"], 0, fun value out =>
      (parseArray asString value).map fun mediums => { out with mediums := mediums }⟩] {}

def parseBlockAdd : Json → Option BlockAddEventParams :=
  parseObject [
    ⟨["block_key", "blockKey"], 0, setString fun s out => { out with blockKey := s }⟩,
    ⟨["uri"], 1, setString fun s out => { out with uri := s }⟩,
    ⟨["medium"], 2, setString fun s out => { out with medium := s }⟩,
    ⟨["specs"], 3, fun value out =>
      (parseSpecs value).map fun specs => { out with specs := specs }⟩] {}

def parseBlockDelete : Json → Option BlockDeleteEventParams :=
  parseObject [
    ⟨["block_key", "blockKey"], 0, setString fun s out => { out with blockKey := s }⟩,
    ⟨["medium"], 1, setString fun s out => { out with medium := s }⟩,
    ⟨["spec_names", "specNames"], 2, fun value out =>
      (parseArray asString value).map fun names => { out with specNames := names }⟩] {}

def parseSnapshotItem : Json → Option BlockSnapshotItem :=
  parseObject [
    ⟨["block_key", "blockKey"], 0, setString fun s out => { out with blockKey := s }⟩,
    ⟨["medium"], 1, setString fun s out => { out with medium := s }⟩,
    ⟨["specs"], 2, fun value out =>
      (parseSpecs value).map fun specs => { out with specs := specs }⟩] {}

def parseBlockSnapshot : Json → Option BlockSnapshotEventParams :=
  parseObject [
    ⟨["medium"], 0, setString fun s out => { out with medium := s }⟩,
    ⟨["blocks"], 1, fun value out =>
      (parseArray parseSnapshotItem value).map fun blocks => { out with blocks := blocks }⟩] {}

/-- The entries of `system_status`: strings, with no key twice, because
`JsonStringToMessage` refuses duplicate map keys. -/
def parseStatusEntries : List (Bytes × Bytes) → List (Bytes × Json) → Option (List (Bytes × Bytes))
  | status, [] => some status
  | status, (key, value) :: rest =>
    (asString value).bind fun s =>
      if status.any (·.1 == key) then none else parseStatusEntries (status ++ [(key, s)]) rest

def parseHeartbeat : Json → Option HeartbeatEventParams :=
  parseObject [
    ⟨["system_status", "systemStatus"], 0, fun value out =>
      match value with
      | .object entries =>
        (parseStatusEntries [] entries).map fun status => { out with systemStatus := status }
      | _ => none⟩] {}

/-- A member of the `oneof`: all of them share the flag `seen_params`. -/
def paramsField (names : List String) (parse : Json → Option EventParams) : Field EventItem :=
  ⟨names, 1, fun value out =>
    (parse value).map fun params => { out with eventParams := some params }⟩

/-- `host_down` has no members that are read. -/
def parseHostDown : Json → Option EventParams
  | .object _ => some .hostDown
  | _ => none

def parseEvent : Json → Option EventItem :=
  parseObject [
    ⟨["event_type", "eventType"], 0, fun value out =>
      (parseEventType value).map fun type => { out with eventType := type }⟩,
    paramsField ["node_register", "nodeRegister"] fun v => (parseNodeRegister v).map .nodeRegister,
    paramsField ["block_add", "blockAdd"] fun v => (parseBlockAdd v).map .blockAdd,
    paramsField ["block_delete", "blockDelete"] fun v => (parseBlockDelete v).map .blockDelete,
    paramsField ["host_down", "hostDown"] parseHostDown,
    paramsField ["heartbeat"] fun v => (parseHeartbeat v).map .heartbeat,
    paramsField ["block_snapshot", "blockSnapshot"] fun v =>
      (parseBlockSnapshot v).map .blockSnapshot] {}

def parseRequest : Json → Option ReportEventRequest :=
  parseObject [
    ⟨["trace_id", "traceId"], 0, setString fun s out => { out with traceId := s }⟩,
    ⟨["instance_id", "instanceId"], 1, setString fun s out => { out with instanceId := s }⟩,
    ⟨["host_ip_port", "hostIpPort"], 2, setString fun s out => { out with hostIpPort := s }⟩,
    ⟨["events"], 3, fun value out =>
      (parseArray parseEvent value).map fun events => { out with events := events }⟩,
    ⟨["storage_type", "storageType"], 4, fun value out =>
      (parseStorageType value).map fun type => { out with storageType := type }⟩] {}

end TairKvCache.ReportEventJson
