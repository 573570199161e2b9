import TairKvCache.ReportEventJson.AsciiScan
import TairKvCache.ReportEventJson.Request

/-!
# The ways of a request body to its message

`FromJson` reads a body with RapidJSON and converts the document; where that
fails, the generic parser takes the body: first the fast codec, then protobuf's
`JsonStringToMessage`. `FromMutableNullTerminatedJson` does the same with a
body that it may overwrite. A large ASCII body is then read in place, and what
the generic parser gets is the document written out again, or nothing if
the text is no JSON.

An `Outcome` holds, with the message, how deep the runs of RapidJSON's reader
descended on the way. RapidJSON, protobuf and the codec's conversion are
parameters (`JsonLibs`).
-/

namespace TairKvCache.ReportEventJson

open Lib

def kLargeRequestThreshold : Nat := 32 * 1024

def kMaxNestingDepth : Nat := 100

structure JsonLibs where
  /-- A run of `rapidjson::Reader`, with `kParseValidateEncodingFlag` or not. -/
  read : Bool → Bytes → ReaderRun
  /-- `document.Accept(writer)`. -/
  write : Json → Option Bytes
  /-- The fast codec's `ParseMessageValue` on a `ReportEventRequest`. -/
  parseMessageValue : Json → Option ReportEventRequest
  jsonStringToMessage : Bytes → Option ReportEventRequest
  vectorUnit : VectorUnit

/-- The message, if the body was accepted, and the most containers that a
reader on the way had open. -/
structure Outcome (α : Type) where
  result : Option α
  deepest : Nat

namespace Outcome

variable {α β : Type}

def andThen (o : Outcome α) (f : α → Option β) : Outcome β := ⟨o.result.bind f, o.deepest⟩

/-- `next` runs after a reader that descended to `depth`. -/
def following (depth : Nat) (next : Outcome α) : Outcome α := ⟨next.result, max depth next.deepest⟩

def orElse (o next : Outcome α) : Outcome α :=
  match o.result with
  | some a => ⟨some a, o.deepest⟩
  | none => next.following o.deepest

end Outcome

/-! ## The reader with the depth guard -/

/-- `DepthLimitedJsonHandler` with `depth_` open containers: the new `depth_`,
or `none` where the handler returns `false`. The handler behind it, the
document, takes every event. -/
def depthLimited (depth : Nat) : Event → Option Nat
  | .startObject | .startArray => if kMaxNestingDepth ≤ depth then none else some (depth + 1)
  | .endObject | .endArray => some (depth - 1)
  | .scalar _ | .key _ => some depth

/-- The events that the handler takes; the reader stops at the first other one. -/
def takeEvents : Nat → List Event → List Event
  | _, [] => []
  | depth, e :: es =>
    match depthLimited depth e with
    | none => []
    | some depth' => e :: takeEvents depth' es

namespace JsonLibs

variable (libs : JsonLibs) {json : Bytes}

/-- `document.Parse`. -/
def parse (validate : Bool) (json : Bytes) : Outcome Json :=
  ⟨(libs.read validate json).value, nesting (libs.read validate json).events⟩

/-- `document.ParseInsitu`: the text ends at the first NUL. -/
def parseInsitu (buffer : Bytes) : Outcome Json := libs.parse false (buffer.takeWhile (· != 0))

/-- `document.Populate(generator)` with the `DepthLimitedDomGenerator`. -/
def populate (json : Bytes) : Outcome Json :=
  let run := libs.read true json
  let taken := takeEvents 0 run.events
  ⟨if taken = run.events then run.value else none, nesting taken⟩

/-! ## The entry points -/

def fastTryFromJson (json : Bytes) : Outcome ReportEventRequest :=
  (libs.populate json).andThen libs.parseMessageValue

/-- `ProtoMessageJsonUtil::FromJson`. -/
def protoFromJson (json : Bytes) : Outcome ReportEventRequest :=
  (libs.fastTryFromJson json).orElse ⟨libs.jsonStringToMessage json, 0⟩

def tryFromJson (json : Bytes) : Outcome ReportEventRequest :=
  if json = [] then ⟨none, 0⟩
  else
    let scan := scanAscii libs.vectorUnit json
    if kLargeRequestThreshold ≤ json.length ∧ scan.isAscii ∧ ¬scan.hasNul then
      -- the copy of the body is a `std::string`, which ends with a NUL
      (libs.parseInsitu (json ++ [0])).andThen parseRequest
    else if scan.isAscii then (libs.parse false json).andThen parseRequest
    else (libs.parse true json).andThen parseRequest

def fromJson (json : Bytes) : Outcome ReportEventRequest :=
  (libs.tryFromJson json).orElse (libs.protoFromJson json)

/-- What follows the reading in place, with the document or an error. -/
def afterInsitu : Option Json → Outcome ReportEventRequest
  | none => ⟨none, 0⟩
  | some document =>
    match parseRequest document with
    | some message => ⟨some message, 0⟩
    | none =>
      match libs.write document with
      | none => ⟨none, 0⟩
      | some normalized => libs.protoFromJson normalized

/-- `buffer` holds the body, `size` bytes, and at least one byte more. -/
def fromMutableNullTerminatedJson (buffer : Bytes) (size : Nat) : Outcome ReportEventRequest :=
  let view := buffer.take size
  let scan := scanAscii libs.vectorUnit view
  if size = 0 then ⟨none, 0⟩
  else if size < kLargeRequestThreshold then libs.fromJson view
  else if ¬scan.isAscii ∨ scan.hasNul then libs.fromJson view
  else if buffer[size]? ≠ some 0 then libs.fromJson view
  else
    let parsed := libs.parseInsitu buffer
    (libs.afterInsitu parsed.result).following parsed.deepest

/-! ## Results of the parts -/

variable {libs}

theorem takeWhile_body (h : 0 ∉ json) : (json ++ [0]).takeWhile (· != 0) = json := by
  have hall : ∀ b ∈ json, (b != 0) = true := by
    intro b hb
    rw [bne_iff_ne]
    rintro rfl
    exact h hb
  rw [List.takeWhile_append_of_pos hall]
  simp

/-- Reading a body in place is reading it, unless it has a NUL. -/
theorem parseInsitu_body (h : 0 ∉ json) :
    libs.parseInsitu (json ++ [0]) = libs.parse false json := by
  rw [parseInsitu, takeWhile_body h]

/-- Whatever the size, the body is read once, and validated unless it is ASCII. -/
theorem tryFromJson_eq (hne : json ≠ []) : libs.tryFromJson json =
      (libs.parse (!(scanAscii libs.vectorUnit json).isAscii) json).andThen parseRequest := by
  have hscan := scanAscii_scanned libs.vectorUnit json
  rw [tryFromJson, if_neg hne]
  by_cases hlarge : kLargeRequestThreshold ≤ json.length ∧
      (scanAscii libs.vectorUnit json).isAscii ∧ ¬(scanAscii libs.vectorUnit json).hasNul
  · obtain ⟨-, hascii, hnul⟩ := id hlarge
    rw [hscan.hasNul hascii] at hnul
    rw [if_pos hlarge, parseInsitu_body fun h0 => hnul (Or.inr h0), hascii, Bool.not_true]
  · rw [if_neg hlarge]
    cases (scanAscii libs.vectorUnit json).isAscii <;> rfl

/-- The body of a buffer that ends with the terminator, by the route it takes. -/
theorem fromMutable_eq (hne : json ≠ []) :
    libs.fromMutableNullTerminatedJson (json ++ [0]) json.length =
      if kLargeRequestThreshold ≤ json.length ∧ (∀ b ∈ json, ¬128 ≤ b) ∧ 0 ∉ json then
        (libs.afterInsitu (libs.parse false json).result).following (libs.parse false json).deepest
      else libs.fromJson json := by
  have hscan := scanAscii_scanned libs.vectorUnit json
  have hsize : json.length ≠ 0 := fun h0 => hne (List.length_eq_zero_iff.mp h0)
  rw [fromMutableNullTerminatedJson, List.take_left, if_neg hsize]
  by_cases hsmall : json.length < kLargeRequestThreshold
  · rw [if_pos hsmall, if_neg fun h => absurd h.1 (by omega)]
  rw [if_neg hsmall]
  by_cases hroute : (∀ b ∈ json, ¬128 ≤ b) ∧ 0 ∉ json
  · have hascii := hscan.isAscii.mpr hroute.1
    have hnul : ¬(scanAscii libs.vectorUnit json).hasNul = true := by
      rw [hscan.hasNul hascii]
      simpa using hroute.2
    rw [if_neg (by simp [hascii, hnul]), if_neg (by simp), if_pos ⟨by omega, hroute⟩,
      parseInsitu_body hroute.2]
  · have hrefused : ¬(scanAscii libs.vectorUnit json).isAscii = true ∨
        (scanAscii libs.vectorUnit json).hasNul = true := by
      by_cases hascii : (scanAscii libs.vectorUnit json).isAscii = true
      · refine Or.inr ((hscan.hasNul hascii).mpr (Or.inr ?_))
        by_contra h0
        exact hroute ⟨hscan.isAscii.mp hascii, h0⟩
      · exact Or.inl hascii
    rw [if_pos hrefused, if_neg fun h => hroute h.2]

end JsonLibs

/-! ## Libraries that read JSON as it is defined -/

/-- The strict reader for RapidJSON, and for protobuf one that also takes
trailing commas and single quotes; both generic parsers take the canonical
spellings. -/
def grammarLibs : JsonLibs where
  read _ json := readDocument {} json
  write _ := none
  parseMessageValue := parseRequest
  jsonStringToMessage json :=
    (readDocument { trailingCommas := true, singleQuotes := true } json).value.bind parseRequest
  vectorUnit := .avx2

end TairKvCache.ReportEventJson
