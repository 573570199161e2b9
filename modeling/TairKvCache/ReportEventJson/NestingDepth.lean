import TairKvCache.ReportEventJson.Routes

/-!
# How deep a body makes the reader descend

RapidJSON's reader recurses once for each array and object that it is in. The
fast codec gives it a handler which refuses the container after
`kMaxNestingDepth` open ones. `ReportEventJsonParser` has no such handler:
before the fast codec sees a body, `TryFromJson` has read it to the depth the
body itself has.

`entry_points_bounded_iff` says which bodies keep the entry points within the
bound, and `fromJson_brackets` that there is no bound over all of them.
-/

namespace TairKvCache.ReportEventJson

open Lib List

namespace JsonLibs

variable {libs : JsonLibs}

/-! ## The guarded reader -/

/-- A step of the handler keeps `depth_` the number of open containers, and
within the bound. -/
theorem depthLimited_some {depth depth' : Nat} {e : Event} (hd : depth ≤ kMaxNestingDepth)
    (h : depthLimited depth e = some depth') :
    depth' = e.openAfter depth ∧ depth' ≤ kMaxNestingDepth := by
  cases e with
  | startObject | startArray =>
    rw [depthLimited] at h
    obtain ⟨hlt, h⟩ := Option.ite_none_left_eq_some.mp h
    cases h
    exact ⟨rfl, by omega⟩
  | endObject | endArray =>
    cases h
    exact ⟨rfl, by omega⟩
  | scalar s | key name =>
    cases h
    exact ⟨rfl, hd⟩

theorem nestingFrom_takeEvents {depth : Nat} (hd : depth ≤ kMaxNestingDepth) (es : List Event) :
    nestingFrom depth (takeEvents depth es) ≤ kMaxNestingDepth := by
  induction es generalizing depth with
  | nil => exact hd
  | cons e es ih =>
    rw [takeEvents]
    cases hstep : depthLimited depth e with
    | none => exact hd
    | some depth' =>
      obtain ⟨rfl, hle⟩ := depthLimited_some hd hstep
      exact max_le hd (ih hle)

variable (libs) in
theorem fastTryFromJson_deepest (json : Bytes) :
    (libs.fastTryFromJson json).deepest ≤ kMaxNestingDepth :=
  nestingFrom_takeEvents (Nat.zero_le _) _

theorem protoFromJson_deepest (json : Bytes) :
    (libs.protoFromJson json).deepest ≤ kMaxNestingDepth := by
  have hfast := fastTryFromJson_deepest libs json
  rw [protoFromJson, Outcome.orElse]
  cases (libs.fastTryFromJson json).result with
  | some message => exact hfast
  | none => exact max_le hfast (Nat.zero_le _)

/-! ## The entry points of the event parser -/

variable (libs) in
/-- The containers that the body itself has open at a time, up to its end or
its first syntax error. -/
def bodyNesting (json : Bytes) : Nat :=
  nesting (libs.read (!(scanAscii libs.vectorUnit json).isAscii) json).events

theorem deepest_orElse_le {α : Type} {o next : Outcome α} {n : Nat} (hn : next.deepest ≤ n) :
    (o.orElse next).deepest ≤ n ↔ o.deepest ≤ n := by
  rw [Outcome.orElse]
  cases o.result with
  | some a => rfl
  | none => exact max_le_iff.trans (and_iff_left hn)

theorem fromJson_deepest {json : Bytes} (hne : json ≠ []) :
    (libs.fromJson json).deepest ≤ kMaxNestingDepth ↔
      libs.bodyNesting json ≤ kMaxNestingDepth := by
  rw [fromJson, deepest_orElse_le (protoFromJson_deepest json), tryFromJson_eq hne]
  rfl

theorem fromJson_nil_deepest : (libs.fromJson []).deepest ≤ kMaxNestingDepth := by
  rw [fromJson, deepest_orElse_le (protoFromJson_deepest [])]
  exact Nat.zero_le _

theorem afterInsitu_deepest (document : Option Json) :
    (libs.afterInsitu document).deepest ≤ kMaxNestingDepth := by
  cases document with
  | none => exact Nat.zero_le _
  | some document =>
    rw [afterInsitu]
    cases parseRequest document with
    | some message => exact Nat.zero_le _
    | none =>
      cases libs.write document with
      | none => exact Nat.zero_le _
      | some normalized => exact protoFromJson_deepest normalized

theorem fromMutable_deepest {json : Bytes} (hne : json ≠ []) :
    (libs.fromMutableNullTerminatedJson (json ++ [0]) json.length).deepest ≤ kMaxNestingDepth ↔
      libs.bodyNesting json ≤ kMaxNestingDepth := by
  rw [fromMutable_eq hne]
  by_cases hroute : kLargeRequestThreshold ≤ json.length ∧ (∀ b ∈ json, ¬128 ≤ b) ∧ 0 ∉ json
  · have hascii := (scanAscii_scanned libs.vectorUnit json).isAscii.mpr hroute.2.1
    rw [if_pos hroute, bodyNesting, hascii]
    exact max_le_iff.trans (and_iff_left (afterInsitu_deepest _))
  · rw [if_neg hroute]
    exact fromJson_deepest hne

/-- The fast codec keeps the bound for every body; the two entry points of the
event parser keep it for the bodies that do not nest deeper themselves. -/
theorem entry_points_bounded_iff (libs : JsonLibs) (json : Bytes) :
    (libs.protoFromJson json).deepest ≤ kMaxNestingDepth ∧
      ((libs.fromJson json).deepest ≤ kMaxNestingDepth ↔
        json = [] ∨ libs.bodyNesting json ≤ kMaxNestingDepth) ∧
      ((libs.fromMutableNullTerminatedJson (json ++ [0]) json.length).deepest ≤ kMaxNestingDepth ↔
        json = [] ∨ libs.bodyNesting json ≤ kMaxNestingDepth) := by
  refine ⟨protoFromJson_deepest json, ?_⟩
  by_cases hne : json = []
  · subst hne
    exact ⟨iff_of_true fromJson_nil_deepest (Or.inl rfl), iff_of_true (Nat.zero_le _) (Or.inl rfl)⟩
  · simp only [hne, false_or]
    exact ⟨fromJson_deepest hne, fromMutable_deepest hne⟩

/-! ## No bound over all bodies -/

theorem nestingFrom_startArrays (depth n : Nat) :
    nestingFrom depth (replicate n .startArray) = depth + n := by
  induction n generalizing depth with
  | zero => rfl
  | succ n ih =>
    rw [replicate_succ, nestingFrom, Event.openAfter, ih]
    omega

/-- `n` opening brackets and nothing else: the reader has entered them all when
it meets the end of the text. -/
theorem readValue_brackets (d : Dialect) (n : Nat) :
    readValue d (2 * n + 1) (replicate n 91) = .broken (replicate n .startArray) := by
  induction n with
  | zero => rfl
  | succ n ih =>
    rw [replicate_succ, show 2 * (n + 1) + 1 = 2 * n + 1 + 1 + 1 by ring, readValue]
    cases n with
    | zero => rfl
    | succ n =>
      rw [replicate_succ] at ih ⊢
      show (Scan.map Json.array
        ((readValue d _ (91 :: replicate n 91)).bind _)).after [.startArray] = _
      rw [ih]
      rfl

theorem fromJson_brackets (n : Nat) : n ≤ (grammarLibs.fromJson (replicate n 91)).deepest := by
  cases n with
  | zero => exact Nat.zero_le _
  | succ n =>
    have hevents : (readDocument {} (replicate (n + 1) 91)).events =
        replicate (n + 1) .startArray := by
      rw [readDocument, length_replicate, readValue_brackets]
      rfl
    have hread : (grammarLibs.tryFromJson (replicate (n + 1) 91)).deepest = n + 1 := by
      rw [tryFromJson_eq (by simp [replicate_succ])]
      show nesting (readDocument {} (replicate (n + 1) 91)).events = _
      rw [hevents, nesting, nestingFrom_startArrays, Nat.zero_add]
    rw [fromJson, Outcome.orElse]
    cases (grammarLibs.tryFromJson (replicate (n + 1) 91)).result with
    | some message => exact hread.ge
    | none => exact le_max_of_le_left hread.ge

/-- One bracket more than the bound. -/
theorem fromJson_descends_past_bound :
    ¬(grammarLibs.fromJson (replicate 101 91)).deepest ≤ kMaxNestingDepth :=
  Nat.not_le.mpr (fromJson_brackets 101)

end JsonLibs

end TairKvCache.ReportEventJson
