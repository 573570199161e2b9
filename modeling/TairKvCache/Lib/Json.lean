import Mathlib

/-!
# JSON values, reader events and a reader

A JSON value as a document tree, the events by which an event-driven reader
reports it to a handler, and a recursive reader of JSON texts. The reader
descends once into each array and object, so that the containers which are
open between two events (`nestingFrom`) are the recursion depth it has reached.
-/

namespace TairKvCache.Lib

abbrev Bytes := List UInt8

/-- The bytes of an ASCII text. -/
def ascii (s : String) : Bytes := s.toList.map fun c => UInt8.ofNat c.toNat

/-- A number without fraction and exponent that fits 64 bits is an `int`; any
other one is kept as it was written. -/
inductive Scalar
  | null
  | bool (b : Bool)
  | int (i : Int)
  | real (literal : Bytes)
  | string (s : Bytes)
deriving DecidableEq, Repr

/-- A document. Members keep their order, and names may repeat. -/
inductive Json
  | scalar (s : Scalar)
  | array (elements : List Json)
  | object (members : List (Bytes × Json))
deriving Repr

inductive Event
  | scalar (s : Scalar)
  | key (name : Bytes)
  | startObject
  | endObject
  | startArray
  | endArray
deriving DecidableEq, Repr

namespace Event

/-- The open containers after an event. -/
def openAfter (depth : Nat) : Event → Nat
  | .startObject | .startArray => depth + 1
  | .endObject | .endArray => depth - 1
  | .scalar _ | .key _ => depth

end Event

/-- The most containers open at a time, from `depth` open ones on. -/
def nestingFrom : Nat → List Event → Nat
  | depth, [] => depth
  | depth, e :: es => max depth (nestingFrom (e.openAfter depth) es)

def nesting (es : List Event) : Nat := nestingFrom 0 es

/-- What one run of a reader does: it reports a whole value, or it reports
some events and stops at an error. -/
inductive ReaderRun
  | complete (events : List Event) (value : Json)
  | broken (events : List Event)
deriving Repr

namespace ReaderRun

def events : ReaderRun → List Event
  | .complete events _ | .broken events => events

def value : ReaderRun → Option Json
  | .complete _ value => some value
  | .broken _ => none

end ReaderRun

/-! ## Reading -/

/-- What a reader accepts beyond the JSON grammar. -/
structure Dialect where
  trailingCommas : Bool := false
  singleQuotes : Bool := false
deriving DecidableEq, Repr

/-- A step of a reader: the events it reported, and unless it met an error what
it read and the remaining input. -/
inductive Scan (α : Type)
  | done (events : List Event) (value : α) (rest : Bytes)
  | broken (events : List Event)

namespace Scan

variable {α β : Type}

def after (earlier : List Event) : Scan α → Scan α
  | .done events value rest => .done (earlier ++ events) value rest
  | .broken events => .broken (earlier ++ events)

def bind (s : Scan α) (f : α → Bytes → Scan β) : Scan β :=
  match s with
  | .done events value rest => (f value rest).after events
  | .broken events => .broken events

def map (f : α → β) : Scan α → Scan β
  | .done events value rest => .done events (f value) rest
  | .broken events => .broken events

end Scan

def isSpace (b : UInt8) : Bool := b == 32 || b == 9 || b == 10 || b == 13

def skipSpaces : Bytes → Bytes
  | b :: rest => if isSpace b then skipSpaces rest else b :: rest
  | [] => []

def isDigit (b : UInt8) : Bool := 48 ≤ b && b ≤ 57

def hexDigit (b : UInt8) : Option Nat :=
  if isDigit b then some (b.toNat - 48)
  else if 97 ≤ b && b ≤ 102 then some (b.toNat - 87)
  else if 65 ≤ b && b ≤ 70 then some (b.toNat - 55)
  else none

def hex4 : Bytes → Option (Nat × Bytes)
  | a :: b :: c :: d :: rest => do
      let a ← hexDigit a
      let b ← hexDigit b
      let c ← hexDigit c
      let d ← hexDigit d
      some (((a * 16 + b) * 16 + c) * 16 + d, rest)
  | _ => none

def utf8Encode (c : Nat) : Bytes :=
  let tail (shift : Nat) : UInt8 := UInt8.ofNat (128 + c / 2 ^ shift % 64)
  if c < 0x80 then [UInt8.ofNat c]
  else if c < 0x800 then [UInt8.ofNat (192 + c / 64), tail 0]
  else if c < 0x10000 then [UInt8.ofNat (224 + c / 4096), tail 6, tail 0]
  else [UInt8.ofNat (240 + c / 262144), tail 12, tail 6, tail 0]

/-- A `\u` escape, after the `u`; a high surrogate takes the low one with it. -/
def unicodeEscape (input : Bytes) : Option (Bytes × Bytes) := do
  let (c, rest) ← hex4 input
  if c < 0xD800 || 0xDFFF < c then some (utf8Encode c, rest)
  else if 0xDBFF < c then none
  else
    match rest with
    | 92 :: 117 :: rest => do
        let (low, rest) ← hex4 rest
        if 0xDC00 ≤ low && low ≤ 0xDFFF then
          some (utf8Encode (0x10000 + (c - 0xD800) * 1024 + (low - 0xDC00)), rest)
        else none
    | _ => none

def simpleEscape (b : UInt8) : Option UInt8 :=
  if b == 34 || b == 92 || b == 47 then some b
  else if b == 98 then some 8
  else if b == 102 then some 12
  else if b == 110 then some 10
  else if b == 114 then some 13
  else if b == 116 then some 9
  else none

/-- A string, after its opening `quote`. -/
def readString (quote : UInt8) : Nat → Bytes → Option (Bytes × Bytes)
  | 0, _ => none
  | _ + 1, [] => none
  | fuel + 1, b :: rest =>
    if b == quote then some ([], rest)
    else if b < 32 then none
    else if b == 92 then
      match rest with
      | 117 :: rest => do
          let (c, rest) ← unicodeEscape rest
          let (s, rest) ← readString quote fuel rest
          some (c ++ s, rest)
      | e :: rest => do
          let c ← simpleEscape e
          let (s, rest) ← readString quote fuel rest
          some (c :: s, rest)
      | [] => none
    else do
      let (s, rest) ← readString quote fuel rest
      some (b :: s, rest)

def natOf (digits : Bytes) : Nat := digits.foldl (fun n b => n * 10 + (b.toNat - 48)) 0

/-- The integer part: `0`, or digits that do not begin with it. -/
def intDigits (input : Bytes) : Option (Bytes × Bytes) :=
  match input with
  | 48 :: rest => some ([48], rest)
  | _ =>
    match input.span isDigit with
    | ([], _) => none
    | (digits, rest) => some (digits, rest)

def fraction : Bytes → Option (Bytes × Bytes)
  | 46 :: rest =>
    match rest.span isDigit with
    | ([], _) => none
    | (digits, rest) => some (46 :: digits, rest)
  | input => some ([], input)

def exponentSign : Bytes → Bytes × Bytes
  | b :: rest => if b == 43 || b == 45 then ([b], rest) else ([], b :: rest)
  | [] => ([], [])

def exponent : Bytes → Option (Bytes × Bytes)
  | e :: rest =>
    if e == 101 || e == 69 then
      let (sign, rest) := exponentSign rest
      match rest.span isDigit with
      | ([], _) => none
      | (digits, rest) => some (e :: sign ++ digits, rest)
    else some ([], e :: rest)
  | [] => some ([], [])

def minus : Bytes → Bytes × Bytes
  | 45 :: rest => ([45], rest)
  | input => ([], input)

def readNumber (input : Bytes) : Option (Scalar × Bytes) := do
  let (sign, rest) := minus input
  let (digits, rest) ← intDigits rest
  let (frac, rest) ← fraction rest
  let (exp, rest) ← exponent rest
  let i : Int := if sign = [] then natOf digits else -natOf digits
  if frac = [] ∧ exp = [] ∧ -2 ^ 63 ≤ i ∧ i < 2 ^ 64 then some (.int i, rest)
  else some (.real (sign ++ digits ++ frac ++ exp), rest)

def readScalar (d : Dialect) (input : Bytes) : Option (Scalar × Bytes) :=
  match input with
  | 110 :: 117 :: 108 :: 108 :: rest => some (.null, rest)
  | 116 :: 114 :: 117 :: 101 :: rest => some (.bool true, rest)
  | 102 :: 97 :: 108 :: 115 :: 101 :: rest => some (.bool false, rest)
  | b :: rest =>
    if b == 34 || (d.singleQuotes && b == 39) then
      (readString b rest.length rest).map fun (s, rest) => (.string s, rest)
    else readNumber input
  | [] => none

/-- A member's name and the colon. -/
def readKey (d : Dialect) : Bytes → Option (Bytes × Bytes)
  | b :: rest =>
    if b == 34 || (d.singleQuotes && b == 39) then
      match readString b rest.length rest with
      | some (name, rest) =>
        match skipSpaces rest with
        | 58 :: rest => some (name, rest)
        | _ => none
      | none => none
    else none
  | [] => none

mutual

def readValue (d : Dialect) : Nat → Bytes → Scan Json
  | 0, _ => .broken []
  | fuel + 1, input =>
    match skipSpaces input with
    | 91 :: rest => ((readElements d fuel true rest).map .array).after [.startArray]
    | 123 :: rest => ((readMembers d fuel true rest).map .object).after [.startObject]
    | rest =>
      match readScalar d rest with
      | some (s, rest) => .done [.scalar s] (.scalar s) rest
      | none => .broken []

/-- The elements after `[`, or after a comma. -/
def readElements (d : Dialect) : Nat → Bool → Bytes → Scan (List Json)
  | 0, _, _ => .broken []
  | fuel + 1, first, input =>
    match skipSpaces input with
    | 93 :: rest => if first || d.trailingCommas then .done [.endArray] [] rest else .broken []
    | input =>
      (readValue d fuel input).bind fun v rest =>
        match skipSpaces rest with
        | 44 :: rest => (readElements d fuel false rest).map (v :: ·)
        | 93 :: rest => .done [.endArray] [v] rest
        | _ => .broken []

/-- The members after `{`, or after a comma. -/
def readMembers (d : Dialect) : Nat → Bool → Bytes → Scan (List (Bytes × Json))
  | 0, _, _ => .broken []
  | fuel + 1, first, input =>
    match skipSpaces input with
    | 125 :: rest => if first || d.trailingCommas then .done [.endObject] [] rest else .broken []
    | input =>
      match readKey d input with
      | none => .broken []
      | some (name, rest) =>
        ((readValue d fuel rest).bind fun v rest =>
          match skipSpaces rest with
          | 44 :: rest => (readMembers d fuel false rest).map ((name, v) :: ·)
          | 125 :: rest => .done [.endObject] [(name, v)] rest
          | _ => .broken []).after [.key name]

end

/-- Nothing but blanks may stand behind the value. -/
def finishDocument : Scan Json → ReaderRun
  | .done events value rest =>
    match skipSpaces rest with
    | [] => .complete events value
    | _ => .broken events
  | .broken events => .broken events

def readDocument (d : Dialect) (input : Bytes) : ReaderRun :=
  finishDocument (readValue d (2 * input.length + 1) input)

end TairKvCache.Lib
