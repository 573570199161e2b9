import Mathlib

/-!
# The URI parser

`StandardUri::Parse` (`common/standard_uri.cc`) over character lists, with
the two readers the metadata code uses: `Valid` and `GetParamAs<uint64_t>`.

The source works with positions into one string; here the same cuts are
made with `takeWhile`/`dropWhile`. The authority ends at the first `/` or
`?`, the user-info at the first `@` *inside the authority*, the host name at
the first `:` after that, and the query starts at the first `?`. A textual
port that does not parse clears every component, so the object is invalid
rather than half parsed.
-/

namespace TairKvCache

/-- `StandardUri`: the parsed components. An empty `protocol` is what
`Valid` tests. -/
structure StandardUri where
  protocol : String := ""
  userInfo : String := ""
  hostname : String := ""
  port : Nat := 0
  path : String := ""
  params : List (String × String) := []
deriving DecidableEq, Repr

namespace StandardUri

/-! ## Cutting the text -/

/-- The text before and after the first `://`. -/
def splitProtocol : List Char → Option (List Char × List Char)
  | ':' :: '/' :: '/' :: rest => some ([], rest)
  | c :: rest => (splitProtocol rest).map fun (p, r) => (c :: p, r)
  | [] => none

/-- The text before and after the first `c`, if there is one. -/
def splitAt? (c : Char) (s : List Char) : Option (List Char × List Char) :=
  match s.dropWhile (· ≠ c) with
  | [] => none
  | _ :: rest => some (s.takeWhile (· ≠ c), rest)

/-- Decimal digits, no sign, at least one, all of the text: what
`std::from_chars` accepts for an unsigned type when the caller also checks
that the whole range was consumed. -/
def parseDecimal (s : List Char) : Option Nat :=
  if s.isEmpty then none
  else s.foldl
    (fun acc c => acc.bind fun n =>
      if c.isDigit then some (10 * n + (c.toNat - '0'.toNat)) else none)
    (some 0)

/-- `std::from_chars` into a type whose largest value is below `bound`. -/
def parseBelow (bound : Nat) (s : List Char) : Option Nat :=
  (parseDecimal s).filter (· < bound)

/-! ## Parameters -/

/-- `params_[key] = value` on the ordered `std::map`. -/
def setParam : List (String × String) → String → String → List (String × String)
  | [], k, v => [(k, v)]
  | (k', v') :: rest, k, v =>
    if k = k' then (k, v) :: rest
    else if k < k' then (k, v) :: (k', v') :: rest
    else (k', v') :: setParam rest k v

/-- One `key=value` (or bare `key`) segment of the query. -/
def parseParam (ps : List (String × String)) (seg : List Char) :
    List (String × String) :=
  match splitAt? '=' seg with
  | some (k, v) => setParam ps (String.ofList k) (String.ofList v)
  | none => setParam ps (String.ofList seg) ""

/-- `ParseParams`: the `&`-separated segments in order, later ones winning.
The loop stops once `start` reaches the end, so nothing is read after a
trailing `&`. -/
def parseParams (query : List Char) : List (String × String) :=
  let segs := query.splitOn '&'
  let segs := if segs.getLast? = some [] then segs.dropLast else segs
  segs.foldl parseParam []

/-! ## The parser -/

/-- The host name and port of the text after the user-info; `none` for a
port that is not a decimal `int64_t`. -/
def parseHostPort (host : List Char) : Option (List Char × Nat) :=
  match splitAt? ':' host with
  | none => some (host, 0)
  | some (name, port) => (parseBelow (2 ^ 63) port).map fun p => (name, p)

/-- Path and query of what follows the authority. -/
def parsePathQuery (rest : List Char) : List Char × List (String × String) :=
  match splitAt? '?' rest with
  | some (path, query) => (path, parseParams query)
  | none => (rest, [])

/-- `StandardUri(uri)`, the constructor that calls `Parse`. -/
def parse (uri : String) : StandardUri :=
  match splitProtocol uri.toList with
  | none => {}
  | some (protocol, rest) =>
    let authority := rest.takeWhile fun c => c ≠ '/' ∧ c ≠ '?'
    let (userInfo, host) := (splitAt? '@' authority).getD ([], authority)
    match parseHostPort host with
    | none => {}
    | some (hostname, port) =>
      let (path, params) := parsePathQuery (rest.drop authority.length)
      { protocol := String.ofList protocol
        userInfo := String.ofList userInfo
        hostname := String.ofList hostname
        port, path := String.ofList path, params }

def valid (u : StandardUri) : Bool := u.protocol ≠ ""

/-- `GetParam`: the empty string when the key is absent. -/
def getParam (u : StandardUri) (key : String) : String :=
  (u.params.lookup key).getD ""

/-- `GetParamAs<uint64_t>(key, t)`: the new value of `t`. It keeps its old
value unless the parameter is there and is one whole decimal `uint64_t`. -/
def getParamAs (u : StandardUri) (key : String) (t : Nat) : Nat :=
  match u.params.lookup key with
  | none => t
  | some val => (parseBelow (2 ^ 64) val.toList).getD t

end StandardUri

end TairKvCache
