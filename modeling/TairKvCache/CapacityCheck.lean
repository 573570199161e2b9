import TairKvCache.Slotwise

/-!
# Who is refused at capacity

`ExecuteRmwUpsert` compares the new keys of a batch plus `key_count_` with
`max_key_count_`. A location-level update has no new keys, and still the whole
batch is refused with `EC_NOSPC` when the count alone is above the limit: the
rejection is not restricted to new keys unless the caller tracks them
(`preserve_existing_updates_when_full`), and updates, compare-and-swaps and
conditional deletes do not.
-/

namespace TairKvCache

open Lib List Indexer Backend Decision

/-! ## Backends that have room -/

def Fault.ec : Fault → ErrorCode
  | .rejected c | .unacked c => c.ec

variable {modifier : LocationModifier π} {π : Type} (m : Manager)
    {slots : List (LocationId × LocationRead)} {f : WriteFaults}

namespace Manager

end Manager

/-! ## Decisions -/

namespace Indexer

variable {π : Type} {ix : Indexer} {env : BatchFaults} {ds : List (Decision π)}

end Indexer

/-! ## Updates, compare-and-swaps and conditional deletes -/

end TairKvCache
