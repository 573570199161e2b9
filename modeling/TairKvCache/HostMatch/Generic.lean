import TairKvCache.HostMatch.Projection
import TairKvCache.Lib.BitWords

/-!
# The host queries over full tables

`PrefixMatchByHost` and `PrefixMatchWithMambaByHost` (`manager/meta_searcher.cc`)
with a positive `p2p_host_count`: every key is read, every readable prefix key is
projected into a table from hosts to spec names, and the lengths of a host are
computed from its column of the tables. The best hosts are then extended by what
one peer could send them, which leaves `local` as it is.
-/

namespace TairKvCache.HostMatch

open Lib List

/-! ## Tables -/

abbrev HostToSpecNames := OrdMap String (Finset String)

/-- `host_specs[host].emplace(spec_name)`. -/
def addSpecName (m : HostToSpecNames) (v : HostVisit) : HostToSpecNames :=
  m.insert v.host (insert v.specName ((m.find v.host).getD ∅))

def tableOf (visits : List HostVisit) : HostToSpecNames := visits.foldl addSpecName OrdMap.empty

structure KeyTables where
  hosts : HostToSpecNames
  vineyard : HostToSpecNames

def buildHostSpecNamesForOneKey (q : HostQuery) (locations : List CacheLocation) : KeyTables :=
  let visits := visitHostSpecsForOneKey q true locations
  ⟨tableOf visits, tableOf (visits.filter (·.isVineyard))⟩

/-! ## Matches -/

structure HostCacheMatch where
  hostIpPort : String
  localMatch : Nat
  p2p1Fetch : Nat
  p2p1TotalMatch : Nat
deriving DecidableEq, Repr

def HostCacheMatch.localPart (m : HostCacheMatch) : String × Nat := (m.hostIpPort, m.localMatch)

/-! ## Selecting a peer -/

structure V6DPeerSelection where
  peerAddr : String := ""
  coveredIndices : List Nat := []
deriving DecidableEq, Repr

/-- Keep the selection that covers more, the smaller address among equals. -/
def V6DPeerSelection.better (best : V6DPeerSelection) (addr : String) (covered : List Nat) :
    V6DPeerSelection :=
  if covered.length > best.coveredIndices.length
      || (covered.length = best.coveredIndices.length
        && (best.peerAddr = "" || addr < best.peerAddr)) then
    ⟨addr, covered⟩
  else best

/-- `SelectV6DByPrefix`. The candidate indices come with the peers of each. -/
def selectV6DByPrefix (candidates : List (Nat × List String)) : V6DPeerSelection :=
  match candidates with
  | [] => {}
  | (_, addrs) :: _ =>
    addrs.foldl (fun best addr =>
      best.better addr ((candidates.takeWhile fun c => c.2.contains addr).map (·.1))) {}

def selectV6DByCoverage (candidates : List (Nat × List String)) : V6DPeerSelection :=
  (candidates.flatMap (·.2)).dedup.foldl (fun best addr =>
    best.better addr (candidates.flatMap fun c => (c.2.filter (· = addr)).map fun _ => c.1)) {}

/-! ## Spec groups -/

structure LocationSpecGroup where
  name : String
  specNames : List String
deriving DecidableEq, Repr

def hasAllLocationSpecGroups (specNames : Finset String) (groups : List LocationSpecGroup) :
    Bool :=
  groups.all fun group => group.specNames.all fun name => name ∈ specNames

def hasLocationSpecGroup (localSpecs peerSpecs : Finset String) (group : LocationSpecGroup) :
    Bool :=
  group.specNames.all fun name => name ∈ localSpecs || name ∈ peerSpecs

def mergeLocationSpecGroup (target source : Finset String) (group : LocationSpecGroup) :
    Finset String :=
  group.specNames.foldl (fun t name => if name ∈ source then insert name t else t) target

/-! ## Peers of a host -/

/-- The keys of a prefix a host lacks, each with the peers that could send it;
the prefix ends at the first such key without a peer. -/
def prefixCandidates (hit : KeyTables → Bool) (peers : KeyTables → List String) :
    Nat → List KeyTables → List (Nat × List String)
  | _, [] => []
  | i, t :: ts =>
    if hit t then prefixCandidates hit peers (i + 1) ts
    else if (peers t).isEmpty then []
    else (i, peers t) :: prefixCandidates hit peers (i + 1) ts

/-- The peers of a key other than the host, in the order of the table. -/
def peersWith (host : String) (ok : Finset String → Bool) (t : KeyTables) : List String :=
  (t.vineyard.entries.filter fun e => e.1 ≠ host && ok e.2).map (·.1)

def selectP2PByPrefix (host : String) (tables : List KeyTables)
    (requiredGroups : List LocationSpecGroup) : V6DPeerSelection :=
  let hit (t : KeyTables) := (t.hosts.find host).any fun specs =>
    requiredGroups.isEmpty || hasAllLocationSpecGroups specs requiredGroups
  let peers (t : KeyTables) := peersWith host (fun specs => specs ≠ ∅
    && (requiredGroups.isEmpty
      || hasAllLocationSpecGroups (specs ∪ (t.hosts.find host).getD ∅) requiredGroups)) t
  selectV6DByPrefix (prefixCandidates hit peers 0 tables)

def selectP2PGroupByPrefix (host : String) (tables : List KeyTables)
    (group : LocationSpecGroup) : V6DPeerSelection :=
  let own (t : KeyTables) := (t.hosts.find host).getD ∅
  selectV6DByPrefix (prefixCandidates (fun t => hasAllLocationSpecGroups (own t) [group])
    (fun t => peersWith host (fun specs => hasLocationSpecGroup (own t) specs group) t) 0 tables)

/-- `GroupAwareP2PSelection`: the queries are a key and a group each. -/
structure GroupAwareP2PSelection where
  selection : V6DPeerSelection
  queries : List (Nat × LocationSpecGroup)

/-- The keys below `blockCount` at which the host lacks `group` and a peer has
the rest of it. -/
def groupQueries (host : String) (tables : List KeyTables) (blockCount : Nat)
    (group : LocationSpecGroup) : List ((Nat × LocationSpecGroup) × List String) :=
  ((tables.take blockCount).zipIdx).filterMap fun (t, i) =>
    let own := (t.hosts.find host).getD ∅
    let peers := peersWith host (fun specs => hasLocationSpecGroup own specs group) t
    if hasAllLocationSpecGroups own [group] || peers.isEmpty then none
    else some ((i, group), peers)

def selectP2PGroupsByCoverage (host : String) (tables : List KeyTables) (blockCount : Nat)
    (requiredGroups : List LocationSpecGroup) : GroupAwareP2PSelection :=
  let found := requiredGroups.flatMap (groupQueries host tables blockCount)
  ⟨selectV6DByCoverage (found.zipIdx.map fun (query, i) => (i, query.2)), found.map (·.1)⟩

/-! ## Lengths -/

/-- `MergeHostAndP2PSpecs`: the host's spec names key by key, with what the peer
sends at the covered keys. -/
def mergeHostAndP2PSpecs (host : String) (tables : List KeyTables)
    (selection : V6DPeerSelection) : List (Finset String) :=
  tables.zipIdx.map fun (t, i) =>
    let own := (t.hosts.find host).getD ∅
    if selection.coveredIndices.contains i then
      own ∪ (t.vineyard.find selection.peerAddr).getD ∅
    else own

/-- `--len` of an eagle pop, which stops at 0. -/
def eaglePop (useEaglePop : Bool) (len : Nat) : Nat := if useEaglePop then len - 1 else len

def computePrefixMatchBlocks (specsByKey : List (Finset String)) (useEaglePop : Bool) : Nat :=
  eaglePop useEaglePop (specsByKey.takeWhile (· ≠ ∅)).length

/-- The length of the prefix with every full group. -/
def fullPrefixLen (specsByKey : List (Finset String)) (useEaglePop : Bool)
    (fullGroups : List LocationSpecGroup) : Nat :=
  eaglePop useEaglePop (specsByKey.takeWhile (hasAllLocationSpecGroups · fullGroups)).length

def computeMambaPrefixMatchBlocks (specsByKey : List (Finset String)) (useEaglePop : Bool)
    (fullGroups mambaStateGroups : List LocationSpecGroup) : Nat :=
  lastBelow (fun i => hasAllLocationSpecGroups (specsByKey.getD i ∅) mambaStateGroups)
    (fullPrefixLen specsByKey useEaglePop fullGroups)

def selectTopHostIndicesByLocal (hostMatches : List HostCacheMatch) (p2pHostCount : Nat) :
    List Nat :=
  let before (a b : HostCacheMatch × Nat) : Prop :=
    a.1.localMatch > b.1.localMatch
      ∨ (a.1.localMatch = b.1.localMatch ∧ a.1.hostIpPort ≤ b.1.hostIpPort)
  let hosts := hostMatches.zipIdx.filter fun m => m.1.localMatch > 0
  ((hosts.insertionSort before).take p2pHostCount).map (·.2)

/-! ## The queries -/

/-- The keys before the first one that was not read with `EC_OK`. -/
def readablePrefix (db : StoredValues) (keys : List KeyType) : List KeyType :=
  keys.takeWhile fun k => (db.read k).1 = .ok

/-- The code that ends the readable prefix, `EC_OK` when nothing does. -/
def terminalCode (db : StoredValues) (keys : List KeyType) : ErrorCode :=
  match keys.drop (readablePrefix db keys).length with
  | [] => .ok
  | k :: _ => (db.read k).1

/-- The query fails on a code other than the absence of the key. -/
def readFails (ec : ErrorCode) : Bool := ec ≠ .ok && ec ≠ .noent

/-- The common frame of the two queries: `localOf` measures a host, `peerOf`
gives `p2p_1_fetch` and `p2p_1_total_match` of a selected one. -/
def matchByTables (db : StoredValues) (q : HostQuery) (localOf : String → List KeyTables → Nat)
    (peerOf : List KeyTables → HostCacheMatch → Nat × Nat) (p2pHostCount : Nat) :
    ErrorCode × List HostCacheMatch :=
  if readFails (terminalCode db q.keys) then (terminalCode db q.keys, [])
  else
    let tables := (readablePrefix db q.keys).map fun k =>
      buildHostSpecNamesForOneKey q (db.read k).2
    match tables with
    | [] => (.ok, [])
    | first :: _ =>
      let hostMatches := first.hosts.entries.map fun e =>
        let len := localOf e.1 tables
        HostCacheMatch.mk e.1 len 0 len
      let extended := (selectTopHostIndicesByLocal hostMatches p2pHostCount).foldl
        (fun ms i => ms.modify i fun m =>
          { m with p2p1Fetch := (peerOf tables m).1, p2p1TotalMatch := (peerOf tables m).2 })
        hostMatches
      (.ok, extended.filter fun m => m.localMatch > 0)

/-- The number of distinct keys at the given indices. -/
def fetchedBlockKeys (keys : List KeyType) (indices : List Nat) : Nat :=
  (indices.filterMap (keys[·]?)).dedup.length

/-- `PrefixMatchByHost` with a positive `p2p_host_count`. -/
def prefixMatchByHost (db : StoredValues) (q : HostQuery) (p2pHostCount : Nat) :
    ErrorCode × List HostCacheMatch :=
  matchByTables db q
    (fun host tables => computePrefixMatchBlocks (mergeHostAndP2PSpecs host tables {})
      q.useEaglePop)
    (fun tables m =>
      let selection := selectP2PByPrefix m.hostIpPort tables []
      (fetchedBlockKeys q.keys selection.coveredIndices,
        if selection.coveredIndices = [] then m.localMatch
        else computePrefixMatchBlocks (mergeHostAndP2PSpecs m.hostIpPort tables selection)
          q.useEaglePop))
    p2pHostCount

/-- `ClassifySpecGroups`: the full and the mamba state groups; `none` is
`EC_BADARGS`. -/
def classifySpecGroups (groups : List LocationSpecGroup) :
    Option (List LocationSpecGroup × List LocationSpecGroup) :=
  let category (group : LocationSpecGroup) : Char := group.name.toList.headD '?'
  if groups.any fun group => category group ≠ 'F' && category group ≠ 'L' then none
  else
    let full := groups.filter fun group => category group = 'F'
    let state := groups.filter fun group => category group = 'L'
    if full.isEmpty || state.isEmpty then none else some (full, state)

/-- One peer's share of a group, merged in at the covered keys that it has; the
keys it was fetched at. -/
def fetchGroup (tables : List KeyTables) (group : LocationSpecGroup) (peer : String)
    (acc : List (Finset String) × List Nat) (index : Nat) : List (Finset String) × List Nat :=
  match (tables[index]?).bind fun t => t.vineyard.find peer with
  | none => acc
  | some specs => (acc.1.modify index (mergeLocationSpecGroup · specs group), acc.2 ++ [index])

/-- What peers add to a host under mamba: the full groups one by one along the
prefix, then the state groups wherever they are missing in it. -/
def mambaPeers (q : HostQuery) (full state : List LocationSpecGroup) (tables : List KeyTables)
    (m : HostCacheMatch) : Nat × Nat :=
  let host := m.hostIpPort
  let combined := full.foldl (fun acc group =>
      let selection := selectP2PGroupByPrefix host tables group
      selection.coveredIndices.foldl (fetchGroup tables group selection.peerAddr) acc)
    (mergeHostAndP2PSpecs host tables {}, [])
  let len := fullPrefixLen combined.1 q.useEaglePop full
  let combined :=
    if len > 0 then
      let chosen := selectP2PGroupsByCoverage host tables len state
      (chosen.selection.coveredIndices.filterMap (chosen.queries[·]?)).foldl
        (fun acc query => fetchGroup tables query.2 chosen.selection.peerAddr acc query.1) combined
    else combined
  (fetchedBlockKeys q.keys combined.2,
    computeMambaPrefixMatchBlocks combined.1 q.useEaglePop full state)

/-- `PrefixMatchWithMambaByHost` with a positive `p2p_host_count`, once the
groups are classified. -/
def prefixMatchWithMambaByHost (db : StoredValues) (q : HostQuery)
    (full state : List LocationSpecGroup) (p2pHostCount : Nat) : ErrorCode × List HostCacheMatch :=
  matchByTables db q
    (fun host tables => computeMambaPrefixMatchBlocks (mergeHostAndP2PSpecs host tables {})
      q.useEaglePop full state)
    (mambaPeers q full state) p2pHostCount

/-! ## The columns of the tables -/

theorem find_addSpecName (m : HostToSpecNames) (v : HostVisit) (host : String) :
    (addSpecName m v).find host =
      if v.host = host then some (insert v.specName ((m.find host).getD ∅)) else m.find host := by
  rw [addSpecName, OrdMap.find_insert]
  split
  · next h => rw [h]
  · rfl

theorem find_tableOf (visits : List HostVisit) (host : String) : (tableOf visits).find host =
      if ∃ v ∈ visits, v.host = host then
        some ((visits.filter fun v => v.host = host).map (·.specName)).toFinset
      else none := by
  induction visits using List.reverseRecOn with
  | nil => simp [tableOf]
  | append_singleton visits v ih =>
    rw [tableOf, foldl_append, ← tableOf, foldl_cons, foldl_nil, find_addSpecName, ih]
    by_cases hv : v.host = host
    · by_cases hs : ∃ v ∈ visits, v.host = host
      · have hs' : ∃ w ∈ visits ++ [v], w.host = host :=
          ⟨v, mem_append_right _ mem_cons_self, hv⟩
        rw [if_pos hv, if_pos hs, if_pos hs']
        congr 1
        ext name
        simp [filter_append, hv]
      · have hnone : visits.filter (fun v => v.host = host) = [] :=
          filter_eq_nil_iff.mpr fun w hw => by simpa using fun h => hs ⟨w, hw, h⟩
        simp [hv, hs, hnone]
    · simp [hv]

theorem find_hosts (q : HostQuery) (locations : List CacheLocation) (host : String) :
    ((buildHostSpecNamesForOneKey q locations).hosts.find host).getD ∅ =
      specNamesAt q locations host := by
  rw [buildHostSpecNamesForOneKey, find_tableOf]
  split
  · rfl
  · next h =>
    have hnone : (visitHostSpecsForOneKey q true locations).filter (fun v => v.host = host) = [] :=
      filter_eq_nil_iff.mpr fun w hw => by simpa using fun e => h ⟨w, hw, e⟩
    simp [specNamesAt, hnone]

theorem hosts_keys (q : HostQuery) (locations : List CacheLocation) :
    (buildHostSpecNamesForOneKey q locations).hosts.entries.map (·.1) =
      sortUnique (hostsAt q locations) := by
  refine eq_of_sorted_of_mem_iff ?_ (sorted_sortUnique _) fun x => ?_
  · exact pairwise_map.mpr (buildHostSpecNamesForOneKey q locations).hosts.sorted
  · rw [mem_sortUnique, mem_hosts_iff, mem_map]
    constructor
    · rintro ⟨e, he, rfl⟩
      have hf := (OrdMap.find_eq_some_iff _ e.1 e.2).mpr he
      rw [buildHostSpecNamesForOneKey, find_tableOf] at hf
      split at hf
      · next h => exact h
      · cases hf
    · intro h
      have hf : ∃ names, (buildHostSpecNamesForOneKey q locations).hosts.find x = some names := by
        rw [buildHostSpecNamesForOneKey, find_tableOf, if_pos h]
        exact ⟨_, rfl⟩
      obtain ⟨names, hf⟩ := hf
      exact ⟨(x, names), (OrdMap.find_eq_some_iff _ x names).mp hf, rfl⟩

theorem mergeHostAndP2PSpecs_none (host : String) (tables : List KeyTables) :
    mergeHostAndP2PSpecs host tables {} = tables.map fun t => (t.hosts.find host).getD ∅ := by
  simp only [mergeHostAndP2PSpecs, contains_nil, Bool.false_eq_true, if_false]
  conv_rhs => rw [← zipIdx_map_fst 0 tables, map_map]
  rfl

/-! ## The local part -/

/-- The spec names of a host along the readable keys. -/
def column (db : StoredValues) (q : HostQuery) (host : String) : List (Finset String) :=
  (readablePrefix db q.keys).map fun k => specNamesAt q (db.read k).2 host

/-- The candidate hosts: those of the first key, if it can be read. -/
def candidateHosts (db : StoredValues) (q : HostQuery) : List String :=
  match readablePrefix db q.keys with
  | [] => []
  | k :: _ => sortUnique (hostsAt q (db.read k).2)

theorem localPart_extend (f g : HostCacheMatch → Nat) (indices : List Nat)
    (ms : List HostCacheMatch) : (indices.foldl (fun ms i => ms.modify i fun m =>
      { m with p2p1Fetch := f m, p2p1TotalMatch := g m }) ms).map HostCacheMatch.localPart =
      ms.map HostCacheMatch.localPart := by
  induction indices generalizing ms with
  | nil => rfl
  | cons i indices ih =>
    rw [foldl_cons, ih]
    apply ext_getElem?
    intro j
    rw [getElem?_map, getElem?_map, getElem?_modify]
    cases ms[j]? with
    | none => simp
    | some m => by_cases h : i = j <;> simp [h, HostCacheMatch.localPart]

theorem map_localPart_filter (ms : List HostCacheMatch) :
    (ms.filter fun m => m.localMatch > 0).map HostCacheMatch.localPart =
      (ms.map HostCacheMatch.localPart).filter fun p => p.2 > 0 := by
  rw [filter_map]
  rfl

/-- The hosts with their lengths, where these are positive. -/
def withLengths (hosts : List String) (len : String → Nat) : List (String × Nat) :=
  (hosts.map fun host => (host, len host)).filter fun p => p.2 > 0

theorem mem_withLengths {hosts : List String} {len : String → Nat} {p : String × Nat} :
    p ∈ withLengths hosts len ↔ p.1 ∈ hosts ∧ p.2 = len p.1 ∧ 0 < p.2 := by
  simp only [withLengths, mem_filter, mem_map, decide_eq_true_eq]
  constructor
  · rintro ⟨⟨host, hh, rfl⟩, hpos⟩
    exact ⟨hh, rfl, hpos⟩
  · rintro ⟨hh, heq, hpos⟩
    exact ⟨⟨p.1, hh, by rw [← heq]⟩, hpos⟩

theorem matchByTables_localPart {db : StoredValues} {q : HostQuery}
    {localOf : String → List KeyTables → Nat} (measure : List (Finset String) → Nat)
    (hlocal : ∀ host tables, localOf host tables = measure (mergeHostAndP2PSpecs host tables {}))
    (peerOf : List KeyTables → HostCacheMatch → Nat × Nat) (p2pHostCount : Nat) :
    ((matchByTables db q localOf peerOf p2pHostCount).1,
      (matchByTables db q localOf peerOf p2pHostCount).2.map HostCacheMatch.localPart) =
      if readFails (terminalCode db q.keys) then (terminalCode db q.keys, [])
      else (.ok, withLengths (candidateHosts db q) fun host => measure (column db q host)) := by
  unfold matchByTables
  split
  · rfl
  · have hcol : ∀ host, localOf host ((readablePrefix db q.keys).map fun k =>
        buildHostSpecNamesForOneKey q (db.read k).2) = measure (column db q host) := by
      intro host
      rw [hlocal, mergeHostAndP2PSpecs_none, map_map]
      congr 1
      exact map_congr_left fun k _ => find_hosts q (db.read k).2 host
    cases hk : readablePrefix db q.keys with
    | nil => simp [candidateHosts, hk, withLengths]
    | cons k rest =>
      rw [hk] at hcol
      simp only [map_cons] at hcol ⊢
      rw [map_localPart_filter, localPart_extend, map_map, withLengths, candidateHosts, hk]
      simp only [← hosts_keys, map_map]
      congr 2
      refine map_congr_left fun e _ => ?_
      exact congrArg (Prod.mk e.1) (hcol e.1)

end TairKvCache.HostMatch
