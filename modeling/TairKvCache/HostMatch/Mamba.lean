import TairKvCache.HostMatch.Presence

/-!
# The mamba host query without peers

`PrefixMatchWithMambaByHostWithoutP2P` (`manager/meta_searcher.cc`). A key counts
for a host when the host holds every spec of the full groups; the answer is the
last such key at which it also holds the state groups. The sweep keeps the seen
specs of a host as bits over the required names, and the keys with state as bits
over the keys.

The full tables take a host's names at a key it is absent from to be the empty
set; the sweep demands that the host is present. The two differ when no full group
names a spec: then the tables let the prefix run over keys the host does not have.
-/

namespace TairKvCache.HostMatch

open Lib List Words

/-! ## Required names -/

def namesOf (groups : List LocationSpecGroup) : List String := groups.flatMap (·.specNames)

def requiredSpecNames (full state : List LocationSpecGroup) : List String :=
  sortUnique (namesOf full ++ namesOf state)

/-- `build_required_mask`. -/
def requiredMask (required : List String) (groups : List LocationSpecGroup) : Words :=
  (namesOf groups).foldl (markSorted required) (zeros (wordCountForBits required.length))

theorem hasAll_iff (names : Finset String) (groups : List LocationSpecGroup) :
    hasAllLocationSpecGroups names groups = true ↔ ∀ name ∈ namesOf groups, name ∈ names := by
  simp only [hasAllLocationSpecGroups, all_eq_true, decide_eq_true_eq, namesOf, mem_flatMap]
  exact ⟨fun h name ⟨g, hg, hn⟩ => h g hg name hn, fun h g hg name hn => h name ⟨g, hg, hn⟩⟩

/-! ## One key -/

/-- `host_present` and the row of `seen_words` of a candidate. -/
structure HostFlags where
  present : Bool
  seen : Words
deriving DecidableEq

def HostFlags.see (required : List String) (f : HostFlags) (name : String) : HostFlags :=
  ⟨true, markSorted required f.seen name⟩

def visitFlags (candidates required : List String) (rows : List HostFlags) (v : HostVisit) :
    List HostFlags :=
  match findSorted candidates v.host with
  | none => rows
  | some h => rows.modify h (·.see required v.specName)

def flagsForOneKey (q : HostQuery) (candidates required : List String)
    (locations : List CacheLocation) : List HostFlags :=
  (visitHostSpecsForOneKey q true locations).foldl (visitFlags candidates required)
    (List.replicate candidates.length ⟨false, zeros (wordCountForBits required.length)⟩)

def HostFlags.holds (f : HostFlags) (mask : Words) : Bool := f.present && f.seen.covers mask

variable {required : List String} {h : Nat} {host : String} {q : HostQuery} {db : StoredValues}
    {i : Nat} {full state : List LocationSpecGroup} {mode : ReadMode} {hn : 0 < q.keys.length}
    {out : ErrorCode × List HostCacheMatch}

theorem getElem?_foldl_visitFlags {candidates : List String} (hs : candidates.Pairwise (· < ·))
    (hh : candidates[h]? = some host) (visits : List HostVisit) (rows : List HostFlags) :
    (visits.foldl (visitFlags candidates required) rows)[h]? =
      rows[h]?.map fun f => ((visits.filter fun v => v.host = host).map (·.specName)).foldl
        (HostFlags.see required) f := by
  induction visits generalizing rows with
  | nil => simp
  | cons v visits ih =>
    rw [foldl_cons, ih]
    by_cases hv : v.host = host
    · have hfind : findSorted candidates v.host = some h :=
        (findSorted_eq_some_iff hs).mpr (hv ▸ hh)
      have hrow : (visitFlags candidates required rows v)[h]? =
          rows[h]?.map (·.see required v.specName) := by
        simp [visitFlags, hfind]
      rw [hrow, filter_cons, if_pos (by simpa using hv)]
      cases rows[h]? <;> rfl
    · have hrow : (visitFlags candidates required rows v)[h]? = rows[h]? := by
        unfold visitFlags
        split
        · rfl
        · next g hg =>
          have hne : g ≠ h := by
            rintro rfl
            have := (findSorted_eq_some_iff hs).mp hg
            exact hv (Option.some.inj (this.symm.trans hh))
          simp [hne]
      rw [hrow, filter_cons, if_neg (by simpa using hv)]

theorem foldl_see (required : List String) (names : List String) (f : HostFlags) :
    names.foldl (HostFlags.see required) f =
      ⟨f.present || !names.isEmpty, names.foldl (markSorted required) f.seen⟩ := by
  induction names generalizing f with
  | nil => simp
  | cons name names ih =>
    rw [foldl_cons, ih]
    simp [HostFlags.see]

theorem length_foldl_markSorted (required names : List String) (ws : Words) :
    (names.foldl (markSorted required) ws).length = ws.length := by
  induction names generalizing ws with
  | nil => rfl
  | cons name names ih => rw [foldl_cons, ih, length_markSorted]

theorem covers_mask {groups : List LocationSpecGroup} (names : List String)
    (hs : required.Pairwise (· < ·)) (hsub : ∀ name ∈ namesOf groups, name ∈ required) :
    covers (names.foldl (markSorted required)
        (zeros (wordCountForBits required.length))) (requiredMask required groups) = true ↔
      ∀ name ∈ namesOf groups, name ∈ names := by
  have hlen : ∀ l : List String, (l.foldl (markSorted required)
      (zeros (wordCountForBits required.length))).length
        = wordCountForBits required.length := fun l => by
    rw [length_foldl_markSorted, length_zeros]
  rw [requiredMask, covers_iff ((hlen names).trans (hlen (namesOf groups)).symm)]
  constructor
  · intro h name hname
    obtain ⟨j, hj⟩ := mem_iff_getElem?.mp (hsub name hname)
    have := h j ((getBit_marked hs hj _).trans (decide_eq_true hname))
    rw [getBit_marked hs hj] at this
    exact of_decide_eq_true this
  · intro h j hj
    rw [getBit_foldl_markSorted _ _ (length_zeros _), getBit_zeros, Bool.false_or,
      any_eq_true] at hj ⊢
    obtain ⟨name, hname, hf⟩ := hj
    exact ⟨name, h name hname, hf⟩

theorem flags_holds {candidates : List String} {groups : List LocationSpecGroup}
    (hc : candidates.Pairwise (· < ·)) (hs : required.Pairwise (· < ·))
    (hsub : ∀ name ∈ namesOf groups, name ∈ required) (hh : candidates[h]? = some host)
    (locations : List CacheLocation) : ((flagsForOneKey q candidates required locations)[h]?.any
      (·.holds (requiredMask required groups))) =
      (decide (host ∈ hostsAt q locations) &&
        hasAllLocationSpecGroups (specNamesAt q locations host) groups) := by
  have hlt : h < candidates.length := (List.getElem?_eq_some_iff.mp hh).1
  have hnames := specNamesAt_nonempty_iff q locations host
  rw [flagsForOneKey, getElem?_foldl_visitFlags hc hh, getElem?_replicate, if_pos hlt]
  rw [specNamesAt] at hnames ⊢
  generalize ((visitHostSpecsForOneKey q true locations).filter
    (fun v => v.host = host)).map (·.specName) = names at hnames ⊢
  have hpresent : (!names.isEmpty) = decide (host ∈ hostsAt q locations) := by
    rw [Bool.eq_iff_iff, decide_eq_true_eq, ← hnames, toFinset_nonempty_iff]
    simp
  have hcover := (covers_mask names hs hsub).trans
    ((hasAll_iff names.toFinset groups).trans (by simp only [mem_toFinset])).symm
  rw [Option.map_some, Option.any_some, foldl_see, HostFlags.holds, Bool.false_or, hpresent,
    Bool.eq_iff_iff.mpr hcover]

/-! ## The query -/

def mambaVisitor (db : StoredValues) (q : HostQuery) (full state : List LocationSpecGroup) :
    Visitor :=
  let candidates := candidateHosts db q
  let required := requiredSpecNames full state
  let flags (i : Nat) := flagsForOneKey q candidates required (locationsAt db q i)
  { hosts := candidates.length
    firstIndex := 0
    hasFull := fun i h => (flags i)[h]?.any (·.holds (requiredMask required full))
    hasState := fun i h => (flags i)[h]?.any (·.holds (requiredMask required state)) }

def mambaSweep (db : StoredValues) (q : HostQuery) (mode : ReadMode) (hn : 0 < q.keys.length)
    (full state : List LocationSpecGroup) : Sweep :=
  sweepOf db q mode hn (mambaVisitor db q full state)

/-- The reduction of a host: the last key with state in its full prefix. -/
def mambaLen (q : HostQuery) (s : SweepState) (validKeyCount h : Nat) : Nat :=
  (s.stateWords h).highestBelow (eaglePop q.useEaglePop (min validKeyCount (s.stops h)))

/-- Both flag matrices fit a `size_t`; otherwise `projection_invalid`. -/
def MatricesFit (db : StoredValues) (q : HostQuery) (full state : List LocationSpecGroup) : Prop :=
  candidateHosts db q = [] ∨
    (wordCountForBits (requiredSpecNames full state).length
        ≤ (2 ^ 64 - 1) / (candidateHosts db q).length ∧
      wordCountForBits q.keys.length ≤ (2 ^ 64 - 1) / (candidateHosts db q).length)

/-- The sweep and the reduction can return `out`. -/
def MambaSweepReturns (db : StoredValues) (q : HostQuery) (mode : ReadMode)
    (hn : 0 < q.keys.length) (full state : List LocationSpecGroup)
    (out : ErrorCode × List HostCacheMatch) : Prop :=
  ∃ s, (mambaSweep db q mode hn full state).machine.Reach Machine.anyAction s ∧
    (mambaSweep db q mode hn full state).Finished s ∧
    out = finishMatch (candidateHosts db q) (mambaSweep db q mode hn full state) s (mambaLen q s)

/-- `PrefixMatchWithMambaByHost` with `p2p_host_count` 0 can return `out`. -/
def PrefixMatchWithMambaByHostWithoutP2P (db : StoredValues) (q : HostQuery) (mode : ReadMode)
    (groups : List LocationSpecGroup) (out : ErrorCode × List HostCacheMatch) : Prop :=
  if hn : 0 < q.keys.length then
    match classifySpecGroups groups with
    | none => out = (.badargs, [])
    | some (full, state) =>
      (MatricesFit db q full state ∧ MambaSweepReturns db q mode hn full state out) ∨
        (¬MatricesFit db q full state ∧ out = (.error, []))
  else out = (.ok, [])

/-- `PrefixMatchWithMambaByHost` with a positive `p2p_host_count`. -/
def prefixMatchWithMambaByHostQuery (db : StoredValues) (q : HostQuery)
    (groups : List LocationSpecGroup) (p2pHostCount : Nat) : ErrorCode × List HostCacheMatch :=
  if q.keys.isEmpty then (.ok, [])
  else
    match classifySpecGroups groups with
    | none => (.badargs, [])
    | some (full, state) => prefixMatchWithMambaByHost db q full state p2pHostCount

/-! ## The length of a host on either path -/

/-- The host holds the groups at key `i`; an absent host holds what is empty. -/
def holdsAt (db : StoredValues) (q : HostQuery) (host : String) (groups : List LocationSpecGroup)
    (i : Nat) : Bool :=
  hasAllLocationSpecGroups (specNamesAt q (locationsAt db q i) host) groups

def presentAt (db : StoredValues) (q : HostQuery) (host : String) (i : Nat) : Bool :=
  host ∈ hostsAt q (locationsAt db q i)

def tableLen (db : StoredValues) (q : HostQuery) (full state : List LocationSpecGroup)
    (host : String) : Nat :=
  lastBelow (holdsAt db q host state)
    (eaglePop q.useEaglePop (leading (holdsAt db q host full) (readablePrefix db q.keys).length))

def sweepLen (db : StoredValues) (q : HostQuery) (full state : List LocationSpecGroup)
    (host : String) : Nat :=
  lastBelow (fun i => presentAt db q host i && holdsAt db q host state i)
    (eaglePop q.useEaglePop (leading (fun i => presentAt db q host i && holdsAt db q host full i)
      (readablePrefix db q.keys).length))

theorem eaglePop_le (pop : Bool) (n : Nat) : eaglePop pop n ≤ n := by
  unfold eaglePop
  split <;> omega

theorem eaglePop_mono (pop : Bool) {m n : Nat} (h : m ≤ n) : eaglePop pop m ≤ eaglePop pop n := by
  unfold eaglePop
  split <;> omega

theorem column_getElem? (hi : i < (readablePrefix db q.keys).length) :
    (column db q host)[i]? = some (specNamesAt q (locationsAt db q i) host) := by
  obtain ⟨k, hk, -, hloc⟩ := readable_key (q := q) hi
  rw [column, getElem?_map, hk, hloc]
  rfl

theorem computeMamba_column (db : StoredValues) (q : HostQuery)
    (full state : List LocationSpecGroup) (host : String) :
    computeMambaPrefixMatchBlocks (column db q host) q.useEaglePop full state =
      tableLen db q full state host := by
  have hlen : (column db q host).length = (readablePrefix db q.keys).length := by simp [column]
  have hfull : fullPrefixLen (column db q host) q.useEaglePop full =
      eaglePop q.useEaglePop (leading (holdsAt db q host full)
        (readablePrefix db q.keys).length) := by
    rw [fullPrefixLen, ← hlen]
    congr 1
    refine length_takeWhile_eq fun i names hi => ?_
    have hlt := hlen ▸ (List.getElem?_eq_some_iff.mp hi).1
    rw [column_getElem? hlt] at hi
    rw [← Option.some.inj hi]
    rfl
  rw [computeMambaPrefixMatchBlocks, tableLen, hfull]
  refine lastBelow_congr fun i hi => ?_
  have hlt : i < (readablePrefix db q.keys).length :=
    hi.trans_le ((eaglePop_le _ _).trans (leading_le _ _))
  rw [getD_eq_getElem?_getD, column_getElem? hlt]
  rfl

theorem mamba_tables_localView (db : StoredValues) (q : HostQuery)
    (full state : List LocationSpecGroup) (p2pHostCount : Nat) :
    localView (prefixMatchWithMambaByHost db q full state p2pHostCount) =
      if readFails (terminalCode db q.keys) then (terminalCode db q.keys, [])
      else (.ok, withLengths (candidateHosts db q) (tableLen db q full state)) := by
  rw [← funext (computeMamba_column db q full state)]
  exact matchByTables_localPart
    (fun specs => computeMambaPrefixMatchBlocks specs q.useEaglePop full state)
    (fun _ _ => rfl) _ p2pHostCount

theorem mamba_hasFull (hh : (candidateHosts db q)[h]? = some host) :
    (mambaVisitor db q full state).hasFull i h =
      (presentAt db q host i && holdsAt db q host full i) :=
  flags_holds (sorted_candidateHosts db q) (sorted_sortUnique _)
    (fun _ hname => mem_sortUnique.mpr (mem_append_left _ hname)) hh _

theorem mamba_hasState (hh : (candidateHosts db q)[h]? = some host) :
    (mambaVisitor db q full state).hasState i h =
      (presentAt db q host i && holdsAt db q host state i) :=
  flags_holds (sorted_candidateHosts db q) (sorted_sortUnique _)
    (fun _ hname => mem_sortUnique.mpr (mem_append_right _ hname)) hh _

theorem mamba_skips (db : StoredValues) (q : HostQuery) (mode : ReadMode) (hn : 0 < q.keys.length)
    (full state : List LocationSpecGroup) : (mambaSweep db q mode hn full state).SkipsOk :=
  fun i hi => absurd hi (Nat.not_lt_zero i)

theorem mambaLen_eq {s : SweepState}
    (hr : (mambaSweep db q mode hn full state).machine.Reach Machine.anyAction s)
    (hfin : (mambaSweep db q mode hn full state).Finished s)
    (hh : (candidateHosts db q)[h]? = some host) :
    mambaLen q s s.currentStop h = sweepLen db q full state host := by
  have hi := Sweep.inv_reach hr
  have hskip := mamba_skips db q mode hn full state
  have hm := sweepOf_readable db q mode hn (mambaVisitor db q full state)
  have hlt := (List.getElem?_eq_some_iff.mp hh).1
  have hrun : leading (fun i => (mambaVisitor db q full state).hasFull i h)
      (readablePrefix db q.keys).length = leading (fun i => presentAt db q host i &&
        holdsAt db q host full i) (readablePrefix db q.keys).length :=
    leading_congr fun i _ => mamba_hasFull hh
  rw [mambaLen, highestBelow_eq, Sweep.prefix_len hi hfin hskip hm hlt, sweepLen, ← hrun]
  refine lastBelow_congr fun i hi' => ?_
  rw [← mamba_hasState hh]
  exact Sweep.state_bits hi hfin hskip hm hlt (hi'.trans_le (eaglePop_le _ _))

/-! ## Where the paths agree -/

def NamesFull (full : List LocationSpecGroup) : Prop := namesOf full ≠ []

/-- The host misses a readable key and has its state at a readable key from there
on; an eagle pop moves both ends down by one. -/
def StateAfterGap (db : StoredValues) (q : HostQuery) (state : List LocationSpecGroup)
    (host : String) : Prop :=
  ∃ a < (readablePrefix db q.keys).length, presentAt db q host a = false ∧
    ∃ i < eaglePop q.useEaglePop (readablePrefix db q.keys).length,
      eaglePop q.useEaglePop a ≤ i ∧ holdsAt db q host state i = true

instance (full : List LocationSpecGroup) : Decidable (NamesFull full) := by
  unfold NamesFull; infer_instance

instance (db : StoredValues) (q : HostQuery) (state : List LocationSpecGroup) (host : String) :
    Decidable (StateAfterGap db q state host) := by
  unfold StateAfterGap; infer_instance

/-- With a name to find, an absent host does not hold the full groups. -/
theorem present_of_holds (hname : NamesFull full) (h : holdsAt db q host full i = true) :
    presentAt db q host i = true := by
  obtain ⟨name, hmem⟩ := exists_mem_of_ne_nil _ hname
  have hin := (hasAll_iff _ _).mp h name hmem
  exact decide_eq_true ((specNamesAt_nonempty_iff q _ host).mp ⟨name, hin⟩)

theorem holds_of_unnamed (hname : ¬NamesFull full) (host : String) (i : Nat) :
    holdsAt db q host full i = true := by
  refine (hasAll_iff _ _).mpr fun name hmem => ?_
  rw [not_not.mp hname] at hmem
  cases hmem

theorem sweepLen_below (state : List LocationSpecGroup) {n : Nat}
    (hn : leading (fun i => presentAt db q host i && holdsAt db q host full i)
      (readablePrefix db q.keys).length = n) :
    sweepLen db q full state host =
      lastBelow (holdsAt db q host state) (eaglePop q.useEaglePop n) := by
  rw [sweepLen, hn]
  refine lastBelow_congr fun i hi => ?_
  have hlt : i < leading (fun i => presentAt db q host i && holdsAt db q host full i)
      (readablePrefix db q.keys).length := hn ▸ hi.trans_le (eaglePop_le _ _)
  rw [(Bool.and_eq_true_iff.mp (of_lt_leading hlt)).1, Bool.true_and]

theorem sweepLen_eq_iff (db : StoredValues) (q : HostQuery) (full state : List LocationSpecGroup)
    (host : String) : sweepLen db q full state host = tableLen db q full state host ↔
      NamesFull full ∨ ¬StateAfterGap db q state host := by
  by_cases hname : NamesFull full
  · have hrun : leading (fun i => presentAt db q host i && holdsAt db q host full i)
        (readablePrefix db q.keys).length =
        leading (holdsAt db q host full) (readablePrefix db q.keys).length := by
      refine leading_congr fun i _ => ?_
      cases hf : holdsAt db q host full i with
      | false => simp
      | true => simp [present_of_holds hname hf]
    exact iff_of_true (sweepLen_below state hrun) (.inl hname)
  · -- the tables run over every readable key, the sweep up to the first gap
    have hall : leading (holdsAt db q host full) (readablePrefix db q.keys).length =
        (readablePrefix db q.keys).length :=
      leading_eq (le_rfl) (fun i _ => holds_of_unnamed hname host i)
        fun h => absurd h (Nat.lt_irrefl _)
    have hgap : leading (fun i => presentAt db q host i && holdsAt db q host full i)
        (readablePrefix db q.keys).length =
        leading (presentAt db q host) (readablePrefix db q.keys).length :=
      leading_congr fun i _ => by rw [holds_of_unnamed hname, Bool.and_true]
    have hle := leading_le (presentAt db q host) (readablePrefix db q.keys).length
    rw [sweepLen_below state hgap, tableLen, hall, eq_comm,
      lastBelow_eq_iff (eaglePop_mono q.useEaglePop hle)]
    constructor
    · intro h
      refine .inr ?_
      rintro ⟨a, ha, habs, i, hi, hai, hst⟩
      have hfirst : leading (presentAt db q host) (readablePrefix db q.keys).length ≤ a := by
        by_contra hlt
        rw [of_lt_leading (not_le.mp hlt)] at habs
        cases habs
      rw [h i ((eaglePop_mono _ hfirst).trans hai) hi] at hst
      cases hst
    · rintro (h | h) i hlo hhi
      · exact absurd h hname
      · cases hst : holdsAt db q host state i with
        | false => rfl
        | true =>
          refine absurd ⟨_, ?_, at_leading ?_, i, hhi, hlo, hst⟩ h
          all_goals
            refine Nat.lt_of_le_of_ne hle fun heq => ?_
            rw [heq] at hlo
            exact absurd hhi (not_lt.mpr hlo)

theorem filter_lens_eq_iff (hosts : List String) (f g : String → Nat) :
    withLengths hosts f = withLengths hosts g ↔ ∀ host ∈ hosts, f host = g host := by
  constructor
  · intro heq host hh
    rcases Nat.eq_zero_or_pos (f host) with hf | hf
    · rcases Nat.eq_zero_or_pos (g host) with hg | hg
      · rw [hf, hg]
      · have hmem : (host, g host) ∈ withLengths hosts g := mem_withLengths.mpr ⟨hh, rfl, hg⟩
        exact (mem_withLengths.mp (heq ▸ hmem)).2.1.symm
    · have hmem : (host, f host) ∈ withLengths hosts f := mem_withLengths.mpr ⟨hh, rfl, hf⟩
      exact (mem_withLengths.mp (heq ▸ hmem)).2.1
  · intro h
    rw [withLengths, map_congr_left fun host hh => by rw [h host hh]]
    rfl

/-- When the tables give an answer, the flag matrices fit and, unless some full
group names a spec, no candidate has its state after a gap. -/
def MambaPathsAgree (db : StoredValues) (q : HostQuery) (groups : List LocationSpecGroup) : Prop :=
  ∀ full state, classifySpecGroups groups = some (full, state) →
    readFails (terminalCode db q.keys) = false →
      MatricesFit db q full state ∧
        (NamesFull full ∨ ∀ host ∈ candidateHosts db q, ¬StateAfterGap db q state host)

theorem mambaSweep_localView (h : MambaSweepReturns db q mode hn full state out)
    (hok : readFails (terminalCode db q.keys) = false) :
    localView out = (.ok, withLengths (candidateHosts db q) (sweepLen db q full state)) := by
  obtain ⟨s, hr, hfin, rfl⟩ := h
  refine finishMatch_ok hr hfin (mamba_skips db q mode hn full state) (fun hc => ?_)
    (fun h => by simp [mambaLen, eaglePop, highestBelow])
    fun h host hh => mambaLen_eq hr hfin hh
  rw [hok] at hc
  cases hc.2

theorem mambaSweep_returns (db : StoredValues) (q : HostQuery) (mode : ReadMode)
    (hn : 0 < q.keys.length) (full state : List LocationSpecGroup) :
    ∃ out, MambaSweepReturns db q mode hn full state out := by
  obtain ⟨s, hsteps, hfin⟩ := Sweep.finishes (S := mambaSweep db q mode hn full state)
    (s := (mambaSweep db q mode hn full state).initial) ⟨_, rfl, Relation.ReflTransGen.refl⟩
  exact ⟨_, s, ⟨_, rfl, hsteps⟩, hfin, rfl⟩

theorem mamba_returns (db : StoredValues) (q : HostQuery) (mode : ReadMode)
    (groups : List LocationSpecGroup) :
    ∃ out, PrefixMatchWithMambaByHostWithoutP2P db q mode groups out := by
  unfold PrefixMatchWithMambaByHostWithoutP2P
  split
  · next hn =>
    split
    · exact ⟨_, rfl⟩
    · next full state _ =>
      by_cases hfit : MatricesFit db q full state
      · obtain ⟨out, hout⟩ := mambaSweep_returns db q mode hn full state
        exact ⟨out, .inl ⟨hfit, hout⟩⟩
      · exact ⟨_, .inr ⟨hfit, rfl⟩⟩
  · exact ⟨_, rfl⟩

/-- The sweep agrees with the classified query over the tables exactly under the
condition. -/
theorem mambaSweep_agrees_iff (p2pHostCount : Nat)
    (hok : readFails (terminalCode db q.keys) = false)
    (hout : (MatricesFit db q full state ∧ MambaSweepReturns db q mode hn full state out) ∨
      (¬MatricesFit db q full state ∧ out = (.error, []))) :
    localView out = localView (prefixMatchWithMambaByHost db q full state p2pHostCount) ↔
      MatricesFit db q full state ∧
        (NamesFull full ∨ ∀ host ∈ candidateHosts db q, ¬StateAfterGap db q state host) := by
  rw [mamba_tables_localView, hok]
  rcases hout with ⟨hfit, hret⟩ | ⟨hfit, rfl⟩
  · rw [mambaSweep_localView hret hok]
    simp only [Bool.false_eq_true, if_false, Prod.mk.injEq, true_and, hfit]
    rw [filter_lens_eq_iff]
    constructor
    · intro h
      by_cases hname : NamesFull full
      · exact .inl hname
      · exact .inr fun host hh =>
          ((sweepLen_eq_iff db q full state host).mp (h host hh)).resolve_left hname
    · intro h host hh
      exact (sweepLen_eq_iff db q full state host).mpr (h.imp_right fun hall => hall host hh)
  · refine iff_of_false (fun h => ?_) fun h => hfit h.1
    cases congrArg Prod.fst h

/-- Whenever the full tables give an answer, the sweep gives the same hosts with the
same `local`, exactly under the condition `MambaPathsAgree`. -/
theorem prefixMatchWithMambaByHost_paths (db : StoredValues) (q : HostQuery) (mode : ReadMode)
    (groups : List LocationSpecGroup) (p2pHostCount : Nat) :
    (∃ out, PrefixMatchWithMambaByHostWithoutP2P db q mode groups out) ∧
      ∀ out, PrefixMatchWithMambaByHostWithoutP2P db q mode groups out →
        (((prefixMatchWithMambaByHostQuery db q groups p2pHostCount).1 = .ok →
          localView out =
            localView (prefixMatchWithMambaByHostQuery db q groups p2pHostCount)) ↔
          MambaPathsAgree db q groups) := by
  refine ⟨mamba_returns db q mode groups, fun out hout => ?_⟩
  unfold PrefixMatchWithMambaByHostWithoutP2P at hout
  unfold prefixMatchWithMambaByHostQuery MambaPathsAgree
  split at hout
  · next hn =>
    have hne : q.keys.isEmpty = false := by
      cases hk : q.keys with
      | nil => simp [hk] at hn
      | cons _ _ => rfl
    rw [hne, if_neg (by simp)]
    cases hc : classifySpecGroups groups with
    | none =>
      exact iff_of_true (nofun) nofun
    | some split =>
      obtain ⟨full, state⟩ := split
      rw [hc] at hout
      have hcode := congrArg Prod.fst (mamba_tables_localView db q full state p2pHostCount)
      cases hok : readFails (terminalCode db q.keys) with
      | true =>
        rw [hok, if_pos rfl] at hcode
        refine iff_of_true (fun h => ?_) nofun
        have htc : terminalCode db q.keys = .ok := hcode.symm.trans h
        rw [htc] at hok
        cases hok
      | false =>
        rw [hok, if_neg (by simp)] at hcode
        have hiff := mambaSweep_agrees_iff p2pHostCount hok hout
        constructor
        · intro h full' state' heq _
          obtain ⟨rfl, rfl⟩ := Prod.mk.inj (Option.some.inj heq)
          exact hiff.mp (h hcode)
        · intro h _
          exact hiff.mpr (h full state rfl rfl)
  · next hn =>
    have hnil : q.keys = [] := length_eq_zero_iff.mp (by omega)
    subst hout
    refine iff_of_true (fun _ => by simp [hnil]) fun full state _ _ => ⟨.inl ?_, .inr ?_⟩
    · simp [candidateHosts, hnil, readablePrefix]
    · simp [candidateHosts, hnil, readablePrefix]

/-- The sample groups of a model with one full and one state tensor. -/
def exampleGroups : List LocationSpecGroup := [⟨"F0", ["kv"]⟩, ⟨"L0", ["kv"]⟩]

theorem prefixMatchWithMambaByHost_paths_named :
    ∃ out, PrefixMatchWithMambaByHostWithoutP2P exampleStore { keys := [1, 2, 9] } ⟨true, none⟩
        exampleGroups out ∧ localView out = (.ok, [("h1", 1)]) := by
  obtain ⟨⟨out, hout⟩, hall⟩ := prefixMatchWithMambaByHost_paths exampleStore
    { keys := [1, 2, 9] } ⟨true, none⟩ exampleGroups 1
  have hagree : MambaPathsAgree exampleStore { keys := [1, 2, 9] } exampleGroups := by
    intro full state hc _
    have hval : classifySpecGroups exampleGroups = some ([⟨"F0", ["kv"]⟩], [⟨"L0", ["kv"]⟩]) := by
      decide +kernel
    obtain ⟨rfl, rfl⟩ := Prod.mk.inj (Option.some.inj (hval.symm.trans hc))
    exact ⟨.inr (by decide +kernel), .inl (by decide)⟩
  refine ⟨out, hout, ((hall out hout).mpr hagree (by decide +kernel)).trans ?_⟩
  decide +kernel

/-- Groups without specs: the tables let the host of key 1 run over key 2, on which
it is absent; the sweep stops there. -/
theorem prefixMatchWithMambaByHost_paths_unnamed :
    ∃ out, PrefixMatchWithMambaByHostWithoutP2P exampleStore { keys := [1, 2] } ⟨true, none⟩
        [⟨"F0", []⟩, ⟨"L0", []⟩] out ∧
      localView out = (.ok, [("h1", 1)]) ∧
      localView (prefixMatchWithMambaByHostQuery exampleStore { keys := [1, 2] }
        [⟨"F0", []⟩, ⟨"L0", []⟩] 1) = (.ok, [("h1", 2)]) := by
  have hn : 0 < (HostQuery.mk [1, 2] false [] none none).keys.length := by decide
  obtain ⟨out, hout⟩ := mambaSweep_returns exampleStore { keys := [1, 2] } ⟨true, none⟩ hn
    [⟨"F0", []⟩] [⟨"L0", []⟩]
  refine ⟨out, ?_, (mambaSweep_localView hout (by decide +kernel)).trans ?_, ?_⟩
  · have hval : classifySpecGroups [⟨"F0", []⟩, ⟨"L0", []⟩] = some ([⟨"F0", []⟩], [⟨"L0", []⟩]) := by
      decide +kernel
    unfold PrefixMatchWithMambaByHostWithoutP2P
    rw [dif_pos hn, hval]
    exact .inl ⟨.inr (by decide +kernel), hout⟩
  · decide +kernel
  · decide +kernel

end TairKvCache.HostMatch
