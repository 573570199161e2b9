import TairKvCache.HostMatch.Stops

/-!
# The host query without peers

`PrefixMatchByHostWithoutP2P` (`manager/meta_searcher.cc`) sweeps the keys with one
presence bit per candidate host, and cancels the reads behind the last host's
stop. It finds what the full tables say. The one difference is deliberate: a read
error behind every candidate's stop is not reported, because nothing behind that
stop is needed.
-/

namespace TairKvCache

variable (db : StoredValues) (q : HostQuery) (mode : ReadMode)

namespace HostMatch

open Lib List Words Sweep HostCacheMatch

/-! ## Reading by index -/

def codeAt (db : StoredValues) (q : HostQuery) (i : Nat) : ErrorCode :=
  match q.keys[i]? with
  | some k => (db.read k).1
  | none => .ok

def locationsAt (db : StoredValues) (q : HostQuery) (i : Nat) : List CacheLocation :=
  match q.keys[i]? with
  | some k => (db.read k).2
  | none => []

theorem readablePrefix_length_le (keys : List KeyType) :
    (readablePrefix db keys).length ≤ keys.length :=
  ( takeWhile_prefix _).length_le

variable {i h : Nat} {host : String}

theorem getElem?_readablePrefix {db : StoredValues} {keys : List KeyType}
    (hi : i < (readablePrefix db keys).length) : (readablePrefix db keys)[i]? = keys[i]? := by
  obtain ⟨rest, hrest⟩ : readablePrefix db keys <+: keys := takeWhile_prefix _
  conv_rhs => rw [← hrest]
  exact (getElem?_append_left hi).symm

theorem readable_key {db : StoredValues} {q : HostQuery}
    (hi : i < (readablePrefix db q.keys).length) :
    ∃ k, (readablePrefix db q.keys)[i]? = some k ∧ q.keys[i]? = some k ∧
      locationsAt db q i = (db.read k).2 := by
  have hk := getElem?_eq_getElem hi
  have hk' := (getElem?_readablePrefix hi).symm.trans hk
  exact ⟨_, hk, hk', by simp [locationsAt, hk']⟩

theorem terminalCode_eq : terminalCode db q.keys =
      if (readablePrefix db q.keys).length < q.keys.length then
        codeAt db q (readablePrefix db q.keys).length
      else .ok := by
  unfold terminalCode codeAt
  split
  · next h => rw [if_neg (not_lt.mpr (drop_eq_nil_iff.mp h))]
  · next k rest h =>
    have hlt : (readablePrefix db q.keys).length < q.keys.length := by
      by_contra hge
      rw [drop_eq_nil_of_le (not_lt.mp hge)] at h
      cases h
    have hget : q.keys[(readablePrefix db q.keys).length]? = some k := by
      have := congrArg List.head? h
      simpa [head?_drop] using this
    rw [if_pos hlt, hget]

def sweepOf (db : StoredValues) (q : HostQuery) (mode : ReadMode) (hn : 0 < q.keys.length)
    (visitor : Visitor) : Sweep :=
  ⟨mode.layout q.keys.length hn, codeAt db q, visitor⟩

theorem sweepOf_readable (hn : 0 < q.keys.length) (visitor : Visitor) :
    (sweepOf db q mode hn visitor).ReadableTo (readablePrefix db q.keys).length := by
  have hrun := takeWhile_run (fun k => decide ((db.read k).1 = .ok)) q.keys
  refine ⟨readablePrefix_length_le db q.keys, fun i hi => ?_, fun hlt => ?_⟩
  · obtain ⟨k, hk, hok⟩ := hrun.1 i hi
    have hok' : (db.read k).1 = .ok := of_decide_eq_true hok
    simpa [sweepOf, codeAt, hk] using hok'
  · have hk := getElem?_eq_getElem hlt
    have hno : ¬(db.read _).1 = .ok := of_decide_eq_false (hrun.2 _ hk)
    simpa [sweepOf, codeAt, hk] using hno

/-! ## Presence words -/

/-- Set the bit of `host`, if it is in the sorted vector. -/
def markSorted (candidates : List String) (ws : Words) (host : String) : Words :=
  match findSorted candidates host with
  | some i => ws.setBit i
  | none => ws

def buildCandidatePresenceForOneKey (q : HostQuery) (candidates : List String)
    (locations : List CacheLocation) : Words :=
  (hostsAt q locations).foldl (markSorted candidates)
    (zeros (wordCountForBits candidates.length))

@[simp] theorem length_markSorted (candidates : List String) (ws : Words) (host : String) :
    (markSorted candidates ws host).length = ws.length := by
  unfold markSorted
  split
  · exact length_setBit ..
  · rfl

theorem getBit_foldl_markSorted (candidates hosts : List String) {ws : Words}
    (hlen : ws.length = wordCountForBits candidates.length) (j : Nat) :
    (hosts.foldl (markSorted candidates) ws).getBit j =
      (ws.getBit j || hosts.any fun x => findSorted candidates x = some j) := by
  induction hosts generalizing ws with
  | nil => simp
  | cons x hosts ih =>
    rw [foldl_cons, ih ((length_markSorted ..).trans hlen), any_cons, ← Bool.or_assoc]
    congr 1
    cases hx : findSorted candidates x with
    | none => simp [markSorted, hx]
    | some i =>
      have hlt := (List.getElem?_eq_some_iff.mp (getElem?_of_findSorted hx)).1
      have hi : i / 64 < ws.length := hlen ▸ lt_wordCountForBits hlt
      simp [markSorted, hx, getBit_setBit hi]

theorem getBit_marked {candidates : List String} (hs : candidates.Pairwise (· < ·))
    (hh : candidates[h]? = some host) (hosts : List String) : (hosts.foldl (markSorted candidates)
      (zeros (wordCountForBits candidates.length))).getBit h = decide (host ∈ hosts) := by
  rw [getBit_foldl_markSorted _ _ (length_zeros _), getBit_zeros, Bool.false_or,
    Bool.eq_iff_iff, any_eq_true, decide_eq_true_eq]
  constructor
  · rintro ⟨x, hx, hf⟩
    have hget := getElem?_of_findSorted (of_decide_eq_true hf)
    exact Option.some.inj (hh.symm.trans hget) ▸ hx
  · intro hmem
    exact ⟨host, hmem, decide_eq_true ((findSorted_eq_some_iff hs).mpr hh)⟩

theorem getBit_presence {q : HostQuery} {candidates : List String}
    (hs : candidates.Pairwise (· < ·)) (hh : candidates[h]? = some host)
    (locations : List CacheLocation) :
    (buildCandidatePresenceForOneKey q candidates locations).getBit h =
      decide (host ∈ hostsAt q locations) := getBit_marked hs hh _

theorem sorted_candidateHosts :
    (candidateHosts db q).Pairwise (· < ·) := by
  unfold candidateHosts
  split
  · exact List.Pairwise.nil
  · exact sorted_sortUnique _

/-! ## The query -/

/-- The visitor of the query: presence only, from the second key on. -/
def presenceVisitor (db : StoredValues) (q : HostQuery) : Visitor where
  hosts := (candidateHosts db q).length
  firstIndex := 1
  hasFull i h := (buildCandidatePresenceForOneKey q (candidateHosts db q)
    (locationsAt db q i)).getBit h
  hasState _ _ := false

def presenceSweep (db : StoredValues) (q : HostQuery) (mode : ReadMode)
    (hn : 0 < q.keys.length) : Sweep :=
  sweepOf db q mode hn (presenceVisitor db q)

/-- The match of one candidate, unless its length is 0. -/
def reportHost (len : Nat → Nat) (candidate : String × Nat) : Option HostCacheMatch :=
  if len candidate.2 > 0 then
    some ⟨candidate.1, len candidate.2, 0, len candidate.2⟩
  else none

def reportMatches (hosts : List String) (len : Nat → Nat) : List HostCacheMatch :=
  hosts.zipIdx.filterMap (reportHost len)

/-- What the query makes of the end of its sweep; `lenOf` reduces a host to its
length, given the valid key count. -/
def finishMatch (hosts : List String) (S : Sweep) (s : SweepState) (lenOf : Nat → Nat → Nat) :
    ErrorCode × List HostCacheMatch :=
  let r := S.result s
  if r.validKeyCount < S.layout.keyCount && readFails r.terminalEc then (r.terminalEc, [])
  else if hosts.isEmpty || r.validKeyCount = 0 then (.ok, [])
  else (.ok, reportMatches hosts (lenOf r.validKeyCount))

def presenceLen (q : HostQuery) (s : SweepState) (validKeyCount h : Nat) : Nat :=
  eaglePop q.useEaglePop (min validKeyCount (s.stops h))

/-- `PrefixMatchByHost` with `p2p_host_count` 0 can return `out`. -/
def PrefixMatchByHostWithoutP2P (db : StoredValues) (q : HostQuery) (mode : ReadMode)
    (out : ErrorCode × List HostCacheMatch) : Prop :=
  if hn : 0 < q.keys.length then
    ∃ s, (presenceSweep db q mode hn).machine.Reach Machine.anyAction s ∧
      (presenceSweep db q mode hn).Finished s ∧
      out = finishMatch (candidateHosts db q) (presenceSweep db q mode hn) s (presenceLen q s)
  else out = (.ok, [])

/-- The code and the `local` part of an answer. -/
def localView (out : ErrorCode × List HostCacheMatch) : ErrorCode × List (String × Nat) :=
  (out.1, out.2.map localPart)

/-! ## What it returns -/

theorem reportMatches_localPart {hosts : List String} {len : Nat → Nat} {f : String → Nat}
    (h : ∀ i host, hosts[i]? = some host → len i = f host) :
    (reportMatches hosts len).map localPart = withLengths hosts f := by
  have hgen : ∀ l : List (String × Nat), (∀ p ∈ l, len p.2 = f p.1) →
      (l.filterMap (reportHost len)).map localPart = withLengths (l.map (·.1)) f := by
    unfold withLengths
    intro l hl
    induction l with
    | nil => rfl
    | cons p l ih =>
      have hp := hl p mem_cons_self
      have ih' := ih fun p hp => hl p (mem_cons_of_mem _ hp)
      by_cases hpos : f p.1 > 0
      · simp [reportHost, hp, hpos, ih', localPart]
      · simp [reportHost, hp, hpos, ih']
  rw [reportMatches, hgen _ fun p hp => h _ _ (mem_zipIdx_iff_getElem?.mp hp), zipIdx_map_fst]

section Finish

variable {db : StoredValues} {q : HostQuery} {mode : ReadMode} {hn : 0 < q.keys.length}
  {visitor : Visitor} {s : SweepState}
  (hr : (sweepOf db q mode hn visitor).machine.Reach Machine.anyAction s)
  (hfin : (sweepOf db q mode hn visitor).Finished s)
  (hskip : (sweepOf db q mode hn visitor).SkipsOk)

include hr hfin hskip

theorem finishMatch_error
    (hrep : (sweepOf db q mode hn visitor).Reports (readablePrefix db q.keys).length)
    (hfail : readFails (terminalCode db q.keys) = true) (lenOf : Nat → Nat → Nat) :
    finishMatch (candidateHosts db q) (sweepOf db q mode hn visitor) s lenOf =
      (terminalCode db q.keys, []) := by
  have hlt : (readablePrefix db q.keys).length < q.keys.length := hrep.1
  obtain ⟨hres, hvalid⟩ :=
    result_reports hr hfin hskip (sweepOf_readable db q mode hn visitor) hrep
  have hcode : (sweepOf db q mode hn visitor).code (readablePrefix db q.keys).length =
      terminalCode db q.keys := by
    rw [terminalCode_eq, if_pos hlt]
    rfl
  rw [hcode] at hres
  simp [finishMatch, hres, hvalid, hfail]

theorem finishMatch_ok
    (hnot : ¬((sweepOf db q mode hn visitor).Reports (readablePrefix db q.keys).length ∧
      readFails (terminalCode db q.keys) = true))
    {lenOf : Nat → Nat → Nat} {f : String → Nat} (hzero : ∀ h, lenOf 0 h = 0)
    (hlen : ∀ h host, (candidateHosts db q)[h]? = some host → lenOf s.currentStop h = f host) :
    localView (finishMatch (candidateHosts db q) (sweepOf db q mode hn visitor) s lenOf) =
      (.ok, withLengths (candidateHosts db q) f) := by
  obtain ⟨ec, hres, hec⟩ : ∃ ec, (sweepOf db q mode hn visitor).result s = ⟨ec, s.currentStop⟩ ∧
      readFails ec = false := by
    by_cases hrep : (sweepOf db q mode hn visitor).Reports (readablePrefix db q.keys).length
    · have hlt : (readablePrefix db q.keys).length < q.keys.length := hrep.1
      refine ⟨_, (result_reports hr hfin hskip
        (sweepOf_readable db q mode hn visitor) hrep).1, ?_⟩
      have hfail := (not_and.mp hnot) hrep
      rw [terminalCode_eq, if_pos hlt] at hfail
      exact Bool.not_eq_true _ ▸ hfail
    · exact ⟨_, result_ok hr hfin hskip (sweepOf_readable db q mode hn visitor) hrep, rfl⟩
  simp only [finishMatch, hres, hec, Bool.and_false, Bool.false_eq_true, if_false]
  split
  · next hempty =>
    rcases Bool.or_eq_true_iff.mp hempty with hnil | hvalid
    · simp [localView, isEmpty_iff.mp hnil, withLengths]
    · -- no key is valid, so every length is 0
      have hz : s.currentStop = 0 := of_decide_eq_true hvalid
      have hnone : withLengths (candidateHosts db q) f = [] := by
        refine eq_nil_iff_forall_not_mem.mpr fun p hp => ?_
        obtain ⟨hmem, hf, hpos⟩ := mem_withLengths.mp hp
        obtain ⟨h, hh⟩ := mem_iff_getElem?.mp hmem
        rw [hf, ← hlen h _ hh, hz, hzero] at hpos
        cases hpos
      rw [hnone]
      rfl
  · rw [localView, reportMatches_localPart hlen]

end Finish

theorem presence_hasFull {db : StoredValues} {q : HostQuery}
    (hh : (candidateHosts db q)[h]? = some host) :
    (presenceVisitor db q).hasFull i h = decide (host ∈ hostsAt q (locationsAt db q i)) :=
  getBit_presence (sorted_candidateHosts db q) hh _

theorem presence_skips (hn : 0 < q.keys.length) : (presenceSweep db q mode hn).SkipsOk := by
  intro i hi h hh
  obtain rfl : i = 0 := Nat.lt_one_iff.mp hi
  obtain ⟨host, hhost⟩ : ∃ host, (candidateHosts db q)[h]? = some host :=
    ⟨_, getElem?_eq_getElem hh⟩
  refine ⟨?_, rfl⟩
  have hfull := presence_hasFull (i := 0) hhost
  have hmem := mem_of_getElem? hhost
  unfold candidateHosts at hmem
  split at hmem
  · cases hmem
  · next k rest hk =>
    have hpos : 0 < (readablePrefix db q.keys).length := by simp [hk]
    obtain ⟨k', hk', -, hloc⟩ := readable_key (q := q) hpos
    obtain rfl : k = k' := by simpa [hk] using hk'
    exact hfull.trans (decide_eq_true (hloc ▸ mem_sortUnique.mp hmem))

theorem presence_len {db : StoredValues} {q : HostQuery}
    (hh : (candidateHosts db q)[h]? = some host) :
    computePrefixMatchBlocks (column db q host) q.useEaglePop =
      eaglePop q.useEaglePop (leading (fun i => (presenceVisitor db q).hasFull i h)
        (readablePrefix db q.keys).length) := by
  have hcol : (column db q host).length = (readablePrefix db q.keys).length := by simp [column]
  rw [computePrefixMatchBlocks, ← hcol]
  congr 1
  refine length_takeWhile_eq fun i names hi => ?_
  have hlt : i < (readablePrefix db q.keys).length :=
    hcol ▸ (List.getElem?_eq_some_iff.mp hi).1
  obtain ⟨k, hk, -, hloc⟩ := readable_key (q := q) hlt
  have hnames : names = specNamesAt q (locationsAt db q i) host := by
    rw [column, getElem?_map, hk] at hi
    rw [hloc]
    exact (Option.some.inj hi).symm
  rw [presence_hasFull hh, hnames]
  refine decide_eq_decide.mpr ?_
  rw [← specNamesAt_nonempty_iff, Finset.nonempty_iff_ne_empty]

/-- A read error that every candidate has stopped before. -/
def IgnoredError (db : StoredValues) (q : HostQuery) : Prop :=
  readFails (terminalCode db q.keys) = true ∧ readablePrefix db q.keys ≠ [] ∧
    ∀ host ∈ candidateHosts db q, ∃ k ∈ readablePrefix db q.keys,
      host ∉ hostsAt q (db.read k).2

instance (db : StoredValues) (q : HostQuery) : Decidable (IgnoredError db q) := by
  unfold IgnoredError; infer_instance

theorem reports_iff {db : StoredValues} {q : HostQuery} (hn : 0 < q.keys.length)
    (hfail : readFails (terminalCode db q.keys) = true) :
    (presenceSweep db q mode hn).Reports (readablePrefix db q.keys).length ↔
      ¬IgnoredError db q := by
  have hlt : (readablePrefix db q.keys).length < q.keys.length := by
    by_contra hge
    rw [terminalCode_eq, if_neg hge] at hfail
    cases hfail
  have hgap : ∀ h host, (candidateHosts db q)[h]? = some host →
      ((∀ i < (readablePrefix db q.keys).length, (presenceVisitor db q).hasFull i h = true) ↔
        ∀ k ∈ readablePrefix db q.keys, host ∈ hostsAt q (db.read k).2) := by
    intro h host hh
    constructor
    · intro hall k hk
      obtain ⟨i, hi⟩ := mem_iff_getElem?.mp hk
      have hil := (List.getElem?_eq_some_iff.mp hi).1
      obtain ⟨k', hk', -, hloc⟩ := readable_key (q := q) hil
      obtain rfl := Option.some.inj (hi.symm.trans hk')
      have := hall i hil
      rw [presence_hasFull hh, hloc] at this
      exact of_decide_eq_true this
    · intro hall i hil
      obtain ⟨k, hk, -, hloc⟩ := readable_key (q := q) hil
      rw [presence_hasFull hh, hloc]
      exact decide_eq_true (hall k (mem_of_getElem? hk))
  constructor
  · rintro ⟨-, hzero | ⟨h, hh, hall⟩⟩ ⟨-, hne, hig⟩
    · exact hne (length_eq_zero_iff.mp hzero)
    · have hget : (candidateHosts db q)[h]? = some _ := getElem?_eq_getElem hh
      obtain ⟨k, hk, hno⟩ := hig _ (mem_of_getElem? hget)
      exact hno ((hgap h _ hget).mp hall k hk)
  · intro hno
    refine ⟨hlt, ?_⟩
    by_contra hcase
    obtain ⟨hpos, hgaps⟩ := not_or.mp hcase
    refine hno ⟨hfail, fun hnil => hpos (by rw [hnil]; rfl), fun host hmem => ?_⟩
    obtain ⟨h, hh⟩ := mem_iff_getElem?.mp hmem
    by_contra hall
    push Not at hall
    exact hgaps ⟨h, (List.getElem?_eq_some_iff.mp hh).1, (hgap h host hh).mpr hall⟩

/-- What the query returns, whichever way its sweep goes. -/
theorem withoutP2P_localView {db : StoredValues} {q : HostQuery} {mode : ReadMode}
    {out : ErrorCode × List HostCacheMatch} (h : PrefixMatchByHostWithoutP2P db q mode out) :
    localView out =
      if readFails (terminalCode db q.keys) = true ∧ ¬IgnoredError db q then
        (terminalCode db q.keys, [])
      else (.ok, withLengths (candidateHosts db q) fun host =>
        computePrefixMatchBlocks (column db q host) q.useEaglePop) := by
  unfold PrefixMatchByHostWithoutP2P at h
  split at h
  · next hn =>
    obtain ⟨s, hr, hfin, rfl⟩ := h
    have hskip := presence_skips db q mode hn
    split
    · next hc =>
      rw [presenceSweep, finishMatch_error hr hfin hskip
        ((reports_iff mode hn hc.1).mpr hc.2) hc.1]
      rfl
    · next hc =>
      refine finishMatch_ok hr hfin hskip (fun hrep => hc ⟨hrep.2, ?_⟩) (fun h => ?_)
        fun h host hh => ?_
      · exact (reports_iff mode hn hrep.2).mp hrep.1
      · simp [presenceLen, eaglePop]
      · rw [presence_len hh, presenceLen]
        congr 1
        exact prefix_len (inv_reach hr) hfin hskip
          (sweepOf_readable db q mode hn _) (List.getElem?_eq_some_iff.mp hh).1
  · next hn =>
    have hnil : q.keys = [] := length_eq_zero_iff.mp (by omega)
    subst h
    simp [hnil, terminalCode, readFails, candidateHosts, readablePrefix, localView, withLengths]

theorem withoutP2P_returns :
    ∃ out, PrefixMatchByHostWithoutP2P db q mode out := by
  by_cases hn : 0 < q.keys.length
  · obtain ⟨s, hsteps, hfin⟩ := finishes (S := presenceSweep db q mode hn)
      (s := (presenceSweep db q mode hn).initial) ⟨_, rfl, Relation.ReflTransGen.refl⟩
    refine ⟨finishMatch (candidateHosts db q) (presenceSweep db q mode hn) s (presenceLen q s), ?_⟩
    unfold PrefixMatchByHostWithoutP2P
    rw [dif_pos hn]
    exact ⟨s, ⟨_, rfl, hsteps⟩, hfin, rfl⟩
  · refine ⟨(.ok, []), ?_⟩
    unfold PrefixMatchByHostWithoutP2P
    rw [dif_neg hn]

theorem tables_localView (p2pHostCount : Nat) :
    localView (prefixMatchByHost db q p2pHostCount) =
      if readFails (terminalCode db q.keys) then (terminalCode db q.keys, [])
      else (.ok, withLengths (candidateHosts db q) fun host =>
        computePrefixMatchBlocks (column db q host) q.useEaglePop) :=
  matchByTables_localPart (fun specs => computePrefixMatchBlocks specs q.useEaglePop)
    (fun _ _ => rfl) _ p2pHostCount

/-! ## The two paths -/

/-- The query cut off behind its readable keys. -/
def readableQuery (db : StoredValues) (q : HostQuery) : HostQuery :=
  { q with keys := readablePrefix db q.keys }

theorem readablePrefix_idem (keys : List KeyType) :
    readablePrefix db (readablePrefix db keys) = readablePrefix db keys :=
  takeWhile_takeWhile .. |>.trans (by simp [readablePrefix])

theorem tables_readableQuery (p2pHostCount : Nat) :
    localView (prefixMatchByHost db (readableQuery db q) p2pHostCount) =
      (.ok, withLengths (candidateHosts db q) fun host =>
        computePrefixMatchBlocks (column db q host) q.useEaglePop) := by
  have hkeys := readablePrefix_idem db q.keys
  have hterm : terminalCode db (readableQuery db q).keys = .ok := by
    rw [terminalCode, readableQuery]
    simp [hkeys]
  have hcand : candidateHosts db (readableQuery db q) = candidateHosts db q := by
    simp only [candidateHosts, readableQuery, hkeys]
    rfl
  have hcol : ∀ host, column db (readableQuery db q) host = column db q host := by
    intro host
    simp only [column, readableQuery, hkeys]
    rfl
  rw [tables_localView, hterm, hcand]
  simp only [hcol]
  rfl

/-- Both paths give the same hosts with the same `local`. Only where the first key
that cannot be read lies behind the stops of all candidates do they differ: the
full tables fail on it, the sweep answers for the keys before it. -/
theorem prefixMatchByHost_paths (db : StoredValues) (q : HostQuery) (mode : ReadMode)
    (p2pHostCount : Nat) : (∃ out, PrefixMatchByHostWithoutP2P db q mode out) ∧
      ∀ out, PrefixMatchByHostWithoutP2P db q mode out →
        (¬IgnoredError db q → localView out = localView (prefixMatchByHost db q p2pHostCount)) ∧
        (IgnoredError db q →
          localView (prefixMatchByHost db q p2pHostCount) = (terminalCode db q.keys, []) ∧
          localView out = localView (prefixMatchByHost db (readableQuery db q) p2pHostCount)) := by
  refine ⟨withoutP2P_returns db q mode, fun out hout => ⟨fun hno => ?_, fun hig => ⟨?_, ?_⟩⟩⟩
  · rw [withoutP2P_localView hout, tables_localView]
    simp [hno]
  · rw [tables_localView, if_pos hig.1]
  · rw [withoutP2P_localView hout, tables_readableQuery, if_neg fun hc => hc.2 hig]

def exampleLocation (id uri : String) : CacheLocation :=
  { id, status := .serving, type := .hf3fs, specSize := 1, locationSpecs := [⟨"kv", uri⟩] }

/-- Keys 1 and 2 are on different hosts; key 3 has a stored value that cannot be
parsed. -/
def exampleStore : StoredValues where
  read k :=
    if k = 1 then (.ok, [exampleLocation "a" "hf3fs://h1/mem"])
    else if k = 2 then (.ok, [exampleLocation "b" "hf3fs://h2/mem"])
    else if k = 3 then (.corruption, [])
    else (.noent, [])

/-- An absent key ends the prefix on both paths. -/
theorem prefixMatchByHost_paths_absent :
    ∃ out, PrefixMatchByHostWithoutP2P exampleStore { keys := [1, 1, 9, 3] } ⟨true, none⟩ out ∧
      localView out = (.ok, [("h1", 2)]) := by
  obtain ⟨⟨out, hout⟩, hall⟩ :=
    prefixMatchByHost_paths exampleStore { keys := [1, 1, 9, 3] } ⟨true, none⟩ 1
  refine ⟨out, hout, ((hall out hout).1 (by decide +kernel)).trans ?_⟩
  decide +kernel

/-- The host of key 1 is missing at key 2, so the sweep never needs key 3. -/
theorem prefixMatchByHost_paths_differ :
    ∃ out, PrefixMatchByHostWithoutP2P exampleStore { keys := [1, 2, 3] } ⟨false, none⟩ out ∧
      localView out = (.ok, [("h1", 1)]) ∧
      localView (prefixMatchByHost exampleStore { keys := [1, 2, 3] } 1) = (.corruption, []) := by
  obtain ⟨out, hout⟩ := withoutP2P_returns exampleStore { keys := [1, 2, 3] } ⟨false, none⟩
  refine ⟨out, hout, (withoutP2P_localView hout).trans ?_, ?_⟩
  · decide +kernel
  · decide +kernel

end HostMatch

end TairKvCache
