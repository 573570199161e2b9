import Mathlib

/-!
# Ordered maps

A `std::map`: a list of bindings in strictly increasing key order, the order
being part of the type. `find`, `insert` and `erase` are the point
operations; `upTo` and `after` cut the map at a key, which is what an
iteration from `begin()` that stops at the first larger key does.

Counting arguments need the bindings as a list, so inserting at a free key
and erasing a bound one are also given as permutations of `entries`.
-/

namespace TairKvCache.Lib

open Function List Option

structure OrdMap (K V : Type*) [LT K] where
  entries : List (K × V)
  sorted : entries.Pairwise fun a b => a.1 < b.1

namespace OrdMap

variable {K V : Type*} [LinearOrder K] {e : K × V} (m : OrdMap K V) (a : K) (v : V)
    {l : List (K × V)}

def empty : OrdMap K V := ⟨[], List.Pairwise.nil⟩

@[simp] theorem empty_entries : (empty : OrdMap K V).entries = [] := rfl

/-! ## Looking up -/

def find (m : OrdMap K V) (a : K) : Option V :=
  (m.entries.find? fun e => decide (e.1 = a)).map (·.2)

@[simp] theorem find_empty : (empty : OrdMap K V).find a = none := rfl

theorem eq_of_mem_of_key_eq (hl : l.Pairwise fun a b => a.1 < b.1) {e' : K × V} (he : e ∈ l)
    (he' : e' ∈ l) (hk : e.1 = e'.1) : e = e' := by
  induction l with
  | nil => cases he
  | cons x l ih =>
    rw [pairwise_cons] at hl
    rcases mem_cons.mp he with h | h <;> rcases mem_cons.mp he' with h' | h'
    · rw [h, h']
    · exact absurd hk (h ▸ ne_of_lt (hl.1 _ h'))
    · exact absurd hk.symm (h' ▸ ne_of_lt (hl.1 _ h))
    · exact ih hl.2 h h'

theorem find_eq_some_iff :
    m.find a = some v ↔ (a, v) ∈ m.entries := by
  simp only [find, map_eq_some_iff]
  constructor
  · rintro ⟨e, he, rfl⟩
    have hk : e.1 = a := by simpa using find?_some he
    exact hk ▸ mem_of_find?_eq_some he
  · intro hmem
    cases hf : m.entries.find? fun e => decide (e.1 = a) with
    | none => simpa using find?_eq_none.mp hf _ hmem
    | some e =>
      have hk : e.1 = a := by simpa using find?_some hf
      exact ⟨e, rfl, congrArg Prod.snd
        (eq_of_mem_of_key_eq m.sorted (mem_of_find?_eq_some hf) hmem hk)⟩

theorem find_eq_none_iff : m.find a = none ↔ ∀ e ∈ m.entries, e.1 ≠ a := by
  simp [find, find?_eq_none]

/-! ## Inserting -/

def insertEntry (a : K) (v : V) : List (K × V) → List (K × V)
  | [] => [(a, v)]
  | e :: l =>
    if a < e.1 then (a, v) :: e :: l
    else if a = e.1 then (a, v) :: l
    else e :: insertEntry a v l

/-- Writing under `a` leaves the other bindings as they were. -/
theorem insertEntry_perm_filter (hl : l.Pairwise fun a b => a.1 < b.1) :
    (insertEntry a v l).Perm ((a, v) :: l.filter fun e => decide (e.1 ≠ a)) := by
  induction l with
  | nil => simp [insertEntry]
  | cons x l ih =>
    obtain ⟨hx, hl'⟩ := pairwise_cons.mp hl
    have hrest : a ≤ x.1 → l.filter (fun e => decide (e.1 ≠ a)) = l := fun hle =>
      filter_eq_self.mpr fun e he => by
        simpa using ne_of_gt (hle.trans_lt (hx e he))
    simp only [insertEntry]
    split_ifs with hlt heq
    · have hxa : x.1 ≠ a := ne_of_gt hlt
      rw [filter_cons, if_pos (by simpa using hxa), hrest (le_of_lt hlt)]
    · rw [filter_cons, if_neg (by simp [heq]), hrest (le_of_eq heq)]
    · rw [filter_cons, if_pos (by simpa using Ne.symm heq)]
      exact ((ih hl').cons x).trans (List.Perm.swap _ _ _)

theorem sorted_insertEntry (hl : l.Pairwise fun a b => a.1 < b.1) :
    (insertEntry a v l).Pairwise fun a b => a.1 < b.1 := by
  induction l with
  | nil => simp [insertEntry]
  | cons x l ih =>
    obtain ⟨hx, hl'⟩ := pairwise_cons.mp hl
    simp only [insertEntry]
    split_ifs with hlt heq
    · refine pairwise_cons.mpr ⟨fun e he => ?_, hl⟩
      rcases mem_cons.mp he with rfl | he
      · exact hlt
      · exact lt_trans hlt (hx e he)
    · exact pairwise_cons.mpr ⟨fun e he => heq ▸ hx e he, hl'⟩
    · refine pairwise_cons.mpr ⟨fun e he => ?_, ih hl'⟩
      rcases mem_cons.mp ((insertEntry_perm_filter a v hl').mem_iff.mp he) with rfl | he
      · exact lt_of_le_of_ne (not_lt.mp hlt) (Ne.symm heq)
      · exact hx e (mem_of_mem_filter he)

def insert (m : OrdMap K V) (a : K) (v : V) : OrdMap K V :=
  ⟨insertEntry a v m.entries, sorted_insertEntry a v m.sorted⟩

theorem mem_insert {w : V} {b : K} : (b, w) ∈ (m.insert a v).entries ↔
    b = a ∧ w = v ∨ (b, w) ∈ m.entries ∧ b ≠ a := by
  refine (insertEntry_perm_filter a v m.sorted).mem_iff.trans ?_
  simp

theorem find_insert (b : K) :
    (m.insert a v).find b = if a = b then some v else m.find b := by
  split
  · next h => exact (find_eq_some_iff _ b v).mpr ((mem_insert m a v).mpr (.inl ⟨h.symm, rfl⟩))
  · next h =>
    apply ext
    intro w
    rw [find_eq_some_iff, find_eq_some_iff, mem_insert]
    simp [Ne.symm h]

/-! ## Erasing -/

def erase (m : OrdMap K V) (a : K) : OrdMap K V :=
  ⟨m.entries.filter fun e => decide (e.1 ≠ a), m.sorted.filter _⟩

theorem erase_perm {m : OrdMap K V} {a : K} {v : V} (h : m.find a = some v) :
    m.entries.Perm ((a, v) :: (m.erase a).entries) := by
  have hmem := (m.find_eq_some_iff a v).mp h
  have hcut := filter_append_perm (fun e : K × V => decide (e.1 = a)) m.entries
  have hone : m.entries.filter (fun e => decide (e.1 = a)) = [(a, v)] := by
    have hall : ∀ e ∈ m.entries, e.1 = a → e = (a, v) := fun e he hk =>
      eq_of_mem_of_key_eq m.sorted he hmem hk
    have hnd : m.entries.Nodup :=
      m.sorted.imp fun {e e'} hlt heq => absurd (congrArg Prod.fst heq) (ne_of_lt hlt)
    have hperm : (m.entries.filter fun e => decide (e.1 = a)).Perm [(a, v)] := by
      refine (perm_ext_iff_of_nodup (hnd.filter _) (nodup_singleton _)).mpr fun e => ?_
      simp only [mem_filter, decide_eq_true_eq, mem_singleton]
      constructor
      · rintro ⟨he, hk⟩
        exact hall e he hk
      · rintro rfl
        exact ⟨hmem, rfl⟩
    exact perm_singleton.mp hperm
  have hrest : m.entries.filter (fun e => !decide (e.1 = a)) = (m.erase a).entries := by
    simp [erase]
  rw [hone, hrest] at hcut
  exact hcut.symm

theorem insert_perm_erase :
    (m.insert a v).entries.Perm ((a, v) :: (m.erase a).entries) :=
  insertEntry_perm_filter a v m.sorted

theorem erase_entries_of_find_none {m : OrdMap K V} {a : K} (h : m.find a = none) :
    (m.erase a).entries = m.entries :=
  filter_eq_self.mpr fun e he => by simpa using (m.find_eq_none_iff a).mp h e he

theorem insert_perm {m : OrdMap K V} {a : K} (h : m.find a = none) :
    (m.insert a v).entries.Perm ((a, v) :: m.entries) := by
  rw [← erase_entries_of_find_none h]
  exact m.insert_perm_erase a v

theorem find_erase (b : K) :
    (m.erase a).find b = if a = b then none else m.find b := by
  split
  · next h =>
    subst h
    refine (find_eq_none_iff _ a).mpr fun e he => ?_
    simpa using (mem_filter.mp he).2
  · next h =>
    apply ext
    intro w
    rw [find_eq_some_iff, find_eq_some_iff]
    constructor
    · exact fun hmem => (mem_filter.mp hmem).1
    · exact fun hmem => mem_filter.mpr ⟨hmem, by simpa using Ne.symm h⟩

/-! ## Reading a whole map -/

theorem find_of_entries_nil {m : OrdMap K V} (h : m.entries = []) (a : K) : m.find a = none :=
  (m.find_eq_none_iff a).mpr (by simp [h])

/-- A loop over the bindings in which each one is stored under its own key,
where nothing was stored before. -/
theorem foldl_store {β σ : Type*} (step : (K → Option β) × σ → K × V → (K → Option β) × σ) (c : σ)
    (g : K → V → Option β) (hl : l.Pairwise fun a b => a.1 < b.1)
    (hstep : ∀ f : K → Option β, ∀ e ∈ l, f e.1 = none →
      step (f, c) e = (update f e.1 (g e.1 e.2), c)) (f : K → Option β)
    (hf : ∀ e ∈ l, f e.1 = none) :
    l.foldl step (f, c)
      = (fun k => ((l.find? fun e => decide (e.1 = k)).bind fun e => g e.1 e.2).or (f k), c) := by
  induction l generalizing f with
  | nil => simp
  | cons e l ih =>
    obtain ⟨he, hl'⟩ := pairwise_cons.mp hl
    have hfe := hf e mem_cons_self
    rw [foldl_cons, hstep f e mem_cons_self hfe]
    have hrest : ∀ e' ∈ l, update f e.1 (g e.1 e.2) e'.1 = none := fun e' he' => by
      rw [update_of_ne (ne_of_gt (he e' he'))]
      exact hf e' (mem_cons_of_mem _ he')
    rw [ih hl' (fun f' e' he' => hstep f' e' (mem_cons_of_mem _ he')) _ hrest]
    congr 1
    funext k
    by_cases hk : e.1 = k
    · have hnone : (l.find? fun e => decide (e.1 = k)) = none := by
        refine find?_eq_none.mpr fun e' he' => ?_
        simpa [← hk] using ne_of_gt (he e' he')
      subst hk
      simp [hnone, hfe]
    · rw [find?_cons_of_neg (by simpa using hk), update_of_ne (Ne.symm hk)]

theorem foldl_store_entries {β σ : Type*}
    (step : (K → Option β) × σ → K × V → (K → Option β) × σ) (c : σ) (g : K → V → Option β)
    (m : OrdMap K V)
    (hstep : ∀ f : K → Option β, ∀ k v, m.find k = some v → f k = none →
      step (f, c) (k, v) = (update f k (g k v), c)) :
    m.entries.foldl step (fun _ => none, c) = (fun k => (m.find k).bind (g k), c) := by
  have hstep' : ∀ f : K → Option β, ∀ e ∈ m.entries, f e.1 = none →
      step (f, c) e = (update f e.1 (g e.1 e.2), c) := fun f e he hf =>
    hstep f e.1 e.2 ((m.find_eq_some_iff e.1 e.2).mpr he) hf
  rw [foldl_store step c g m.sorted hstep' _ fun _ _ => rfl]
  congr 1
  funext k
  rw [or_none, find]
  cases h : m.entries.find? fun e => decide (e.1 = k) with
  | none => rfl
  | some e =>
    have hk : e.1 = k := by simpa using find?_some h
    simp [hk]

/-! ## Lists under keys -/

section Lists

variable {V : Type*}

/-- `m[a].push_back(v)`. -/
def push (m : OrdMap K (List V)) (a : K) (v : V) : OrdMap K (List V) :=
  m.insert a ((m.find a).getD [] ++ [v])

/-- Everything pushed, with its key. -/
def pairs (m : OrdMap K (List V)) : List (K × V) :=
  m.entries.flatMap fun e => e.2.map fun v => (e.1, v)

@[simp] theorem pairs_empty : (empty : OrdMap K (List V)).pairs = [] := rfl

theorem pairs_perm_erase (m : OrdMap K (List V)) (a : K) :
    m.pairs.Perm (((m.find a).getD []).map (fun v => (a, v)) ++ (m.erase a).pairs) := by
  cases hf : m.find a with
  | none => simp [pairs, erase_entries_of_find_none hf]
  | some vs => simpa [pairs] using (erase_perm hf).flatMap_right _

theorem push_perm (m : OrdMap K (List V)) (a : K) (v : V) :
    (m.push a v).pairs.Perm ((a, v) :: m.pairs) := by
  have hnew : (m.push a v).pairs.Perm
      (((m.find a).getD [] ++ [v]).map (fun v => (a, v)) ++ (m.erase a).pairs) := by
    have h := (m.insert_perm_erase a ((m.find a).getD [] ++ [v])).flatMap_right
      fun e : K × List V => e.2.map fun v => (e.1, v)
    rwa [flatMap_cons] at h
  refine hnew.trans ?_
  rw [map_append, map_singleton, append_assoc]
  exact perm_middle.trans ((pairs_perm_erase m a).symm.cons _)

end Lists

/-! ## Cutting at a key -/

/-- The bindings at keys up to `a`. -/
def upTo (m : OrdMap K V) (a : K) : List (K × V) :=
  m.entries.takeWhile fun e => decide (e.1 ≤ a)

/-- What is left once they are gone. -/
def after (m : OrdMap K V) (a : K) : OrdMap K V :=
  ⟨m.entries.dropWhile fun e => decide (e.1 ≤ a),
    m.sorted.sublist (dropWhile_sublist _)⟩

theorem upTo_append_after : m.upTo a ++ (m.after a).entries = m.entries :=
  takeWhile_append_dropWhile

theorem le_of_mem_upTo {m : OrdMap K V} {a : K} (h : e ∈ m.upTo a) : e.1 ≤ a := by
  simpa using mem_takeWhile_imp h

theorem lt_of_mem_after {m : OrdMap K V} {a : K} (h : e ∈ (m.after a).entries) :
    a < e.1 := by
  have hs : (m.after a).entries.Pairwise fun a b => a.1 < b.1 := (m.after a).sorted
  cases hl : (m.after a).entries with
  | nil => simp [hl] at h
  | cons x l =>
    have hx : a < x.1 := by
      have := head?_dropWhile_not (fun e : K × V => decide (e.1 ≤ a)) m.entries
      have hd : m.entries.dropWhile (fun e => decide (e.1 ≤ a)) = x :: l := hl
      simpa [hd] using this
    rw [hl] at h hs
    rcases mem_cons.mp h with rfl | h
    · exact hx
    · exact lt_trans hx ((pairwise_cons.mp hs).1 e h)

end OrdMap

end TairKvCache.Lib
