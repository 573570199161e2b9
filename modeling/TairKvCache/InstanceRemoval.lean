import TairKvCache.Lib.Machine
import TairKvCache.Types

/-!
# Removing an instance

`CacheManager::RemoveInstance` against the requests that write to the
instance: the registration goes first, then `TrimCache` lists the keys page by
page and submits a delete request for each page, and the delete tasks run
later. Any of these steps may fail, in whole or in part.

A location that survives all this is out of reach: the garbage collector's
rounds visit registered instances only, and a second `RemoveInstance` is
refused as the instance is no longer registered. `removal_leaves_nothing`
says what has to go well after the registration is gone; the log line and the
TODO of the source count on a cleanup that cannot happen.
-/

namespace TairKvCache.InstanceRemoval

open Lib.Machine Option Function List

variable {K L : Type}

/-- Where `RemoveInstance` stands: before `TrimCache`, before its next page
(`listed` are the keys of the pages so far), and with a page to submit. -/
inductive Removal (K : Type)
  | idle
  | trim
  | scanning (listed : List K)
  | submitting (listed page : List K) (last : Bool)
deriving DecidableEq, Repr

/-- One instance. `requests` are the running requests that may write to it;
a delete task names the locations that were set to DELETING for it. -/
structure Instance (K L : Type) where
  registered : Bool := true
  locations : K × L → Option CacheLocationStatus := fun _ => none
  requests : Nat := 0
  removal : Removal K := .idle
  tasks : List (List (K × L)) := []

inductive Action (K L : Type)
  /-- A request starts, finding the instance registered. -/
  | beginRequest
  /-- `BatchAddLocation` of a running request. -/
  | add (p : K × L)
  /-- `BatchUpdateLocationStatus` of a running request. -/
  | setStatus (p : K × L) (status : CacheLocationStatus)
  | endRequest
  /-- A location is deleted by somebody else. -/
  | drop (p : K × L)
  /-- `RegistryManager::RemoveInstance`. -/
  | unregister (ok : Bool)
  /-- `GetMetaIndexer` of `TrimCache`. -/
  | startTrim (found : Bool)
  /-- A page of `Scan`, or its error; the last page has the base cursor. -/
  | page (result : Option (List K × Bool))
  /-- `SubmitMetaDelete`: the locations that were set to DELETING, and whether
  a task was queued for them. -/
  | submit (admitted : List (K × L)) (queued : Bool)
  /-- `DoLocationDelTask`: the locations that could not be deleted. -/
  | runTask (index : Nat) (failed : List (K × L))

namespace Instance

variable [DecidableEq K] [DecidableEq L]

def setStatus (s : Instance K L) (p : K × L) (status : Option CacheLocationStatus) : Instance K L :=
  { s with locations := update s.locations p status }

def markDeleting (s : Instance K L) (ps : List (K × L)) : Instance K L :=
  { s with locations := fun p => if p ∈ ps then some .deleting else s.locations p }

/-- The locations of the task that are still DELETING are gone, apart from
`failed`. -/
def execute (s : Instance K L) (task failed : List (K × L)) : Instance K L :=
  { s with locations := fun p =>
      if p ∈ task ∧ p ∉ failed ∧ s.locations p = some .deleting then none else s.locations p }

def step (s : Instance K L) : Action K L → Option (Instance K L)
  | .beginRequest =>
    if s.registered then some { s with requests := s.requests + 1 } else none
  | .add p => if 0 < s.requests then some (s.setStatus p (some .writing)) else none
  | .setStatus p status =>
    if 0 < s.requests ∧ (s.locations p).isSome then some (s.setStatus p (some status)) else none
  | .endRequest => if 0 < s.requests then some { s with requests := s.requests - 1 } else none
  | .drop p => some (s.setStatus p none)
  | .unregister ok =>
    if s.removal = .idle ∧ s.registered = true then
      some (if ok then { s with registered := false, removal := .trim } else s)
    else none
  | .startTrim found =>
    if s.removal = .trim then
      some { s with removal := if found then .scanning [] else .idle }
    else none
  | .page result =>
    match s.removal with
    | .scanning listed =>
      match result with
      | none => some { s with removal := .idle }
      | some (keys, last) => some { s with removal := .submitting listed keys last }
    | _ => none
  | .submit admitted queued =>
    match s.removal with
    | .submitting listed keys last =>
      if ∀ p ∈ admitted, p.1 ∈ keys ∧ (s.locations p).isSome then
        some { s.markDeleting admitted with
          tasks := if queued then s.tasks ++ [admitted] else s.tasks
          removal := if last then .idle else .scanning (listed ++ keys) }
      else none
    | _ => none
  | .runTask index failed =>
    match s.tasks[index]? with
    | none => none
    | some task => some { s.execute task failed with tasks := s.tasks.eraseIdx index }

def machine : Lib.Machine (Instance K L) (Action K L) where
  init s := s.registered = true ∧ s.removal = .idle ∧ s.tasks = [] ∧ s.requests = 0
  step := step

/-! ## What has to go well -/

/-- Once the instance is unregistered: nothing is written any more, the scan
answers and ends only when every key with a location was listed, every
location of a page gets into a delete task, and the tasks delete. -/
def Thorough (s : Instance K L) : Action K L → Prop
  | .add _ => s.registered = true
  | .setStatus p _ => s.registered = true ∨ s.locations p ≠ some .deleting
  | .startTrim found => found = true
  | .page result => ∃ keys last, result = some (keys, last) ∧
      ∀ listed, s.removal = .scanning listed → last = true →
        ∀ p, (s.locations p).isSome → p.1 ∈ listed ++ keys
  | .submit admitted queued => queued = true ∧
      ∀ listed keys last, s.removal = .submitting listed keys last →
        ∀ p, p.1 ∈ keys → (s.locations p).isSome → p ∈ admitted
  | .runTask _ failed => failed = []
  | _ => True

def Condemned (s : Instance K L) (p : K × L) : Prop :=
  s.locations p = some .deleting ∧ ∃ task ∈ s.tasks, p ∈ task

/-- The keys that are still to be listed or submitted. -/
def Ahead (s : Instance K L) (k : K) : Prop :=
  match s.removal with
  | .idle => False
  | .trim => True
  | .scanning listed => k ∉ listed
  | .submitting listed page last => k ∈ page ∨ (last = false ∧ k ∉ listed ++ page)

/-- In an unregistered instance every location is ahead of the trim or
condemned. -/
def Covered (s : Instance K L) : Prop :=
  s.registered = false → ∀ p, (s.locations p).isSome → s.Ahead p.1 ∨ s.Condemned p

variable {s s' : Instance K L}

/-! ## Steps -/

omit [DecidableEq K] [DecidableEq L] in
/-- Locations may go, and the rest stays. -/
theorem Covered.shrink (h : s.Covered) (hreg : s'.registered = s.registered)
    (hremoval : s'.removal = s.removal) (htasks : s'.tasks = s.tasks)
    (hloc : ∀ p, (s'.locations p).isSome → s'.locations p = s.locations p) : s'.Covered := by
  intro hunreg p hp
  have hsame := hloc p hp
  rw [hsame] at hp
  rcases h (hreg.symm.trans hunreg) p hp with hahead | ⟨hdel, htask⟩
  · left
    rw [Ahead, hremoval]
    exact hahead
  · right
    rw [Condemned, hsame, htasks]
    exact ⟨hdel, htask⟩

theorem Covered.drop (h : s.Covered) (p : K × L) : (s.setStatus p none).Covered := by
  refine h.shrink rfl rfl rfl fun p' hp' => ?_
  by_cases hp : p' = p
  · subst hp
    rw [show (s.setStatus p' none).locations p' = none from update_self ..] at hp'
    cases hp'
  · exact update_of_ne hp ..

/-- A running request changes a location that is not on its way out. -/
theorem Covered.setStatus (h : s.Covered) {p : K × L} (status : CacheLocationStatus)
    (hsome : (s.locations p).isSome) (hok : s.registered = true ∨ s.locations p ≠ some .deleting) :
    (s.setStatus p (some status)).Covered := by
  intro hunreg p' hp'
  have hunreg' : s.registered = false := hunreg
  by_cases hp : p' = p
  · subst hp
    rcases h hunreg' p' hsome with hahead | hcond
    · exact .inl hahead
    · rcases hok with hreg | hne
      · rw [hreg] at hunreg'
        cases hunreg'
      · exact absurd hcond.1 hne
  · have hsame : (s.setStatus p (some status)).locations p' = s.locations p' :=
      update_of_ne hp ..
    rw [hsame] at hp'
    rcases h hunreg' p' hp' with hahead | hcond
    · exact .inl hahead
    · exact .inr ⟨hsame.trans hcond.1, hcond.2⟩

omit [DecidableEq L] in
theorem Covered.page (h : s.Covered) {listed keys : List K} {last : Bool}
    (hremoval : s.removal = .scanning listed)
    (hlast : last = true → ∀ p, (s.locations p).isSome → p.1 ∈ listed ++ keys) :
    Covered { s with removal := .submitting listed keys last } := by
  intro hunreg p hp
  rcases h hunreg p hp with hahead | hcond
  · left
    rw [Ahead, hremoval] at hahead
    by_cases hkey : p.1 ∈ keys
    · exact .inl hkey
    · have hnot : p.1 ∉ listed ++ keys := by simp [show p.1 ∉ listed from hahead, hkey]
      refine .inr ⟨?_, hnot⟩
      cases last with
      | false => rfl
      | true => exact absurd (hlast rfl p hp) hnot
  · exact .inr hcond

theorem Covered.submit (h : s.Covered) {listed keys : List K} {last : Bool}
    {admitted : List (K × L)} (hremoval : s.removal = .submitting listed keys last)
    (hall : ∀ p, p.1 ∈ keys → (s.locations p).isSome → p ∈ admitted) :
    Covered { s.markDeleting admitted with
      tasks := s.tasks ++ [admitted]
      removal := if last then .idle else .scanning (listed ++ keys) } := by
  intro hunreg p hp
  have hmem : admitted ∈ s.tasks ++ [admitted] := by simp
  by_cases hadm : p ∈ admitted
  · exact .inr ⟨if_pos hadm, admitted, hmem, hadm⟩
  · have hsame : (s.markDeleting admitted).locations p = s.locations p := if_neg hadm
    have hp' : (s.locations p).isSome := by rw [← hsame]; exact hp
    have hkey : p.1 ∉ keys := fun hk => hadm (hall p hk hp')
    rcases h hunreg p hp' with hahead | ⟨hdel, task, htask, hpt⟩
    · left
      rw [Ahead, hremoval] at hahead
      rcases hahead with hk | ⟨rfl, hnot⟩
      · exact absurd hk hkey
      · exact hnot
    · exact .inr ⟨hsame.trans hdel, task, mem_append_left _ htask, hpt⟩

theorem Covered.runTask (h : s.Covered) {index : Nat} {task : List (K × L)}
    (htask : s.tasks[index]? = some task) :
    Covered { s.execute task [] with tasks := s.tasks.eraseIdx index } := by
  intro hunreg p hp
  have hnot : ¬ (p ∈ task ∧ p ∉ ([] : List (K × L)) ∧ s.locations p = some .deleting) := by
    intro hgone
    have hnone : (s.execute task []).locations p = none := if_pos hgone
    have hp' : ((s.execute task []).locations p).isSome := hp
    rw [hnone] at hp'
    cases hp'
  have hsame : (s.execute task []).locations p = s.locations p := if_neg hnot
  have hp' : (s.locations p).isSome := by rw [← hsame]; exact hp
  rcases h hunreg p hp' with hahead | ⟨hdel, task', htask', hpt⟩
  · exact .inl hahead
  · -- The task that holds the location is another one.
    refine .inr ⟨hsame.trans hdel, task', ?_, hpt⟩
    obtain ⟨i, hi⟩ := getElem?_of_mem htask'
    refine mem_eraseIdx_iff_getElem?.mpr ⟨i, ?_, hi⟩
    rintro rfl
    obtain rfl := some.inj (hi.symm.trans htask)
    exact hnot ⟨hpt, by simp, hdel⟩

theorem Covered.step (h : s.Covered) {a : Action K L} (hok : Thorough s a)
    (hstep : s.step a = some s') : s'.Covered := by
  cases a with
  | beginRequest | endRequest =>
    obtain ⟨-, rfl⟩ := of_enabled hstep
    exact h.shrink rfl rfl rfl fun _ _ => rfl
  | add p =>
    obtain ⟨-, rfl⟩ := of_enabled hstep
    intro hunreg
    cases (show s.registered = true from hok).symm.trans hunreg
  | setStatus p status =>
    obtain ⟨henabled, rfl⟩ := of_enabled hstep
    exact h.setStatus status henabled.2 hok
  | drop p =>
    obtain rfl := some.inj hstep
    exact h.drop p
  | unregister ok =>
    obtain ⟨-, rfl⟩ := of_enabled hstep
    cases ok with
    | true => exact fun _ p _ => .inl trivial
    | false => exact h
  | startTrim found =>
    obtain ⟨hremoval, rfl⟩ := of_enabled hstep
    obtain rfl : found = true := hok
    exact fun _ p _ => .inl not_mem_nil
  | page result =>
    obtain ⟨keys, last, rfl, hlast⟩ := hok
    rw [Instance.step] at hstep
    cases hremoval : s.removal with
    | scanning listed =>
      rw [hremoval] at hstep
      obtain rfl := some.inj hstep
      exact h.page hremoval (hlast listed hremoval)
    | _ => rw [hremoval] at hstep; cases hstep
  | submit admitted queued =>
    obtain ⟨rfl, hall⟩ := hok
    rw [Instance.step] at hstep
    cases hremoval : s.removal with
    | submitting listed keys last =>
      rw [hremoval] at hstep
      obtain ⟨-, rfl⟩ := of_enabled hstep
      exact h.submit hremoval (hall listed keys last hremoval)
    | _ => rw [hremoval] at hstep; cases hstep
  | runTask index failed =>
    obtain rfl : failed = [] := hok
    rw [Instance.step] at hstep
    cases htask : s.tasks[index]? with
    | none => rw [htask] at hstep; cases hstep
    | some task =>
      rw [htask] at hstep
      obtain rfl := some.inj hstep
      exact h.runTask htask

theorem covered_reach (h : machine.Reach Thorough s) : s.Covered := by
  refine h.inv (fun s hs hunreg => ?_) fun s a s' hs hok hstep => hs.step hok hstep
  cases hs.1.symm.trans hunreg

/-! ## Nothing is running -/

def Quiet (s : Instance K L) : Prop := s.requests = 0 ∧ s.removal = .idle ∧ s.tasks = []

theorem removal_leaves_nothing (s : Instance K L) (h : machine.Reach Thorough s)
    (hquiet : s.Quiet) : (∀ p, s.locations p = none) ∨ s.registered = true := by
  cases hreg : s.registered with
  | true => exact .inr rfl
  | false =>
    refine .inl fun p => ?_
    by_contra hne
    have hsome := ne_none_iff_isSome.mp hne
    rcases covered_reach h hreg p hsome with hahead | ⟨-, task, htask, -⟩
    · rw [Ahead, hquiet.2.1] at hahead
      exact hahead
    · rw [hquiet.2.2] at htask
      cases htask

/-! ## Runs -/

def oneLocation : Instance Nat Nat :=
  { locations := fun p => if p = (1, 1) then some .serving else none }

theorem oneLocation_init : machine.init oneLocation := ⟨rfl, rfl, rfl, rfl⟩

theorem oneLocation_key {p : Nat × Nat} (h : (oneLocation.locations p).isSome) : p = (1, 1) := by
  by_contra hp
  simp [oneLocation, hp] at h

def removalRun : List (Action Nat Nat) :=
  [.unregister true, .startTrim true, .page (some ([1], true)), .submit [(1, 1)] true, .runTask 0 []]

def removed : Instance Nat Nat := (machine.run oneLocation removalRun).get (by decide)

theorem removalRun_thorough : machine.AllOk Thorough oneLocation removalRun := by
  refine ⟨trivial, fun s₁ h₁ => ⟨rfl, fun s₂ h₂ => ⟨?_, fun s₃ h₃ => ⟨⟨rfl, ?_⟩, fun s₄ h₄ =>
    ⟨rfl, fun _ _ => trivial⟩⟩⟩⟩⟩ <;> obtain rfl := some.inj h₁ <;>
    obtain rfl := some.inj h₂
  · refine ⟨[1], true, rfl, fun listed _ _ p hp => ?_⟩
    rw [oneLocation_key hp]
    simp
  · obtain rfl := some.inj h₃
    intro listed keys last _ p _ hp
    rw [oneLocation_key hp]
    exact mem_singleton_self _

theorem removal_leaves_nothing_removed :
    removed.registered = false ∧ ∀ p, removed.locations p = none := by
  have hreach : machine.Reach Thorough removed :=
    ⟨oneLocation, oneLocation_init,
      steps_of_run (some_get _).symm removalRun_thorough⟩
  refine ⟨rfl, ?_⟩
  rcases removal_leaves_nothing removed hreach ⟨rfl, rfl, rfl⟩ with hnone | hreg
  · exact hnone
  · cases hreg

/-- The scan of `TrimCache` answers an error. -/
def leaked : Instance Nat Nat :=
  (machine.run oneLocation [.unregister true, .startTrim true, .page none]).get (by decide)

theorem failed_scan_leaks : machine.Reach Lib.Machine.anyAction leaked ∧ leaked.Quiet ∧
      leaked.locations (1, 1) = some .serving ∧ leaked.registered = false := by
  refine ⟨⟨oneLocation, oneLocation_init, steps_of_run (some_get _).symm
    (allOk_anyAction _ _)⟩, ⟨rfl, rfl, rfl⟩, rfl, rfl⟩

end Instance

end TairKvCache.InstanceRemoval
