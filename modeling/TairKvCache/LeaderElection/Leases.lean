import TairKvCache.LeaderElection.Electors

/-!
# At most one valid lease

A lease is published after the call that earned it, flag and time one after
the other, so the invariant is about times rather than flags: the time that is
stored, and every time that is about to be stored, is *secured* by the lock
(`Lock.Secures`). No call but `Unlock` takes this away.

`leases_safe` therefore holds in every run in which an elector releases the
lock only after these times have passed. `Demote` does not wait for that: its
`Unlock` comes before the flag is cleared, and while the work loop may still
be about to publish the lease of a renewal.
-/

namespace TairKvCache.LeaderElection

open Function Option Lib.Machine Lock

namespace Electors

variable {ι : Type} {cfg : LeaseConfig ι} {s : Electors ι} {now : Nat} {lock : Lock ι} {i : ι}

/-! ## The invariant -/

/-- The work loop has read the clock, and the lease it is about to publish is
secured. -/
structure SoundPhase (now : Nat) (lock : Lock ι) (i : ι) (phase : WorkPhase) : Prop where
  read : ∀ t, phase.time? = some t → t ≤ now
  secured : ∀ p c, phase = .publish p c → lock.Secures now i p.lease

structure Sound (cfg : LeaseConfig ι) (s : Electors ι) : Prop where
  bounded : s.lock.Bounded cfg.leaseMs s.now
  stored : ∀ i, s.lock.Secures s.now i (s.leaseExpirationTime i)
  working : ∀ i, SoundPhase s.now s.lock i (s.work i)
  checking : ∀ i p, s.check i = .publish p → p.lease ≤ s.now
  demoting : ∀ i k p, s.demote i k = .publish p → p.lease ≤ s.now

theorem sound_init (cfg : LeaseConfig ι) : Sound cfg {} where
  bounded info h := by cases h
  stored _ := .inl (by decide : (-1 : Int) ≤ (0 : Nat))
  working _ := ⟨by simp [WorkPhase.time?], by simp⟩
  checking _ _ h := by cases h
  demoting _ _ _ h := by cases h

theorem SoundPhase.unpublished {phase : WorkPhase} (hread : ∀ t, phase.time? = some t → t ≤ now)
    (hpub : ∀ p c, phase ≠ .publish p c) : SoundPhase now lock i phase :=
  ⟨hread, fun p c h => absurd h (hpub p c)⟩

variable {t : Nat} {p : Publication}

theorem soundPhase_recheck (ht : t ≤ now) : SoundPhase now lock i (.recheck t) :=
  .unpublished (by simpa [WorkPhase.time?] using ht) (by simp)

theorem soundPhase_idle : SoundPhase now lock i .idle :=
  .unpublished (by simp [WorkPhase.time?]) (by simp)

theorem soundPhase_publish (ht : p.time ≤ now) (hp : lock.Secures now i p.lease) (c : Bool) :
    SoundPhase now lock i (.publish p c) := by
  refine ⟨fun t h => ?_, fun p' c' h => ?_⟩
  · obtain rfl := some.inj h
    exact ht
  · obtain ⟨rfl, -⟩ := WorkPhase.publish.inj h
    exact hp

theorem lease_lostLock (t now : Nat) : (lostLock t).lease ≤ now :=
  (by decide : (-1 : Int) ≤ 0).trans (Int.natCast_nonneg now)

theorem soundPhase_lost (ht : t ≤ now) (c : Bool) :
    SoundPhase now lock i (.publish (lostLock t) c) :=
  soundPhase_publish ht (.inl (lease_lostLock t now)) c

theorem soundPhase_gained (ht : t ≤ now) (c : Bool)
    (hlock : lock = some ⟨i, now + cfg.leaseMs i * 1000⟩) :
    SoundPhase now lock i (.publish (gained cfg i t) c) := by
  refine soundPhase_publish ht ?_ c
  rw [hlock]
  exact secures_entry cfg.leaseMs ht i

/-! ## Leaders -/

/-- `lock_acquired_` with an unexpired local lease. -/
def Leads (s : Electors ι) (i : ι) : Prop :=
  s.lockAcquired i = true ∧ (s.now : Int) < s.leaseExpirationTime i

def Holds (s : Electors ι) (i : ι) : Prop :=
  ∃ info, s.lock = some info ∧ info.value = i ∧ s.now < info.expireTime

theorem Sound.holds (h : Sound cfg s) (hl : s.Leads i) : s.Holds i := by
  rcases h.stored i with hpassed | ⟨info, hinfo, hval, hle⟩
  · exact absurd hl.2 (not_lt.mpr hpassed)
  · exact ⟨info, hinfo, hval, by exact_mod_cast hl.2.trans_le hle⟩

theorem Holds.unique {j : ι} (hi : s.Holds i) (hj : s.Holds j) : i = j := by
  obtain ⟨info, hinfo, rfl, -⟩ := hi
  obtain ⟨info', hinfo', rfl, -⟩ := hj
  rw [some.inj (hinfo.symm.trans hinfo')]

/-! ## Stores -/

theorem Sound.setLock (h : Sound cfg s)
    (hk : Lock.Keeps cfg.leaseMs s.now s.lock lock) : Sound cfg (s.setLock lock) :=
  { h with
    bounded := hk.bounded
    stored := fun j => hk.secures _ _ (h.stored j)
    working := fun j =>
      ⟨(h.working j).read, fun p c hp => hk.secures _ _ ((h.working j).secured p c hp)⟩ }

section Stores

variable [DecidableEq ι]

theorem Sound.setWork (h : Sound cfg s) {phase : WorkPhase} (hp : SoundPhase s.now s.lock i phase) :
    Sound cfg (s.setWork i phase) :=
  { h with
    working := (forall_update_iff _ (SoundPhase s.now s.lock)).mpr
      ⟨hp, fun j _ => h.working j⟩ }

theorem Sound.setCheck (h : Sound cfg s) {phase : CheckPhase}
    (hp : ∀ p, phase = .publish p → p.lease ≤ s.now) : Sound cfg (s.setCheck i phase) :=
  { h with
    checking := (forall_update_iff s.check
      fun _ phase => ∀ p, phase = .publish p → p.lease ≤ s.now).mpr ⟨hp, fun j _ => h.checking j⟩ }

theorem Sound.setDemote (h : Sound cfg s) {k : Nat} {phase : DemotePhase}
    (hp : ∀ p, phase = .publish p → p.lease ≤ s.now) : Sound cfg (s.setDemote i k phase) := by
  have hcalls : ∀ k', ∀ p, update (s.demote i) k phase k' = .publish p → p.lease ≤ s.now :=
    (forall_update_iff (s.demote i) fun _ phase => ∀ p, phase = .publish p → p.lease ≤ s.now).mpr
      ⟨hp, fun k' _ => h.demoting i k'⟩
  exact { h with
    demoting := (forall_update_iff s.demote
      fun _ calls => ∀ k', ∀ p, calls k' = .publish p → p.lease ≤ s.now).mpr
        ⟨hcalls, fun j _ => h.demoting j⟩ }

theorem Sound.setLease (h : Sound cfg s) {lease : Int} (hl : s.lock.Secures s.now i lease) :
    Sound cfg (s.setLease i lease) :=
  { h with
    stored := (forall_update_iff _ (s.lock.Secures s.now)).mpr ⟨hl, fun j _ => h.stored j⟩ }

theorem Sound.setAcquired (h : Sound cfg s) (acquired : Bool) : Sound cfg (s.setAcquired i acquired) :=
  { h with }

theorem Sound.forbidCampaign (h : Sound cfg s) (time : Nat) :
    Sound cfg (s.forbidCampaign cfg i time) := by
  rw [Electors.forbidCampaign]
  split_ifs
  · exact { h with }
  · exact h

theorem forbidCampaign_frame (time : Nat) : (s.forbidCampaign cfg i time).now = s.now ∧
    (s.forbidCampaign cfg i time).lock = s.lock := by
  rw [Electors.forbidCampaign]
  split_ifs <;> exact ⟨rfl, rfl⟩

theorem publish_frame (p : Publication) :
    (s.publish cfg i p).now = s.now ∧ (s.publish cfg i p).lock = s.lock := by
  rw [Electors.publish]
  cases p.stage with
  | forbid old =>
    dsimp only
    split_ifs
    · exact forbidCampaign_frame _
    · exact ⟨rfl, rfl⟩
  | _ => exact ⟨rfl, rfl⟩

theorem Sound.publish (h : Sound cfg s) (hp : s.lock.Secures s.now i p.lease) :
    Sound cfg (s.publish cfg i p) := by
  rw [Electors.publish]
  cases p.stage with
  | load => exact h
  | forbid old =>
    dsimp only
    split_ifs
    · exact h.forbidCampaign _
    · exact h
  | flag => exact h.setAcquired _
  | lease => exact h.setLease hp

end Stores

theorem nextStage_some {p' : Publication} (h : s.nextStage i p = some p') :
    p'.lease = p.lease ∧ p'.time = p.time := by
  rw [nextStage] at h
  cases hp : p.stage <;> rw [hp] at h <;> simp at h <;> subst h <;> exact ⟨rfl, rfl⟩

/-! ## Calls -/

theorem Reply.call_keeps {result : ErrorCode × Lock ι} (reply : Reply)
    (hb : lock.Bounded cfg.leaseMs now) (hk : Lock.Keeps cfg.leaseMs now lock result.2) :
    Lock.Keeps cfg.leaseMs now lock (reply.call lock result).2 := by
  cases reply with
  | answered => exact hk
  | failed applied =>
    cases applied with
    | false => exact keeps_refl hb
    | true => exact hk

theorem Reply.call_ok {result : ErrorCode × Lock ι} {reply : Reply}
    (h : (reply.call lock result).1 = .ok) : reply.call lock result = result := by
  cases reply with
  | answered => rfl
  | failed _ => cases h

/-! ## Steps -/

theorem afterRenew_sound (ht : t ≤ now) {ec : ErrorCode}
    (hok : ec = .ok → lock = some ⟨i, now + cfg.leaseMs i * 1000⟩) :
    SoundPhase now lock i (afterRenew cfg i t ec) := by
  cases ec with
  | ok => exact soundPhase_gained ht _ (hok rfl)
  | noent | mismatch => exact soundPhase_lost ht _
  | _ => exact .unpublished (by simpa [afterRenew, WorkPhase.time?] using ht) (by simp [afterRenew])

theorem afterWorkPublish_sound {c : Bool} (ht : p.time ≤ now) (hp : lock.Secures now i p.lease)
    {next : Option Publication}
    (hnext : ∀ p', next = some p' → p'.lease = p.lease ∧ p'.time = p.time) :
    SoundPhase now lock i (afterWorkPublish p.time c next) := by
  cases next with
  | none =>
    rw [afterWorkPublish]
    split_ifs
    · exact soundPhase_recheck ht
    · exact soundPhase_idle
  | some p' =>
    obtain ⟨hlease, htime⟩ := hnext p' rfl
    refine soundPhase_publish (htime.trans_le ht) ?_ c
    rw [hlease]
    exact hp

/-- The publications of the lease check and of `Demote` clear the flag. -/
theorem nextStage_cleared (hp : p.lease ≤ s.now) (p' : Publication) (h : s.nextStage i p = some p') :
    p'.lease ≤ s.now := by
  rw [(nextStage_some h).1]
  exact hp

theorem tick_sound (h : Sound cfg s) (micros : Nat) : Sound cfg (s.tick micros) := by
  have hle : s.now ≤ s.now + micros := Nat.le_add_right ..
  have hle' : (s.now : Int) ≤ (s.now + micros : Nat) := by exact_mod_cast hle
  refine ⟨h.bounded.later hle, fun j => (h.stored j).later hle, fun j => ⟨?_, ?_⟩, ?_, ?_⟩
  · exact fun t ht => ((h.working j).read t ht).trans hle
  · exact fun p c hp => ((h.working j).secured p c hp).later hle
  · exact fun j p hp => (h.checking j p hp).trans hle'
  · exact fun j k p hp => (h.demoting j k p hp).trans hle'

section Steps

variable [DecidableEq ι]

theorem afterHolder_sound (ht : t ≤ now) {found : Option (ι × Nat)}
    (hfound : ∀ holder expireMs, found = some (holder, expireMs) →
      lock.Secures now holder ((expireMs * 1000 : Nat) : Int)) :
    SoundPhase now lock i (afterHolder i t found) := by
  cases found with
  | none =>
    exact .unpublished (by simpa [afterHolder, WorkPhase.time?] using ht) (by simp [afterHolder])
  | some found =>
    obtain ⟨holder, expireMs⟩ := found
    rw [afterHolder]
    split_ifs with hself
    · subst hself
      exact soundPhase_publish ht (hfound _ _ rfl) true
    · exact soundPhase_recheck ht

theorem workStep_sound (h : Sound cfg s) (i : ι) (reply : Reply) :
    Sound cfg (s.workStep cfg i reply) := by
  obtain ⟨hread, hsecured⟩ := h.working i
  -- Only the phases after a call and those of a publication can publish.
  have hplain : ∀ t, (s.work i).time? = some t → ∀ phase : WorkPhase,
      (∀ t', phase.time? = some t' → t' = t) → (∀ p c, phase ≠ .publish p c) →
      Sound cfg (s.setWork i phase) := by
    intro t ht phase htime hpub
    refine h.setWork (.unpublished (fun t' ht' => ?_) hpub)
    rw [htime t' ht']
    exact hread t ht
  rw [workStep]
  cases hw : s.work i with
  | idle => exact h.setWork (.unpublished (by simp [WorkPhase.time?]) (by simp))
  | start t | campaign t | recheck t | hold t =>
    refine hplain t (by rw [hw]; rfl) _ ?_ ?_ <;> split_ifs <;> simp [WorkPhase.time?, eq_comm]
  | getLockHolder t =>
    have ht : t ≤ s.now := hread t (by rw [hw]; rfl)
    obtain ⟨hk, hfound⟩ := getLockHolder_spec h.bounded
    cases reply with
    | answered => exact (h.setLock hk).setWork (afterHolder_sound ht hfound)
    | failed applied =>
      cases applied with
      | false => exact (h.setLock (keeps_refl h.bounded)).setWork (soundPhase_recheck ht)
      | true => exact (h.setLock hk).setWork (soundPhase_recheck ht)
  | tryLock t =>
    have ht : t ≤ s.now := hread t (by rw [hw]; rfl)
    obtain ⟨hk, hok⟩ := tryLock_spec (i := i) h.bounded
    refine (h.setLock (Reply.call_keeps reply h.bounded hk)).setWork ?_
    split_ifs with hec
    · refine soundPhase_gained ht _ ?_
      have hcall := Reply.call_ok hec
      rw [hcall] at hec
      exact (congrArg Prod.snd hcall).trans (hok hec)
    · exact soundPhase_recheck ht
  | renewLock t =>
    have ht : t ≤ s.now := hread t (by rw [hw]; rfl)
    obtain ⟨hk, hok⟩ := renewLock_spec (i := i) h.bounded
    refine (h.setLock (Reply.call_keeps reply h.bounded hk)).setWork ?_
    refine afterRenew_sound ht fun hec => ?_
    have hcall := Reply.call_ok hec
    rw [hcall] at hec
    exact (congrArg Prod.snd hcall).trans (hok hec)
  | checkLease t =>
    have ht : t ≤ s.now := hread t (by rw [hw]; rfl)
    refine h.setWork ?_
    split_ifs
    · exact soundPhase_lost ht _
    · exact soundPhase_idle
  | publish p c =>
    have hp := hsecured p c hw
    have ht : p.time ≤ s.now := hread p.time (by rw [hw]; rfl)
    refine (h.publish hp).setWork ?_
    rw [(publish_frame p).1, (publish_frame p).2]
    exact afterWorkPublish_sound ht hp fun p' => nextStage_some

theorem checkStep_sound (h : Sound cfg s) (i : ι) : Sound cfg (s.checkStep cfg i) := by
  rw [checkStep]
  cases hc : s.check i with
  | idle => exact h.setCheck (by simp)
  | start t =>
    refine h.setCheck fun p hp => ?_
    split_ifs at hp
  | lease t =>
    refine h.setCheck fun p hp => ?_
    split_ifs at hp
    obtain rfl := CheckPhase.publish.inj hp
    exact lease_lostLock t s.now
  | publish p =>
    have hp := h.checking i p hc
    refine (h.publish (.inl hp)).setCheck fun p' hp' => ?_
    rw [(publish_frame p).1]
    cases hn : s.nextStage i p with
    | none =>
      rw [hn] at hp'
      cases hp'
    | some p'' =>
      rw [hn] at hp'
      obtain rfl := CheckPhase.publish.inj hp'
      exact nextStage_cleared hp _ hn

/-! ## Releasing the lock -/

/-- What the elector has stored or is about to publish has passed. -/
def Passed (s : Electors ι) (i : ι) : Prop :=
  s.leaseExpirationTime i ≤ s.now ∧ ∀ p c, s.work i = .publish p c → p.lease ≤ s.now

/-- The lock is released by electors whose leases have passed. -/
def ReleasesPassed (s : Electors ι) : LeaseAction ι → Prop
  | .demote i k _ => ∀ t, s.demote i k = .unlock t → s.Passed i
  | _ => True

theorem Sound.unlock (h : Sound cfg s) (hpassed : s.Passed i) :
    Sound cfg (s.setLock (s.lock.unlock s.now i).2) := by
  refine { h with bounded := unlock_bounded h.bounded, stored := fun j => ?_, working := fun j => ?_ }
  · exact unlock_secures (h.stored j) (by rintro rfl; exact hpassed.1)
  · refine ⟨(h.working j).read, fun p c hp => ?_⟩
    refine unlock_secures ((h.working j).secured p c hp) ?_
    rintro rfl
    exact hpassed.2 p c hp

theorem demoteStep_sound (h : Sound cfg s) (i : ι) (k : Nat) (reply : Reply)
    (hok : ReleasesPassed s (.demote i k reply)) : Sound cfg (s.demoteStep cfg i k reply) := by
  rw [demoteStep]
  cases hd : s.demote i k with
  | idle => exact h.setDemote (by simp)
  | start t =>
    refine h.setDemote fun p hp => ?_
    split_ifs at hp
  | forbid t => exact (h.forbidCampaign t).setDemote (by simp)
  | unlock t =>
    have hcleared : ∀ p, DemotePhase.publish (lostLock t) = .publish p → p.lease ≤ s.now := by
      intro p hp
      obtain rfl := DemotePhase.publish.inj hp
      exact lease_lostLock t s.now
    have hunlocked := h.unlock (hok t hd)
    cases reply with
    | answered => exact hunlocked.setDemote hcleared
    | failed applied =>
      cases applied with
      | false => exact (h.setLock (keeps_refl h.bounded)).setDemote hcleared
      | true => exact hunlocked.setDemote hcleared
  | publish p =>
    have hp := h.demoting i k p hd
    refine (h.publish (.inl hp)).setDemote fun p' hp' => ?_
    rw [(publish_frame p).1]
    cases hn : s.nextStage i p with
    | none =>
      rw [hn] at hp'
      cases hp'
    | some p'' =>
      rw [hn] at hp'
      obtain rfl := DemotePhase.publish.inj hp'
      exact nextStage_cleared hp _ hn

theorem sound_reach (h : (machine cfg).Reach ReleasesPassed s) : Sound cfg s := by
  refine h.inv (fun s hs => ?_) fun s a s' hs hok hstep => ?_
  · obtain rfl : s = {} := hs
    exact sound_init cfg
  · cases a with
    | tick micros =>
      obtain rfl := some.inj hstep
      exact tick_sound hs micros
    | work i reply =>
      obtain rfl := some.inj hstep
      exact workStep_sound hs i reply
    | check i =>
      obtain rfl := some.inj hstep
      exact checkStep_sound hs i
    | demote i k reply =>
      obtain rfl := some.inj hstep
      exact demoteStep_sound hs i k reply hok

/-- An answered `Unlock` of the holder leaves nobody holding the lock. -/
theorem not_holds_unlock (h : s.Holds i) : (s.lock.unlock s.now i).2 = none := by
  obtain ⟨info, hinfo, hval, hlt⟩ := h
  have hkeep : s.lock.cleanupExpiredLocks s.now = some info := by
    simpa [cleanupExpiredLocks, LockInfo.isExpired, hinfo] using hlt
  rw [unlock, hkeep]
  simp [hval]

theorem leases_safe (cfg : LeaseConfig ι) (s : Electors ι)
    (h : (machine cfg).Reach ReleasesPassed s) : (∀ i, s.Leads i → s.Holds i) ∧
      (∀ i j, s.Leads i → s.Leads j → i = j) ∧
      -- Releasing the lock while leading breaks it at once.
      ∀ i k t, s.demote i k = .unlock t → s.Leads i →
        (s.demoteStep cfg i k .answered).Leads i ∧ ¬ (s.demoteStep cfg i k .answered).Holds i := by
  have hs := sound_reach h
  refine ⟨fun i hi => hs.holds hi, fun i j hi hj => (hs.holds hi).unique (hs.holds hj), ?_⟩
  intro i k t hd hi
  have hnone := not_holds_unlock (hs.holds hi)
  rw [demoteStep, hd]
  refine ⟨hi, ?_⟩
  rintro ⟨info, hinfo, -, -⟩
  cases hnone.symm.trans hinfo

end Steps

/-! ## Runs -/

def twoElectors : LeaseConfig (Fin 2) where
  leaseMs _ := 10000
  loopIntervalUs _ := 100000
  forbidCampaignMs _ := 0

def campaign (i : Fin 2) : List (LeaseAction (Fin 2)) := List.replicate 9 (.work i .answered)

def elected : Electors (Fin 2) := ((machine twoElectors).run {} (campaign 0)).get (by decide)

theorem leases_safe_elected : elected.Leads 0 ∧ elected.Holds 0 := by
  have hleads : elected.Leads 0 := by
    rw [Leads]
    decide +kernel
  have hreach : (machine twoElectors).Reach ReleasesPassed elected :=
    ⟨{}, rfl, steps_of_run (some_get _).symm
      (allOk_of_forall (by simp [campaign, ReleasesPassed]) _)⟩
  exact ⟨hleads, (leases_safe twoElectors elected hreach).1 0 hleads⟩

/-- The first elector is told to demote. Its `Unlock` is done and its flag is
still set when the second one wins the lock. -/
def demoted : Electors (Fin 2) :=
  ((machine twoElectors).run {}
    (campaign 0 ++ List.replicate 4 (.demote 0 0 .answered) ++ campaign 1)).get (by decide)

theorem demote_two_leaders : (machine twoElectors).Reach anyAction demoted ∧
      demoted.Leads 0 ∧ demoted.Leads 1 ∧ ¬ demoted.Holds 0 := by
  refine ⟨reach_of_run rfl (some_get _).symm, ?_, ?_, ?_⟩
  · rw [Leads]
    decide +kernel
  · rw [Leads]
    decide +kernel
  · rintro ⟨info, hinfo, hval, -⟩
    have hlock : demoted.lock = some ⟨1, 10000000⟩ := by decide +kernel
    obtain rfl := some.inj (hlock.symm.trans hinfo)
    cases hval

end Electors

end TairKvCache.LeaderElection
