import TairKvCache.Types

/-!
# The lock of the coordination backend

`CoordinationMemoryBackend` for one lock key: a holder and an expiry time, or
nothing. Every call first drops an entry that has expired. Times are in
microseconds of one clock, read once per call; a time to live is given in
milliseconds.

What the electors rely on is `Secures`: until the time `e`, the lock is held
by `i` unless `e` has passed. No call but `unlock` takes that away.
-/

namespace TairKvCache.LeaderElection

open Option

variable {ι : Type}

structure LockInfo (ι : Type) where
  value : ι
  expireTime : Nat
deriving DecidableEq, Repr

namespace LockInfo

def isExpired (info : LockInfo ι) (now : Nat) : Bool := info.expireTime ≤ now

/-- Truncated to milliseconds. -/
def getExpireTimeMs (info : LockInfo ι) : Nat := info.expireTime / 1000

end LockInfo

abbrev Lock (ι : Type) := Option (LockInfo ι)

namespace Lock

def cleanupExpiredLocks (now : Nat) (lock : Lock ι) : Lock ι :=
  lock.filter fun info => !info.isExpired now

section Calls

variable [DecidableEq ι]

def tryLock (now : Nat) (i : ι) (ttlMs : Nat) (lock : Lock ι) : ErrorCode × Lock ι :=
  if ttlMs = 0 then (.badargs, lock)
  else
    match lock.cleanupExpiredLocks now with
    | none => (.ok, some ⟨i, now + ttlMs * 1000⟩)
    | some info =>
      if info.value = i then (.ok, some ⟨i, now + ttlMs * 1000⟩) else (.exist, some info)

def renewLock (now : Nat) (i : ι) (ttlMs : Nat) (lock : Lock ι) : ErrorCode × Lock ι :=
  if ttlMs = 0 then (.badargs, lock)
  else
    match lock.cleanupExpiredLocks now with
    | none => (.noent, none)
    | some info =>
      if info.value = i then (.ok, some ⟨i, now + ttlMs * 1000⟩) else (.mismatch, some info)

def unlock (now : Nat) (i : ι) (lock : Lock ι) : ErrorCode × Lock ι :=
  match lock.cleanupExpiredLocks now with
  | none => (.noent, none)
  | some info => if info.value = i then (.ok, none) else (.mismatch, some info)

end Calls

/-- The holder and the expiry time in milliseconds. -/
def getLockHolder (now : Nat) (lock : Lock ι) : ErrorCode × Option (ι × Nat) × Lock ι :=
  match lock.cleanupExpiredLocks now with
  | none => (.noent, none, none)
  | some info => (.ok, some (info.value, info.getExpireTimeMs), some info)

/-! ## Who holds the lock until when -/

/-- Until `e`, the lock is held by `i`. -/
def Secures (now : Nat) (lock : Lock ι) (i : ι) (e : Int) : Prop :=
  e ≤ now ∨ ∃ info, lock = some info ∧ info.value = i ∧ e ≤ info.expireTime

/-- No entry outlives the time to live that its holder asks for. -/
def Bounded (ttlMs : ι → Nat) (now : Nat) (lock : Lock ι) : Prop :=
  ∀ info, lock = some info → info.expireTime ≤ now + ttlMs info.value * 1000

variable {now : Nat} {lock : Lock ι} {i j : ι} {e : Int} {ttlMs : ι → Nat}

theorem Secures.later (h : Secures now lock i e) {now' : Nat} (hle : now ≤ now') :
    Secures now' lock i e :=
  h.imp_left fun he => he.trans (by exact_mod_cast hle)

theorem cleanup_cases (now : Nat) (lock : Lock ι) :
    (lock.cleanupExpiredLocks now = none ∧ ∀ info, lock = some info → info.expireTime ≤ now) ∨
      ∃ info, lock = some info ∧ now < info.expireTime ∧
        lock.cleanupExpiredLocks now = some info := by
  cases lock with
  | none => exact .inl ⟨rfl, by simp⟩
  | some info =>
    by_cases hexp : info.expireTime ≤ now
    · refine .inl ⟨?_, fun info' h => ?_⟩
      · simp [cleanupExpiredLocks, LockInfo.isExpired, hexp]
      · obtain rfl := some.inj h
        exact hexp
    · refine .inr ⟨info, rfl, Nat.lt_of_not_le hexp, ?_⟩
      simpa [cleanupExpiredLocks, LockInfo.isExpired] using hexp

/-- What is secured by an entry that has expired has passed. -/
theorem Secures.passed (h : Secures now lock i e)
    (hexp : ∀ info, lock = some info → info.expireTime ≤ now) : e ≤ now := by
  rcases h with he | ⟨info, hinfo, -, he⟩
  · exact he
  · exact he.trans (by exact_mod_cast hexp info hinfo)

theorem Secures.cleanup (h : Secures now lock i e) :
    Secures now (lock.cleanupExpiredLocks now) i e := by
  rcases cleanup_cases now lock with ⟨-, hexp⟩ | ⟨info, hinfo, -, hkeep⟩
  · exact .inl (h.passed hexp)
  · rw [hkeep, ← hinfo]
    exact h

/-- Extending the own entry, or taking a lock nobody holds. -/
theorem Secures.extend (h : Secures now lock j e) (hb : Bounded ttlMs now lock)
    (hown : ∀ info, lock = some info → info.value = i) :
    Secures now (some ⟨i, now + ttlMs i * 1000⟩) j e := by
  rcases h with he | ⟨info, hinfo, rfl, he⟩
  · exact .inl he
  · have hi := hown info hinfo
    have hle := hb info hinfo
    rw [hi] at hle
    exact .inr ⟨_, rfl, hi.symm, he.trans (by exact_mod_cast hle)⟩

theorem Bounded.cleanup (hb : Bounded ttlMs now lock) :
    Bounded ttlMs now (lock.cleanupExpiredLocks now) := by
  rcases cleanup_cases now lock with ⟨hnone, -⟩ | ⟨info, hinfo, -, hkeep⟩
  · rw [hnone]
    intro info h
    cases h
  · rw [hkeep, ← hinfo]
    exact hb

theorem bounded_entry (ttlMs : ι → Nat) (now : Nat) (i : ι) :
    Bounded ttlMs now (some ⟨i, now + ttlMs i * 1000⟩) := by
  intro info h
  obtain rfl := some.inj h
  exact le_rfl

theorem Bounded.later (hb : Bounded ttlMs now lock) {now' : Nat} (hle : now ≤ now') :
    Bounded ttlMs now' lock :=
  fun info h => (hb info h).trans (Nat.add_le_add_right hle _)

/-- `lock'` keeps what `lock` secures, and its bound. -/
structure Keeps (ttlMs : ι → Nat) (now : Nat) (lock lock' : Lock ι) : Prop where
  secures : ∀ j e, Secures now lock j e → Secures now lock' j e
  bounded : Bounded ttlMs now lock'

theorem keeps_refl (hb : Bounded ttlMs now lock) : Keeps ttlMs now lock lock :=
  ⟨fun _ _ h => h, hb⟩

theorem keeps_cleanup (hb : Bounded ttlMs now lock) :
    Keeps ttlMs now lock (lock.cleanupExpiredLocks now) :=
  ⟨fun _ _ h => h.cleanup, hb.cleanup⟩

theorem keeps_entry (hb : Bounded ttlMs now lock)
    (hown : ∀ info, lock.cleanupExpiredLocks now = some info → info.value = i) :
    Keeps ttlMs now lock (some ⟨i, now + ttlMs i * 1000⟩) :=
  ⟨fun _ _ h => h.cleanup.extend hb.cleanup hown, bounded_entry ttlMs now i⟩

/-- A lock that was obtained or renewed is held for the whole time to live. -/
theorem secures_entry (ttlMs : ι → Nat) {t : Nat} (ht : t ≤ now) (i : ι) :
    Secures now (some ⟨i, now + ttlMs i * 1000⟩) i ((t + ttlMs i * 1000 : Nat) : Int) :=
  .inr ⟨_, rfl, rfl, by exact_mod_cast Nat.add_le_add_right ht _⟩

theorem getLockHolder_spec (hb : Bounded ttlMs now lock) :
    Keeps ttlMs now lock (getLockHolder now lock).2.2 ∧
      ∀ holder expireMs, (getLockHolder now lock).2.1 = some (holder, expireMs) →
        Secures now (getLockHolder now lock).2.2 holder ((expireMs * 1000 : Nat) : Int) := by
  rw [getLockHolder]
  have hcleanup := keeps_cleanup hb
  cases hc : lock.cleanupExpiredLocks now with
  | none =>
    rw [hc] at hcleanup
    exact ⟨hcleanup, by simp⟩
  | some info =>
    rw [hc] at hcleanup
    refine ⟨hcleanup, fun holder expireMs h => .inr ⟨info, rfl, ?_⟩⟩
    obtain ⟨rfl, rfl⟩ := Prod.mk.inj (some.inj h)
    refine ⟨rfl, ?_⟩
    rw [LockInfo.getExpireTimeMs]
    exact_mod_cast Nat.div_mul_le_self _ _

section Specs

variable [DecidableEq ι]

theorem tryLock_spec (hb : Bounded ttlMs now lock) :
    Keeps ttlMs now lock (tryLock now i (ttlMs i) lock).2 ∧
      ((tryLock now i (ttlMs i) lock).1 = .ok →
        (tryLock now i (ttlMs i) lock).2 = some ⟨i, now + ttlMs i * 1000⟩) := by
  rw [tryLock]
  split_ifs with hzero
  · exact ⟨keeps_refl hb, by simp⟩
  · have hcleanup := keeps_cleanup hb
    cases hc : lock.cleanupExpiredLocks now with
    | none => exact ⟨keeps_entry hb (by simp [hc]), fun _ => rfl⟩
    | some info =>
      dsimp only
      split_ifs with hown
      · refine ⟨keeps_entry hb fun info' h => ?_, fun _ => rfl⟩
        obtain rfl := some.inj (hc.symm.trans h)
        exact hown
      · rw [hc] at hcleanup
        exact ⟨hcleanup, by simp⟩

theorem renewLock_spec (hb : Bounded ttlMs now lock) :
    Keeps ttlMs now lock (renewLock now i (ttlMs i) lock).2 ∧
      ((renewLock now i (ttlMs i) lock).1 = .ok →
        (renewLock now i (ttlMs i) lock).2 = some ⟨i, now + ttlMs i * 1000⟩) := by
  rw [renewLock]
  split_ifs with hzero
  · exact ⟨keeps_refl hb, by simp⟩
  · have hcleanup := keeps_cleanup hb
    cases hc : lock.cleanupExpiredLocks now with
    | none =>
      rw [hc] at hcleanup
      exact ⟨hcleanup, by simp⟩
    | some info =>
      dsimp only
      split_ifs with hown
      · refine ⟨keeps_entry hb fun info' h => ?_, fun _ => rfl⟩
        obtain rfl := some.inj (hc.symm.trans h)
        exact hown
      · rw [hc] at hcleanup
        exact ⟨hcleanup, by simp⟩

/-- Releasing takes nothing from the others, and from the releasing elector
what has not passed. -/
theorem unlock_secures (h : Secures now lock j e) (hpassed : j = i → e ≤ now) :
    Secures now (unlock now i lock).2 j e := by
  have hcleanup := h.cleanup
  rw [unlock]
  cases hc : lock.cleanupExpiredLocks now with
  | none =>
    rw [hc] at hcleanup
    exact hcleanup
  | some info =>
    rw [hc] at hcleanup
    dsimp only
    split_ifs with hown
    · rcases hcleanup with hle | ⟨info', hinfo, hval, -⟩
      · exact .inl hle
      · obtain rfl := some.inj hinfo
        exact .inl (hpassed (hval.symm.trans hown))
    · exact hcleanup

theorem unlock_bounded (hb : Bounded ttlMs now lock) : Bounded ttlMs now (unlock now i lock).2 := by
  have hcleanup := hb.cleanup
  rw [unlock]
  cases hc : lock.cleanupExpiredLocks now with
  | none => exact nofun
  | some info =>
    rw [hc] at hcleanup
    dsimp only
    split_ifs
    · exact nofun
    · exact hcleanup

end Specs

end Lock

end TairKvCache.LeaderElection
