import Superkiro.Lib.Counter
import Superkiro.Lib.Run
import Superkiro.Lib.Table

namespace Gateway.Security

-- Times are in seconds, as 64-bit numbers.
def u64Bound : Nat := 2 ^ 64

structure BruteForceConfig where
  maxFailures : Nat := 5
  windowSecs  : Nat := 300
  lockoutSecs : Nat := 900

structure AttemptRecord where
  failureCount   : Nat
  firstFailureAt : Nat
  lockedUntil    : Option Nat
  deriving DecidableEq

structure BruteForceProtector where
  config  : BruteForceConfig
  records : Table String AttemptRecord

-- How long an identifier is locked out for.
structure LockedOut where
  remainingSecs : Nat
  deriving DecidableEq

namespace AttemptRecord

-- What's left of a lock.
def lock (now : Nat) (r : AttemptRecord) : Option Nat :=
  r.lockedUntil.bind fun u => if now < u then some (u - now) else none

def active (c : BruteForceConfig) (now : Nat) (r : AttemptRecord) : Bool :=
  match r.lockedUntil with
  | some u => now < u
  | none   => now - r.firstFailureAt ≤ c.windowSecs

-- Another failure, in a new window if the lock or the window is over.
def failed (c : BruteForceConfig) (now : Nat) (r : AttemptRecord) : AttemptRecord :=
  let r := if r.lockedUntil.isSome then ⟨0, now, none⟩ else r
  if c.windowSecs < now - r.firstFailureAt then ⟨1, now, none⟩
  else { r with failureCount := r.failureCount + 1 }

end AttemptRecord

namespace BruteForceProtector

variable (p : BruteForceProtector)

def lock (id : String) (now : Nat) : Option Nat := (p.records.lookup id).bind (·.lock now)

def checkLockout (id : String) (now : Nat) : Except LockedOut Unit :=
  match p.lock id now with
  | some secs => .error ⟨secs⟩
  | none      => .ok ()

-- The records of identifiers that are locked or within their window.
def retained (now : Nat) : BruteForceProtector :=
  { p with records := p.records.retain fun _ r => r.active p.config now }

def recordFailure (id : String) (now : Nat) : Except LockedOut Unit × BruteForceProtector :=
  let p := p.retained now
  match p.lock id now with
  | some secs => (.error ⟨secs⟩, p)
  | none      =>
    let r := ((p.records.lookup id).getD ⟨0, now, none⟩).failed p.config now
    if p.config.maxFailures ≤ r.failureCount then
      let until_ := (now + p.config.lockoutSecs) % u64Bound
      (.error ⟨p.config.lockoutSecs⟩,
        { p with records := p.records.insert id { r with lockedUntil := some until_ } })
    else (.ok (), { p with records := p.records.insert id r })

def recordSuccess (id : String) : BruteForceProtector :=
  { p with records := p.records.erase id }

variable {p} {id id' : String} {now now' : Nat} {r : AttemptRecord}

theorem lookup_retained : (p.retained now).records.lookup id = some r ↔
    p.records.lookup id = some r ∧ r.active p.config now :=
  AList.lookup_retain _

-- Locks are retained.
theorem lock_retained (h : now ≤ now') : (p.retained now).lock id now' = p.lock id now' := by
  rw [lock, lock]
  cases hp : p.records.lookup id
  case none =>
    have hr : (p.retained now).records.lookup id = none := by
      rw [Option.eq_none_iff_forall_ne_some]
      intro r hr
      rw [(lookup_retained.mp hr).left] at hp
      cases hp
    rw [hr]
  case some r =>
    cases ha : r.active p.config now
    case true => rw [lookup_retained.mpr ⟨hp, ha⟩]
    case false =>
      have hr : (p.retained now).records.lookup id = none := by
        rw [Option.eq_none_iff_forall_ne_some]
        intro r' hr
        have ⟨hr, ha'⟩ := lookup_retained.mp hr
        rw [hp] at hr
        cases hr
        rw [ha] at ha'
        cases ha'
      rw [hr, Option.bind_some, AttemptRecord.lock]
      cases hu : r.lockedUntil
      case none => rfl
      case some u =>
        simp only [AttemptRecord.active, hu, decide_eq_false_iff_not] at ha
        exact (if_neg (by omega)).symm

theorem recordFailure_config : (p.recordFailure id now).2.config = p.config := by
  simp only [recordFailure]
  split
  case h_1 => rfl
  case h_2 => split <;> rfl

theorem recordFailure_locked {secs : Nat} (h : p.lock id now = some secs) :
    p.recordFailure id now = (.error ⟨secs⟩, p.retained now) := by
  rw [recordFailure, lock_retained (Nat.le_refl _), h]

-- The record that a failure is counted in.
def current (p : BruteForceProtector) (id : String) (now : Nat) : AttemptRecord :=
  ((p.retained now).records.lookup id).getD ⟨0, now, none⟩

theorem recordFailure_unlocked (h : p.lock id now = none) : p.recordFailure id now =
    if p.config.maxFailures ≤ ((p.current id now).failed p.config now).failureCount then
      (.error ⟨p.config.lockoutSecs⟩, { p.retained now with
        records := (p.retained now).records.insert id { (p.current id now).failed p.config now with
          lockedUntil := some ((now + p.config.lockoutSecs) % u64Bound) } })
    else (.ok (), { p.retained now with
      records := (p.retained now).records.insert id ((p.current id now).failed p.config now) }) := by
  rw [recordFailure, lock_retained (Nat.le_refl _), h]
  rfl

-- What an identifier's failures do to others.
theorem lookup_recordFailure (h : id' ≠ id) : (p.recordFailure id now).2.records.lookup id' =
    (p.retained now).records.lookup id' := by
  cases hl : p.lock id now
  case some => rw [recordFailure_locked hl]
  case none =>
    rw [recordFailure_unlocked hl]
    split <;> exact AList.lookup_insert_ne h

-- No identifier's failures lock another one, or end its lock.
theorem lock_recordFailure (h : id' ≠ id) (hn : now ≤ now') :
    (p.recordFailure id now).2.lock id' now' = p.lock id' now' := by
  rw [lock, lookup_recordFailure h]
  exact lock_retained hn

-- A record that's counted in isn't locked, and within its window.
theorem current_open (h : p.lock id now = none) : (p.current id now).lockedUntil = none ∧
    now - (p.current id now).firstFailureAt ≤ p.config.windowSecs := by
  rw [current]
  cases hr : (p.retained now).records.lookup id
  case none => exact ⟨rfl, by simp⟩
  case some r =>
    have ⟨hp, ha⟩ := lookup_retained.mp hr
    rw [lock, hp, Option.bind_some, AttemptRecord.lock] at h
    rw [Option.getD_some]
    cases hu : r.lockedUntil
    case none =>
      simp only [AttemptRecord.active, hu, decide_eq_true_eq] at ha
      exact ⟨rfl, ha⟩
    case some u =>
      simp only [AttemptRecord.active, hu, decide_eq_true_eq] at ha
      rw [hu, Option.bind_some, if_pos ha] at h
      cases h

theorem failed_current (h : p.lock id now = none) : (p.current id now).failed p.config now =
    { p.current id now with failureCount := (p.current id now).failureCount + 1 } := by
  have ⟨hl, hw⟩ := current_open h
  rw [AttemptRecord.failed, hl]
  exact if_neg (Nat.not_lt.mpr hw)

end BruteForceProtector

def maxCounters : Nat := 100000

structure IpRateLimiter where
  maxRequests : Nat
  windowSecs  : Nat
  counters    : Table String Counter

namespace IpRateLimiter

def new (maxRequests windowSecs : Nat) : IpRateLimiter := ⟨max maxRequests 1, max windowSecs 1, ∅⟩

variable (l : IpRateLimiter)

-- The table without the address that's been counted for longest, if it's full of others.
def roomFor (ip : String) (t : Table String Counter) : Table String Counter :=
  if maxCounters ≤ t.entries.length ∧ ip ∉ t then
    match t.entries.argmin (·.2.start) with
    | some oldest => t.erase oldest.1
    | none        => t
  else t

-- An error tells for how long to wait.
def checkRateLimit (ip : String) (now : Nat) : Except Nat Unit × IpRateLimiter :=
  let t := roomFor ip (l.counters.retain fun _ c => c.live l.windowSecs now)
  let c := (t.lookup ip).getD ⟨now, 0⟩
  let (good, c) := c.take l.windowSecs l.maxRequests now
  let l := { l with counters := t.insert ip c }
  if good then (.ok (), l) else (.error (max (l.windowSecs - (now - c.start)) 1), l)

variable {l} {ip ip' : String} {now : Nat} {t : Table String Counter} {c : Counter}

theorem lookup_roomFor : (roomFor ip t).lookup ip = t.lookup ip := by
  rw [roomFor]
  split
  case isFalse => rfl
  case isTrue h =>
    split
    case h_2 => rfl
    case h_1 oldest _ =>
      rw [AList.lookup_eq_none.mpr h.right, AList.lookup_eq_none, AList.mem_erase]
      exact fun hm => h.right hm.right

theorem of_lookup_roomFor (h : (roomFor ip t).lookup ip' = some c) : t.lookup ip' = some c := by
  rw [roomFor] at h
  split at h
  case isFalse => exact h
  case isTrue =>
    split at h
    case h_2 => exact h
    case h_1 => exact (AList.lookup_erase_iff.mp h).right

-- The count of an address that a request adds to.
def current (l : IpRateLimiter) (ip : String) (now : Nat) : Counter :=
  ((l.counters.retain fun _ c => c.live l.windowSecs now).lookup ip).getD ⟨now, 0⟩

def taken (l : IpRateLimiter) (ip : String) (now : Nat) : Bool × Counter :=
  (l.current ip now).take l.windowSecs l.maxRequests now

theorem checkRateLimit_eq : l.checkRateLimit ip now =
    (if (l.taken ip now).1 then .ok ()
      else .error (max (l.windowSecs - (now - (l.taken ip now).2.start)) 1),
    let t := roomFor ip (l.counters.retain fun _ c => c.live l.windowSecs now)
    { l with counters := t.insert ip (l.taken ip now).2 }) := by
  rw [checkRateLimit, lookup_roomFor, taken, current]
  generalize Counter.take _ _ _ _ = taken
  have ⟨good, c⟩ := taken
  cases good <;> rfl

theorem lookup_checkRateLimit :
    (l.checkRateLimit ip now).2.counters.lookup ip = some (l.taken ip now).2 := by
  rw [checkRateLimit_eq]
  exact AList.lookup_insert _

-- Requests of an address add nothing to the counts of others.
theorem of_lookup_checkRateLimit (hi : ip' ≠ ip)
    (h : (l.checkRateLimit ip now).2.counters.lookup ip' = some c) :
    l.counters.lookup ip' = some c := by
  rw [checkRateLimit_eq, AList.lookup_insert_ne hi] at h
  exact ((AList.lookup_retain _).mp (of_lookup_roomFor h)).left

variable (l ip now) in
theorem current_cases : (l.counters.lookup ip = some (l.current ip now) ∧
    (l.current ip now).live l.windowSecs now) ∨ (l.current ip now = ⟨now, 0⟩ ∧
    ∀ c, l.counters.lookup ip = some c → c.live l.windowSecs now = false) := by
  rw [current]
  cases hc : (l.counters.retain fun _ c => c.live l.windowSecs now).lookup ip
  case some c => exact .inl ((AList.lookup_retain _).mp hc)
  case none =>
    refine .inr ⟨rfl, fun c h => ?_⟩
    rw [Bool.eq_false_iff]
    intro hl
    rw [(AList.lookup_retain _).mpr ⟨h, hl⟩] at hc
    cases hc

end IpRateLimiter

inductive LoginOp
  | failure (id : String) (now : Nat)
  | success (id : String)
  | check (id : String) (now : Nat)

def LoginOp.clock? : LoginOp → Option Nat
  | failure _ now | check _ now => some now
  | success _                   => none

-- A protector, with the failures of each identifier since it last succeeded, the latest first.
-- Failures that were refused because of a lock aren't recorded.
structure Watch where
  protector : BruteForceProtector
  failures  : String → List Nat
  clock     : Nat

namespace Watch

def fresh (c : BruteForceConfig) : Watch := ⟨⟨c, ∅⟩, fun _ => [], 0⟩

variable (w : Watch)

def failed (id : String) (now : Nat) : List Nat :=
  if (w.protector.lock id now).isSome then w.failures id else now :: w.failures id

def exec : LoginOp → Watch
  | .failure id now => {
    protector := (w.protector.recordFailure id now).2
    failures  := Function.update w.failures id (w.failed id now)
    clock     := now }
  | .success id     => { w with
    protector := w.protector.recordSuccess id
    failures  := Function.update w.failures id [] }
  | .check _ now    => { w with clock := now }

def Step (w : Watch) (op : LoginOp) (w' : Watch) : Prop :=
  w' = w.exec op ∧ ∀ now, op.clock? = some now → w.clock ≤ now

-- No count ends, with its lock or with the window of its first failure, while one of its failures
-- is less than a window ago.
def Slides (w : Watch) : LoginOp → Prop
  | .failure _ now => now + w.protector.config.lockoutSecs < u64Bound ∧
    ∀ id r, w.protector.records.lookup id = some r → r.active w.protector.config now = false →
      ∀ t ∈ w.failures id, t + (w.protector.config.windowSecs + 1) ≤ now
  | _ => True

theorem Slides.of_active {w : Watch} {id : String} {now : Nat}
    (hb : now + w.protector.config.lockoutSecs < u64Bound)
    (h : ∀ r ∈ w.protector.records.values, r.active w.protector.config now = true) :
    w.Slides (.failure id now) := by
  refine ⟨hb, fun id r hr ha => ?_⟩
  rw [h r (AList.mem_values.mpr ⟨id, hr⟩)] at ha
  cases ha

-- The failures that a record has are those it stands for.
def Recorded (window clock : Nat) (ts : List Nat) : Option AttemptRecord → Prop
  | none   => ∀ t ∈ ts, t + (window + 1) ≤ clock
  | some r => r.lockedUntil = none → r.firstFailureAt ≤ clock ∧
    Counter.Counts (window + 1) ⟨r.firstFailureAt, r.failureCount⟩ ts

def Tallied : Prop :=
  ∀ id, Recorded w.protector.config.windowSecs w.clock (w.failures id)
    (w.protector.records.lookup id)

section

variable {w} {w' : Watch} {op : LoginOp} {id id' : String} {now now' : Nat} {c : BruteForceConfig}

theorem fresh_tallied : (fresh c).Tallied := fun _ => nofun

theorem Recorded.later {window clock clock' : Nat} {ts : List Nat} {r : Option AttemptRecord}
    (h : Recorded window clock ts r) (hc : clock ≤ clock') : Recorded window clock' ts r := by
  cases r
  case none => exact fun t ht => (h t ht).trans hc
  case some => exact fun hl => (h hl).imp_left (·.trans hc)

variable (id) in
-- What's retained of a record stands for the same failures.
theorem Tallied.retained (h : w.Tallied) (hc : w.clock ≤ now) (hs : w.Slides (.failure id' now)) :
    Recorded w.protector.config.windowSecs now (w.failures id)
      ((w.protector.retained now).records.lookup id) := by
  have hr := (h id).later hc
  cases hl : (w.protector.retained now).records.lookup id
  case some r => rwa [(BruteForceProtector.lookup_retained.mp hl).left] at hr
  case none =>
    cases hp : w.protector.records.lookup id
    case none => rwa [hp] at hr
    case some r =>
      refine hs.right id r hp ?_
      rw [Bool.eq_false_iff]
      intro ha
      rw [BruteForceProtector.lookup_retained.mpr ⟨hp, ha⟩] at hl
      cases hl

-- A failure is counted with those before it that a window has.
theorem Tallied.counts (h : w.Tallied) (hc : w.clock ≤ now) (hs : w.Slides (.failure id now))
    (hl : w.protector.lock id now = none) : let r := w.protector.current id now
    r.firstFailureAt ≤ now ∧ Counter.Counts (w.protector.config.windowSecs + 1)
      ⟨r.firstFailureAt, r.failureCount⟩ (w.failures id) := by
  have hr := h.retained id hc hs
  have ho := BruteForceProtector.current_open hl
  rw [BruteForceProtector.current] at ho ⊢
  cases hp : (w.protector.retained now).records.lookup id
  case none =>
    rw [hp] at hr
    exact ⟨Nat.le_refl _, .fresh hr⟩
  case some r =>
    rw [hp] at hr ho
    exact hr ho.left

-- An identifier is locked at the last of as many failures as a window may have.
theorem Tallied.locks (h : w.Tallied) (hc : w.clock ≤ now) (hs : w.Slides (.failure id now))
    (hl : w.protector.lock id now = none) {t : Nat}
    (ht : now < t + (w.protector.config.windowSecs + 1))
    (hn : w.protector.config.maxFailures ≤
      (during (w.protector.config.windowSecs + 1) t (now :: w.failures id)).length) :
    (w.protector.recordFailure id now).1 = .error ⟨w.protector.config.lockoutSecs⟩ := by
  have ⟨hf, hcs⟩ := h.counts hc hs hl
  have hd := (hcs.cons hf).during_le hf ht
  rw [BruteForceProtector.recordFailure_unlocked hl, BruteForceProtector.failed_current hl,
    if_pos (hn.trans hd)]

theorem failed_of_locked {secs : Nat} (h : w.protector.lock id now = some secs) :
    w.failed id now = w.failures id := by
  rw [failed, h]
  exact if_pos rfl

theorem failed_of_unlocked (h : w.protector.lock id now = none) :
    w.failed id now = now :: w.failures id := by
  rw [failed, h]
  exact if_neg nofun

-- What becomes of the failures of an identifier that fails.
theorem Tallied.failed (h : w.Tallied) (hc : w.clock ≤ now) (hs : w.Slides (.failure id now)) :
    Recorded w.protector.config.windowSecs now (w.failed id now)
      ((w.protector.recordFailure id now).2.records.lookup id) := by
  cases hl : w.protector.lock id now
  case some secs =>
    rw [failed_of_locked hl, BruteForceProtector.recordFailure_locked hl]
    exact h.retained _ hc hs
  case none =>
    have ⟨hf, hcs⟩ := h.counts hc hs hl
    rw [failed_of_unlocked hl, BruteForceProtector.recordFailure_unlocked hl,
      BruteForceProtector.failed_current hl]
    split
    case isTrue =>
      rw [AList.lookup_insert]
      exact nofun
    case isFalse =>
      rw [AList.lookup_insert]
      exact fun _ => ⟨hf, hcs.cons hf⟩

theorem Tallied.step (h : w.Tallied) (hs : w.Slides op) (ht : w.Step op w') : w'.Tallied := by
  have ⟨he, hc⟩ := ht
  subst he
  intro id
  cases op
  case failure id' now =>
    have hn := hc now rfl
    simp only [exec, BruteForceProtector.recordFailure_config]
    by_cases hi : id = id'
    case pos =>
      subst hi
      rw [Function.update_self]
      exact h.failed hn hs
    case neg =>
      rw [Function.update_of_ne hi, BruteForceProtector.lookup_recordFailure hi]
      exact h.retained _ hn hs
  case success id' =>
    simp only [exec, BruteForceProtector.recordSuccess]
    by_cases hi : id = id'
    case pos =>
      subst hi
      rw [Function.update_self, AList.lookup_erase]
      exact nofun
    case neg =>
      rw [Function.update_of_ne hi, AList.lookup_erase_ne hi]
      exact h id
  case check id' now => exact (h id).later (hc now rfl)

theorem Step.config (h : w.Step op w') : w'.protector.config = w.protector.config := by
  rw [h.left]
  cases op
  case failure => exact BruteForceProtector.recordFailure_config
  case success => rfl
  case check => rfl

-- A lock stays, whatever is done about others, until it's over or its own identifier succeeds.
theorem Step.holds {r : AttemptRecord} {u : Nat} (h : w.Step op w')
    (hr : w.protector.records.lookup id = some r) (hu : r.lockedUntil = some u)
    (hs : op ≠ .success id) (hn : ∀ now, op.clock? = some now → now < u) :
    w'.protector.records.lookup id = some r := by
  rw [h.left]
  cases op
  case check => exact hr
  case success id' =>
    have hi : id ≠ id' := fun he => hs (he ▸ rfl)
    exact (AList.lookup_erase_ne hi).trans hr
  case failure id' now =>
    have hb : now < u := hn now rfl
    have ha : (w.protector.retained now).records.lookup id = some r := by
      refine BruteForceProtector.lookup_retained.mpr ⟨hr, ?_⟩
      simpa [AttemptRecord.active, hu] using hb
    by_cases hi : id = id'
    case neg => exact (BruteForceProtector.lookup_recordFailure hi).trans ha
    case pos =>
      subst hi
      have hl : w.protector.lock id now = some (u - now) := by
        simp [BruteForceProtector.lock, hr, AttemptRecord.lock, hu, hb]
      simp only [exec, BruteForceProtector.recordFailure_locked hl]
      exact ha

theorem run_holds {ops : List LoginOp} {r : AttemptRecord} {u : Nat} (h : Run Step w ops w')
    (hr : w.protector.records.lookup id = some r) (hu : r.lockedUntil = some u)
    (hs : ∀ op ∈ ops, op ≠ .success id)
    (hn : ∀ op ∈ ops, ∀ now, op.clock? = some now → now < u) :
    w'.protector.records.lookup id = some r :=
  h.preserves_mem (I := fun w => w.protector.records.lookup id = some r)
    (fun hm hr hst => hst.holds hr hu (hs _ hm) (hn _ hm)) hr

def Locked (w : Watch) (id : String) (u : Nat) : Prop :=
  ∃ r, w.protector.records.lookup id = some r ∧ r.lockedUntil = some u

theorem Locked.refused {u : Nat} (h : w.Locked id u) (hn : now < u) :
    w.protector.checkLockout id now = .error ⟨u - now⟩ ∧
      (w.protector.recordFailure id now).1 = .error ⟨u - now⟩ := by
  have ⟨r, hr, hu⟩ := h
  have hl : w.protector.lock id now = some (u - now) := by
    simp [BruteForceProtector.lock, hr, AttemptRecord.lock, hu, hn]
  rw [BruteForceProtector.checkLockout, BruteForceProtector.recordFailure_locked hl, hl]
  exact ⟨rfl, rfl⟩

-- An identifier that's newly refused is locked.
theorem locked_of_refused (h : w.protector.lock id now = none)
    (hr : (w.protector.recordFailure id now).1 ≠ .ok ())
    (hb : now + w.protector.config.lockoutSecs < u64Bound) :
    (w.exec (.failure id now)).Locked id (now + w.protector.config.lockoutSecs) := by
  rw [BruteForceProtector.recordFailure_unlocked h] at hr
  rw [Locked, exec, BruteForceProtector.recordFailure_unlocked h]
  split_ifs at hr ⊢
  case pos => exact ⟨_, AList.lookup_insert _, congrArg some (Nat.mod_eq_of_lt hb)⟩
  case neg => exact (hr rfl).elim

-- What holds of an identifier that isn't locked, wherever no count has ended too soon.
structure Guarded (c : BruteForceConfig) (w : Watch) (id : String) (now : Nat) : Prop where
  locks      : ∀ t, now < t + (c.windowSecs + 1) →
    c.maxFailures ≤ (during (c.windowSecs + 1) t (now :: w.failures id)).length →
    (w.protector.recordFailure id now).1 = .error ⟨c.lockoutSecs⟩ ∧
      (w.exec (.failure id now)).Locked id (now + c.lockoutSecs)
  remembered : ∀ t, now < t + (c.windowSecs + 1) →
    (during (c.windowSecs + 1) t (w.failures id)).length ≤ (w.protector.current id now).failureCount

theorem Tallied.guarded (h : w.Tallied) (hc : w.clock ≤ now) (hs : w.Slides (.failure id now))
    (hl : w.protector.lock id now = none) : w.Guarded w.protector.config id now := by
  have ⟨hf, hn⟩ := h.counts hc hs hl
  refine ⟨fun t ht hm => ?_, fun t ht => hn.during_le hf ht⟩
  have hr := h.locks hc hs hl ht hm
  exact ⟨hr, locked_of_refused hl (hr ▸ nofun) hs.left⟩

theorem run_tallied {ops : List LoginOp} (h : Run (fun w op w' => Slides w op ∧ Step w op w')
    (fresh c) ops w) : w.Tallied ∧ w.protector.config = c := by
  refine ⟨h.preserves_of (fun hI hs hst => hI.step hs hst) fresh_tallied, ?_⟩
  exact h.preserves (I := fun w => w.protector.config = c)
    (fun hI hst => hst.right.config.trans hI) rfl

end

end Watch

-- The admissions of each address, the latest first.
structure Traffic where
  limiter  : IpRateLimiter
  admitted : String → List Nat
  clock    : Nat

namespace Traffic

variable (w : Traffic)

def exec (ip : String) (now : Nat) : Traffic where
  limiter  := (w.limiter.checkRateLimit ip now).2
  admitted :=
    match (w.limiter.checkRateLimit ip now).1 with
    | .ok _    => Function.update w.admitted ip (now :: w.admitted ip)
    | .error _ => w.admitted
  clock    := now

-- A request of an address. The table is gone through in whatever order it happens to be.
def Step (w : Traffic) (hit : String × Nat) (w' : Traffic) : Prop :=
  w.clock ≤ hit.2 ∧ ∃ t : Table String Counter, t.entries.Perm w.limiter.counters.entries ∧
    w' = { w with limiter := { w.limiter with counters := t } }.exec hit.1 hit.2

-- No count of an address starts anew while the address still has an admission in the window.
def Slides (w : Traffic) (hit : String × Nat) : Prop :=
  (∀ c, w.limiter.counters.lookup hit.1 = some c → c.live w.limiter.windowSecs hit.2 = false) →
    ∀ t ∈ w.admitted hit.1, t + w.limiter.windowSecs ≤ hit.2

def fresh (maxRequests windowSecs : Nat) : Traffic :=
  ⟨.new maxRequests windowSecs, fun _ => [], 0⟩

structure Counted (w : Traffic) (ip : String) : Prop where
  paced  : Paced w.limiter.windowSecs w.limiter.maxRequests (w.admitted ip)
  counts : ∀ c, w.limiter.counters.lookup ip = some c →
    c.start ≤ w.clock ∧ Counter.Counts w.limiter.windowSecs c (w.admitted ip)

section

variable {w} {w' : Traffic} {ip ip' : String} {now : Nat} {hit : String × Nat}

theorem exec_other (h : ip' ≠ ip) : (w.exec ip now).admitted ip' = w.admitted ip' := by
  simp only [exec, IpRateLimiter.checkRateLimit_eq]
  cases (w.limiter.taken ip now).1
  case false => rfl
  case true => exact Function.update_of_ne h _ _

theorem exec_self : (w.exec ip now).admitted ip =
    if (w.limiter.taken ip now).1 then now :: w.admitted ip else w.admitted ip := by
  simp only [exec, IpRateLimiter.checkRateLimit_eq]
  cases (w.limiter.taken ip now).1
  case false => rfl
  case true => exact Function.update_self ..

theorem exec_limits : (w.exec ip now).limiter.maxRequests = w.limiter.maxRequests ∧
    (w.exec ip now).limiter.windowSecs = w.limiter.windowSecs := by
  simp only [exec, IpRateLimiter.checkRateLimit_eq, and_self]

theorem Counted.current (h : w.Counted ip) (hc : w.clock ≤ now) (hs : w.Slides (ip, now))
    (hw : 0 < w.limiter.windowSecs) : let c := w.limiter.current ip now
    c.live w.limiter.windowSecs now ∧ c.start ≤ now ∧
      Counter.Counts w.limiter.windowSecs c (w.admitted ip) := by
  cases IpRateLimiter.current_cases w.limiter ip now
  case inl hl =>
    have ⟨hb, hn⟩ := h.counts _ hl.left
    exact ⟨hl.right, hb.trans hc, hn⟩
  case inr hn =>
    rw [hn.left]
    exact ⟨by simpa [Counter.live] using hw, Nat.le_refl _, .fresh (hs hn.right)⟩

theorem Counted.exec (h : w.Counted ip') (hc : w.clock ≤ now) (hs : w.Slides (ip, now))
    (hw : 0 < w.limiter.windowSecs) : (w.exec ip now).Counted ip' := by
  by_cases hi : ip' = ip
  case neg =>
    refine ⟨?_, fun c hl => ?_⟩
    · rw [exec_other hi, exec_limits.left, exec_limits.right]
      exact h.paced
    · have hr := h.counts c (IpRateLimiter.of_lookup_checkRateLimit hi hl)
      rw [exec_other hi, exec_limits.right]
      exact ⟨hr.left.trans hc, hr.right⟩
  case pos =>
    subst hi
    have ⟨hl, hf, hn⟩ := h.current hc hs hw
    have ⟨ha, hr, hb, _⟩ := Counter.Counts.take (fun _ => hn) (fun h => (h hl).elim) hw hf h.paced
    refine ⟨?_, fun c hl => ?_⟩
    · rw [exec_self, exec_limits.left, exec_limits.right]
      split
      case isTrue ht => exact (ha ht).right
      case isFalse => exact h.paced
    · rw [Traffic.exec, IpRateLimiter.lookup_checkRateLimit] at hl
      cases hl
      rw [exec_self, exec_limits.right]
      split
      case isTrue ht => exact ⟨hb, (ha ht).left⟩
      case isFalse ht => exact ⟨hb, hr (Bool.eq_false_iff.mpr ht)⟩

theorem Counted.step (h : ∀ ip, w.Counted ip) (hs : w.Slides hit) (ht : w.Step hit w')
    (hw : 0 < w.limiter.windowSecs) : ∀ ip, w'.Counted ip := by
  have ⟨hc, t, hp, he⟩ := ht
  intro ip
  subst he
  have hl : ∀ ip, t.lookup ip = w.limiter.counters.lookup ip := fun _ => AList.perm_lookup hp
  refine Counted.exec ⟨(h ip).paced, fun c hcl => (h ip).counts c (hl ip ▸ hcl)⟩ hc ?_ hw
  exact fun ho => hs fun c hcl => ho c ((hl hit.1).trans hcl)

theorem Step.limits (h : w.Step hit w') : w'.limiter.maxRequests = w.limiter.maxRequests ∧
    w'.limiter.windowSecs = w.limiter.windowSecs := by
  have ⟨_, t, _, he⟩ := h
  subst he
  exact exec_limits

theorem run_counted {hits : List (String × Nat)} {m s : Nat}
    (h : Run (fun w hit w' => Slides w hit ∧ Step w hit w') (fresh m s) hits w) :
    (∀ ip, w.Counted ip) ∧ w.limiter.maxRequests = max m 1 ∧ w.limiter.windowSecs = max s 1 := by
  refine h.preserves_of (I := fun w => (∀ ip, w.Counted ip) ∧ w.limiter.maxRequests = max m 1 ∧
    w.limiter.windowSecs = max s 1) (fun hI hs hst => ?_)
    ⟨fun _ => ⟨Counter.paced_nil, nofun⟩, rfl, rfl⟩
  have hw := hst.limits
  rw [hw.left, hw.right]
  exact ⟨Counted.step hI.left hs hst (by omega), hI.right⟩

end

end Traffic

-- Failed logins and requests are limited in every window, as long as no count ends while it has
-- events that are less than a window ago. Locks are kept in any case.
theorem limited_while_counts_last (c : BruteForceConfig) :
    (∀ ops w, Run (fun w op w' => Watch.Slides w op ∧ Watch.Step w op w') (.fresh c) ops w →
      ∀ id now, w.clock ≤ now → w.Slides (.failure id now) → w.protector.lock id now = none →
        w.Guarded c id now) ∧
    (∀ (w w' : Watch) ops id now, w.protector.lock id now = none →
      (w.protector.recordFailure id now).1 ≠ .ok () →
      now + w.protector.config.lockoutSecs < u64Bound →
      Run Watch.Step (w.exec (.failure id now)) ops w' → (∀ op ∈ ops, op ≠ .success id) →
      (∀ op ∈ ops, ∀ now', op.clock? = some now' → now' < now + w.protector.config.lockoutSecs) →
      ∀ now' < now + w.protector.config.lockoutSecs,
        let left := now + w.protector.config.lockoutSecs - now'
        w'.protector.checkLockout id now' = .error ⟨left⟩ ∧
          (w'.protector.recordFailure id now').1 = .error ⟨left⟩) ∧
    (∀ (p : BruteForceProtector) id now now', now ≤ now' →
      (p.retained now).lock id now' = p.lock id now' ∧
      ∀ id' ≠ id, (p.recordFailure id now).2.lock id' now' = p.lock id' now') ∧
    ∀ m s hits w, Run (fun w hit w' => Traffic.Slides w hit ∧ Traffic.Step w hit w')
      (.fresh m s) hits w → ∀ ip, Paced (max s 1) (max m 1) (w.admitted ip) := by
  refine ⟨fun ops w h id now hc hs hl => ?_, fun w w' ops id now hl hr hb h hs hn now' hn' => ?_,
    fun p id now now' hn => ?_, fun m s hits w h ip => ?_⟩
  · have ⟨ht, he⟩ := Watch.run_tallied h
    exact he ▸ ht.guarded hc hs hl
  · have ⟨r, hp, hu⟩ := Watch.locked_of_refused hl hr hb
    exact Watch.Locked.refused ⟨r, Watch.run_holds h hp hu hs hn, hu⟩ hn'
  · exact ⟨BruteForceProtector.lock_retained hn,
      fun id' hi => BruteForceProtector.lock_recordFailure hi hn⟩
  · have ⟨hc, hm, hs⟩ := Traffic.run_counted h
    rw [←hm, ←hs]
    exact (hc ip).paced

-- A count that's running out of its window takes all its failures with it.
theorem count_ends_in_window :
    (∃ ops w, Run Watch.Step (.fresh {}) ops w ∧ w.clock ≤ 302 ∧ w.protector.lock "a" 302 = none ∧
      5 ≤ (during 301 298 (302 :: w.failures "a")).length ∧
      (w.protector.recordFailure "a" 302).1.isOk) ∧
    ∃ hits w, Run Traffic.Step (.fresh 2 60) hits w ∧
      2 < (during 60 59 (w.admitted "a")).length := by
  have hs : ∀ (w : Watch) now, w.clock ≤ now →
      w.Step (.failure "a" now) (w.exec (.failure "a" now)) := fun w now hc =>
    ⟨rfl, fun _ he => Option.some_inj.mp he ▸ hc⟩
  have ht : ∀ (w : Traffic) now, w.clock ≤ now → w.Step ("a", now) (w.exec "a" now) :=
    fun w now hc => ⟨hc, _, .refl _, rfl⟩
  constructor
  case left =>
    refine ⟨_, _, .cons (hs _ 0 ?_) <| .cons (hs _ 298 ?_) <| .cons (hs _ 299 ?_) <|
      .cons (hs _ 300 ?_) <| .cons (hs _ 301 ?_) .nil, ?_⟩
    all_goals decide +kernel
  case right =>
    refine ⟨_, _, .cons (ht _ 0 ?_) <| .cons (ht _ 59 ?_) <| .cons (ht _ 60 ?_) <|
      .cons (ht _ 61 ?_) .nil, ?_⟩
    all_goals decide +kernel

theorem limited_while_counts_last_sample :
    let w := (Watch.fresh ⟨2, 300, 900⟩).exec (.failure "a" 0)
    (w.exec (.failure "a" 10)).Locked "a" 910 ∧
      Paced 60 1 (((Traffic.fresh 1 60).exec "a" 0).admitted "a") := by
  have hg := limited_while_counts_last ⟨2, 300, 900⟩
  have h := hg.left [.failure "a" 0] _
    (.single ⟨⟨by decide, fun _ _ => nofun⟩, rfl, fun _ _ => Nat.zero_le _⟩) "a" 10 (Nat.zero_le _)
    (.of_active (by decide +kernel) (by decide +kernel)) (by decide +kernel)
  refine ⟨(h.locks 0 (by decide) (by decide +kernel)).right, ?_⟩
  exact hg.right.right.right 1 60 [("a", 0)] _
    (.single ⟨fun _ => nofun, Nat.le_refl _, _, .refl _, rfl⟩) "a"

end Gateway.Security
