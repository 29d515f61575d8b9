import Superkiro.Billing.Announcements
import Superkiro.Lib.Backlog
import Superkiro.Lib.Folds

-- The schedule that settlements which couldn't be completed are retried by.
namespace Billing

open Except Host

-- When an id is retried next, and the delay that led there.
structure PendingSettlementRecovery where
  retries : Table String (Nat × Nat) := ∅

-- Ids in the order in which they are retried: by when they are due, and then by name.
abbrev DueAt := Nat ×ₗ String ×ₗ Nat

def DueAt.mk (next : Nat) (id : String) (delay : Nat) : DueAt := toLex (next, toLex (id, delay))

namespace DueAt

variable (d : DueAt)

def next : Nat := (ofLex d).1

def id : String := (ofLex (ofLex d).2).1

def delay : Nat := (ofLex (ofLex d).2).2

end DueAt

namespace PendingSettlementRecovery

def maxAttempts : Nat := 64

def backoff (delay : Nat) : Nat := max 30 (min 300 (min (delay * 2) u64Max))

variable (s : PendingSettlementRecovery)

def retain (ids : List String) : PendingSettlementRecovery :=
  ⟨s.retries.retain fun id _ => id ∈ ids⟩

def entry (id : String) : DueAt :=
  let (next, delay) := (s.retries.lookup id).getD (0, 0)
  .mk next id delay

def due (ids : List String) (now : Nat) : List DueAt :=
  ids.filterMap fun id => if (s.entry id).next ≤ now then some (s.entry id) else none

-- An id is forgotten once it's settled, and waits for longer after each failure.
def noted (now : Nat) (d : DueAt) (result : Except ε α) : PendingSettlementRecovery :=
  match result with
  | .ok _    => ⟨s.retries.erase d.id⟩
  | .error _ => ⟨s.retries.insert d.id (satAddU64 now (backoff d.delay), backoff d.delay)⟩

-- What a tick has come to: the schedule, what the attempts had for a result, and what they left.
structure Progress (σ ε α : Type) where
  schedule : PendingSettlementRecovery
  results  : List (String × Except ε α)
  state    : σ

def attempt (retry : String → σ → Except ε α × σ) (now : Nat) (p : Progress σ ε α) (d : DueAt) :
    Progress σ ε α :=
  let (result, state) := retry d.id p.state
  ⟨p.schedule.noted now d result, p.results ++ [(d.id, result)], state⟩

def tick (retry : String → σ → Except ε α × σ) (ids : List String) (now : Nat) (state : σ) :
    Progress σ ε α :=
  let s := s.retain ids
  (Backlog.first maxAttempts (s.due ids now)).foldl (attempt retry now) ⟨s, [], state⟩

end PendingSettlementRecovery

namespace Engine

variable [F64 F] [Host F] (e : Engine F)

def probePersistence (io : Io) : Result Unit × Engine F :=
  if !e.persistent then (.ok (), e)
  else match validateSnapshot (e.exportSnapshot io) with
    | .error err => (.error (.persistence err.message), e)
    | .ok _      => e.syncToDisk io

-- A tick over the settlements that are pending, each of which may be saved or not.
def tickPending (s : PendingSettlementRecovery) (probe : Io) (io : String → Io) (now : Nat) :
    PendingSettlementRecovery.Progress (Engine F) BillingError (LedgerEntry F) :=
  let e := if e.persistenceReady then e else (e.probePersistence probe).2
  s.tick (fun id e => e.retryPendingSettlement (io id) id) e.tables.pendingSettlements.keys now e

end Engine

namespace PendingSettlementRecovery

variable {s : PendingSettlementRecovery} {ids : List String} {id j : String} {now delay : Nat}
  {d : DueAt} {result : Except ε α}

theorem next_le (h : d < d') : d.next ≤ d'.next := by
  cases Prod.Lex.lt_iff.mp h
  case inl h => exact Nat.le_of_lt h
  case inr h => exact Nat.le_of_eq h.left

theorem lt_of_next (h : d.next < d'.next) : d < d' := Prod.Lex.lt_iff.mpr (.inl h)

theorem lt_of_id (hn : d.next ≤ d'.next) (hi : d.id < d'.id) : d < d' := by
  cases Nat.lt_or_eq_of_le hn
  case inl hl => exact lt_of_next hl
  case inr he => exact Prod.Lex.lt_iff.mpr (.inr ⟨he, Prod.Lex.lt_iff.mpr (.inl hi)⟩)

theorem backoff_bounds : 30 ≤ backoff delay ∧ backoff delay ≤ 300 :=
  ⟨le_max_left _ _, max_le (by decide) (min_le_left _ _)⟩

theorem lt_satAddU64 (h : now < u64Max) : now < satAddU64 now (backoff delay) :=
  lt_min (Nat.lt_add_of_pos_right (Nat.lt_of_lt_of_le (by decide) backoff_bounds.left)) h

theorem entry_id : (s.entry id).id = id := rfl

theorem entry_inj (h : s.entry id = s.entry j) : id = j := congrArg DueAt.id h

theorem entry_of_none (h : s.retries.lookup id = none) : s.entry id = .mk 0 id 0 := by
  rw [entry, h]
  rfl

theorem entry_congr {s' : PendingSettlementRecovery}
    (h : s'.retries.lookup id = s.retries.lookup id) : s'.entry id = s.entry id := by
  rw [entry, entry, h]

theorem lookup_retain (h : id ∈ ids) : (s.retain ids).retries.lookup id = s.retries.lookup id := by
  apply Option.ext
  intro v
  simp [retain, AList.lookup_retain, h]

theorem mem_retain (h : id ∈ (s.retain ids).retries) : id ∈ ids := by
  have ⟨v, hv⟩ := AList.mem_iff_lookup.mp h
  simpa using (AList.lookup_retain _ |>.mp hv).right

theorem due_eq : s.due ids now = (ids.filter fun id => (s.entry id).next ≤ now).map s.entry := by
  induction ids
  case nil => rfl
  case cons id ids hi =>
    by_cases h : (s.entry id).next ≤ now
    case pos => simp [due, h] at hi ⊢; exact hi
    case neg => simp [due, h] at hi ⊢; exact hi

theorem mem_due : d ∈ s.due ids now ↔ ∃ id ∈ ids, s.entry id = d ∧ d.next ≤ now := by
  rw [due_eq]
  simp only [List.mem_map, List.mem_filter, decide_eq_true_eq]
  constructor
  case mp =>
    rintro ⟨id, ⟨hm, hn⟩, rfl⟩
    exact ⟨id, hm, rfl, hn⟩
  case mpr =>
    rintro ⟨id, hm, rfl, hn⟩
    exact ⟨id, ⟨hm, hn⟩, rfl⟩

theorem nodup_due (h : ids.Nodup) : (s.due ids now).Nodup := by
  rw [due_eq]
  exact (h.filter _).map fun _ _ => entry_inj

theorem nodup_first (h : ids.Nodup) :
    ((Backlog.first maxAttempts (s.due ids now)).map (·.id)).Nodup := by
  refine List.Nodup.map_on (fun d hd d' hd' he => ?_) (Backlog.nodup_first (nodup_due h))
  have ⟨_, _, hid, _⟩ := mem_due.mp (Backlog.mem_of_mem_first hd)
  have ⟨_, _, hid', _⟩ := mem_due.mp (Backlog.mem_of_mem_first hd')
  rw [← hid, ← hid', entry_id, entry_id] at he
  rw [← hid, ← hid', he]

-- The pending ids that come before another one.
def ahead (s : PendingSettlementRecovery) (ids : List String) (id : String) : List String :=
  ids.filter fun j => s.entry j < s.entry id

theorem length_ahead (h : (s.entry id).next ≤ now) :
    (Backlog.ahead (s.entry id) (s.due ids now)).length = (s.ahead ids id).length := by
  rw [Backlog.ahead, due_eq, List.filter_map, List.length_map, List.filter_filter, ahead]
  congr 1
  apply List.filter_congr
  intro j _
  rw [Function.comp_apply, Bool.and_eq_left_iff_imp]
  intro hj
  exact decide_eq_true ((next_le (of_decide_eq_true hj)).trans h)

-- What's kept of an id after an attempt.
def kept (now : Nat) (d : DueAt) : Except ε α → Option (Nat × Nat)
  | .ok _    => none
  | .error _ => some (satAddU64 now (backoff d.delay), backoff d.delay)

theorem lookup_noted : (s.noted now d result).retries.lookup id =
    if id = d.id then kept now d result else s.retries.lookup id := by
  cases result
  case ok =>
    split
    case isTrue h => rw [h]; exact AList.lookup_erase _ _
    case isFalse h => exact AList.lookup_erase_ne h
  case error =>
    split
    case isTrue h => rw [h]; exact AList.lookup_insert _
    case isFalse h => exact AList.lookup_insert_ne h

section

variable {retry : String → σ → Except ε α × σ} {state : σ}

-- What's known after some attempts.
structure Attempted (s : PendingSettlementRecovery) (retry : String → σ → Except ε α × σ) (now : Nat)
    (ds : List DueAt) (p : Progress σ ε α) : Prop where
  ids    : p.results.map (·.1) = ds.map (·.id)
  others : ∀ id ∉ ds.map (·.id), p.schedule.retries.lookup id = s.retries.lookup id
  kept   : ∀ d ∈ ds, ∃ state, (d.id, (retry d.id state).1) ∈ p.results ∧
    p.schedule.retries.lookup d.id = kept now d (retry d.id state).1

theorem Attempted.attempt {ds : List DueAt} {p : Progress σ ε α} (h : s.Attempted retry now ds p)
    (hn : d.id ∉ ds.map (·.id)) : s.Attempted retry now (ds ++ [d]) (attempt retry now p d) where
  ids       := by simp [PendingSettlementRecovery.attempt, h.ids]
  others k hk := by
    simp only [List.map_append, List.map_cons, List.map_nil, List.mem_append, List.mem_singleton,
      not_or] at hk
    rw [PendingSettlementRecovery.attempt, lookup_noted, if_neg hk.right, h.others k hk.left]
  kept d' hd := by
    cases List.mem_append.mp hd
    case inl hd =>
      have ⟨state, hr, hl⟩ := h.kept d' hd
      have hne : d'.id ≠ d.id := fun he => hn (he ▸ List.mem_map_of_mem hd)
      refine ⟨state, List.mem_append_left _ hr, ?_⟩
      rw [PendingSettlementRecovery.attempt, lookup_noted, if_neg hne, hl]
    case inr hd =>
      cases List.mem_singleton.mp hd
      refine ⟨_, List.mem_append_right _ (List.mem_singleton.mpr rfl), ?_⟩
      rw [PendingSettlementRecovery.attempt, lookup_noted, if_pos rfl]

theorem foldl_attempted {ds : List DueAt} (hn : (ds.map (·.id)).Nodup) :
    s.Attempted retry now ds (ds.foldl (attempt retry now) ⟨s, [], state⟩) := by
  let P (seen : List DueAt) (p : Progress σ ε α) : Prop :=
    (seen.map (·.id)).Nodup → s.Attempted retry now seen p
  refine List.foldl_of_step (P := P) (fun seen p d _ h hn => ?_) (fun _ => ⟨rfl, fun _ _ => rfl, nofun⟩) hn
  rw [List.map_append, List.nodup_append] at hn
  refine (h hn.left).attempt fun hd => ?_
  exact hn.right.right d.id hd d.id (by simp) rfl

-- A tick attempts the first of the ids that are due.
theorem tick_attempted (h : ids.Nodup) :
    (s.retain ids).Attempted retry now (Backlog.first maxAttempts ((s.retain ids).due ids now))
      (s.tick retry ids now state) := by
  exact foldl_attempted (nodup_first h)

end

theorem due_retain : (s.retain ids).due ids now = s.due ids now := by
  apply List.filterMap_congr
  intro id h
  rw [entry_congr (lookup_retain h)]

end PendingSettlementRecovery

open PendingSettlementRecovery

-- A call of `tick`, with what's pending then and what becomes of each retry.
structure Tick (σ ε α : Type) where
  ids   : List String
  nodup : ids.Nodup
  now   : Nat
  retry : String → σ → Except ε α × σ
  state : σ

-- A tick of the engine.
def Tick.ofEngine [F64 F] [Host F] (e : Engine F) (io : String → Io) (now : Nat) :
    Tick (Engine F) BillingError (LedgerEntry F) where
  ids         := e.tables.pendingSettlements.keys
  nodup       := e.tables.pendingSettlements.keys_nodup
  now         := now
  retry id e  := e.retryPendingSettlement (io id) id
  state       := e

namespace Tick

variable (t : Tick σ ε α) (s : PendingSettlementRecovery) (id : String)

def run : Progress σ ε α := s.tick t.retry t.ids t.now t.state

def next : PendingSettlementRecovery := (t.run s).schedule

def attempted : List String := (t.run s).results.map (·.1)

def Attempts : Prop := id ∈ t.attempted s

def Fails : Prop := ∃ err, (id, .error err) ∈ (t.run s).results

def Settles : Prop := ∃ a, (id, .ok a) ∈ (t.run s).results

-- An id that's left for a later tick because of others that are due.
structure Overtakes : Prop where
  pending : id ∈ t.ids
  due     : (s.entry id).next ≤ t.now
  passed  : ¬t.Attempts s id

variable {t s id} {j : String}

theorem ofEngine_run [F64 F] [Host F] (e : Engine F) (probe : Io) (io : String → Io) (now : Nat) :
    e.tickPending s probe io now =
      (ofEngine (if e.persistenceReady then e else (e.probePersistence probe).2) io now).run s :=
  rfl

theorem run_attempted : (s.retain t.ids).Attempted t.retry t.now
    (Backlog.first maxAttempts (s.due t.ids t.now)) (t.run s) := by
  have h : (s.retain t.ids).Attempted t.retry t.now
      (Backlog.first maxAttempts ((s.retain t.ids).due t.ids t.now))
      (s.tick t.retry t.ids t.now t.state) := tick_attempted t.nodup
  rwa [due_retain] at h

theorem attempts_iff :
    t.Attempts s id ↔ s.entry id ∈ Backlog.first maxAttempts (s.due t.ids t.now) := by
  rw [Attempts, attempted, run_attempted.ids, List.mem_map]
  constructor
  case mp =>
    rintro ⟨d, hd, rfl⟩
    have ⟨_, _, he, _⟩ := mem_due.mp (Backlog.mem_of_mem_first hd)
    rwa [← he, entry_id, he]
  case mpr => exact fun h => ⟨_, h, rfl⟩

theorem Attempts.due (h : t.Attempts s id) : id ∈ t.ids ∧ (s.entry id).next ≤ t.now := by
  have ⟨_, hm, he, hn⟩ := mem_due.mp (Backlog.mem_of_mem_first (attempts_iff.mp h))
  exact ⟨entry_inj he ▸ hm, hn⟩

-- An id that's due is attempted if and only if few enough are ahead of it.
theorem attempts_iff_ahead (hm : id ∈ t.ids) (hd : (s.entry id).next ≤ t.now) :
    t.Attempts s id ↔ (s.ahead t.ids id).length < maxAttempts := by
  rw [attempts_iff, Backlog.mem_first_iff (nodup_due t.nodup) (mem_due.mpr ⟨id, hm, rfl, hd⟩),
    length_ahead hd]

-- The two ways an attempt ends.
theorem Attempts.ends (h : t.Attempts s id) :
    (∃ state err, (t.retry id state).1 = .error err ∧ t.Fails s id ∧ (t.next s).retries.lookup id =
      some (satAddU64 t.now (backoff (s.entry id).delay), backoff (s.entry id).delay)) ∨
    ∃ state a, (t.retry id state).1 = .ok a ∧ t.Settles s id ∧
      (t.next s).retries.lookup id = none := by
  have ⟨state, hr, hl⟩ := run_attempted.kept _ (attempts_iff.mp h)
  rw [entry_id] at hr hl
  cases he : (t.retry id state).1
  case error err =>
    rw [he] at hr hl
    exact .inl ⟨state, err, he, ⟨err, hr⟩, hl⟩
  case ok a =>
    rw [he] at hr hl
    exact .inr ⟨state, a, he, ⟨a, hr⟩, hl⟩

theorem nodup_attempted : (t.attempted s).Nodup := by
  rw [attempted, run_attempted.ids]
  exact nodup_first t.nodup

theorem not_fails_settles (hf : t.Fails s id) : ¬t.Settles s id := by
  rintro ⟨a, ha⟩
  have ⟨err, he⟩ := hf
  have := List.inj_on_of_nodup_map nodup_attempted he ha rfl
  cases this

theorem Fails.lookup (h : t.Fails s id) : (t.next s).retries.lookup id =
    some (satAddU64 t.now (backoff (s.entry id).delay), backoff (s.entry id).delay) := by
  have ⟨_, hm⟩ := h
  cases Attempts.ends (List.mem_map_of_mem hm)
  case inl hf =>
    have ⟨_, _, _, _, hl⟩ := hf
    exact hl
  case inr hs =>
    have ⟨_, _, _, hs, _⟩ := hs
    exact absurd hs (not_fails_settles h)

-- As many ids as possible are attempted before one that's passed over, and all of them are ahead of it.
theorem Overtakes.behind (h : t.Overtakes s id) :
    (t.attempted s).length = maxAttempts ∧ ∀ j ∈ t.attempted s, s.entry j < s.entry id := by
  have hn : s.entry id ∉ Backlog.first maxAttempts (s.due t.ids t.now) :=
    fun ha => h.passed (attempts_iff.mpr ha)
  have ⟨hlen, hlt⟩ := Backlog.first_of_not_mem (nodup_due t.nodup)
    (mem_due.mpr ⟨id, h.pending, rfl, h.due⟩) hn
  refine ⟨?_, fun j hj => hlt _ (attempts_iff.mp hj)⟩
  rw [attempted, run_attempted.ids, List.length_map, hlen]

theorem lookup_next (h : ¬t.Attempts s id) :
    (t.next s).retries.lookup id = (s.retain t.ids).retries.lookup id := by
  apply run_attempted.others
  rw [← run_attempted.ids]
  exact h

theorem lookup_of_not_attempts (hm : id ∈ t.ids) (h : ¬t.Attempts s id) :
    (t.next s).retries.lookup id = s.retries.lookup id :=
  (lookup_next h).trans (lookup_retain hm)

-- The schedule only knows ids that were pending.
theorem mem_of_retries (h : id ∈ (t.next s).retries) : id ∈ t.ids := by
  by_cases ha : t.Attempts s id
  case pos => exact ha.due.left
  case neg =>
    rw [AList.mem_iff_lookup, lookup_next ha] at h
    exact mem_retain (AList.mem_iff_lookup.mpr h)

end Tick

-- Ticks one after another. What's pending changes between them in any way.
structure Ticking (σ ε α : Type) where
  start : PendingSettlementRecovery := {}
  ticks : Nat → Tick σ ε α
  clock : Monotone fun n => (ticks n).now

namespace Ticking

variable (w : Ticking σ ε α) (n : Nat) (id : String)

-- The schedule before a tick.
def before : Nat → PendingSettlementRecovery
  | 0     => w.start
  | n + 1 => (w.ticks n).next (before n)

def ids : List String := (w.ticks n).ids

def now : Nat := (w.ticks n).now

def entry : DueAt := (w.before n).entry id

def attempted : List String := (w.ticks n).attempted (w.before n)

def Attempts : Prop := id ∈ w.attempted n

def Fails : Prop := (w.ticks n).Fails (w.before n) id

def Settles : Prop := (w.ticks n).Settles (w.before n) id

def Overtakes : Prop := (w.ticks n).Overtakes (w.before n) id

-- How many pending ids come before one.
def ahead : Nat := ((w.before n).ahead (w.ids n) id).length

open Classical in
-- How many ids are new in the next tick, or again pending after having been settled.
noncomputable def arrivals : Nat :=
  ((w.ids (n + 1)).filter fun j => j ∉ w.ids n ∨ w.Settles n j).length

-- An id waits from one tick to another if it's pending without being attempted.
structure Waits (n m : Nat) (id : String) : Prop where
  le      : n ≤ m
  pending : ∀ k, n ≤ k → k ≤ m → id ∈ w.ids k
  passed  : ∀ k, n ≤ k → k < m → ¬w.Attempts k id

variable {w n id} {m : Nat} {a f j : String}

theorem Waits.entry (h : w.Waits n m id) : w.entry m id = w.entry n id := by
  have ⟨hle, hp, hn⟩ := h
  induction m, hle using Nat.le_induction
  case base => rfl
  case succ m hle hi =>
    have hk := Tick.lookup_of_not_attempts (hp m hle (Nat.le_succ m)) (hn m hle (Nat.lt_succ_self m))
    refine (entry_congr hk).trans (hi ⟨hle, fun k hk hm => ?_, fun k hk hm => ?_⟩ ?_ ?_)
    · exact hp k hk (Nat.le_succ_of_le hm)
    · exact hn k hk (Nat.lt_succ_of_lt hm)
    · exact fun k hk hm => hp k hk (Nat.le_succ_of_le hm)
    · exact fun k hk hm => hn k hk (Nat.lt_succ_of_lt hm)

theorem attempts_iff (hm : id ∈ w.ids n) (hd : (w.entry n id).next ≤ w.now n) :
    w.Attempts n id ↔ w.ahead n id < maxAttempts :=
  Tick.attempts_iff_ahead hm hd

-- An id that comes before one that's attempted is attempted as well.
theorem Attempts.of_lt (h : w.Attempts n f) (ha : a ∈ w.ids n) (hl : w.entry n a < w.entry n f) :
    w.Attempts n a := by
  refine Tick.attempts_iff.mpr (Backlog.first_of_lt (nodup_due (w.ticks n).nodup)
    (Tick.attempts_iff.mp h) (mem_due.mpr ⟨a, ha, rfl, ?_⟩) hl)
  exact (next_le hl).trans (Tick.Attempts.due h).right

theorem Fails.entry (h : w.Fails n f) :
    w.entry (n + 1) f = .mk (satAddU64 (w.now n) (backoff (w.entry n f).delay)) f
      (backoff (w.entry n f).delay) := by
  simp only [Ticking.entry, PendingSettlementRecovery.entry, before, Tick.Fails.lookup h,
    Option.getD_some]
  rfl

-- An id that's been overtaken comes before those that failed then.
theorem Overtakes.lt (ho : w.Overtakes n a) (hf : w.Fails n f) (hb : w.now n < u64Max) :
    w.entry n a < w.entry (n + 1) f := by
  apply lt_of_next
  rw [hf.entry]
  exact Nat.lt_of_le_of_lt ho.due (lt_satAddU64 hb)

theorem exists_first_attempt (hn : n < m) (h : w.Attempts m f) :
    ∃ k, n < k ∧ k ≤ m ∧ w.Attempts k f ∧ ∀ j, n < j → j < k → ¬w.Attempts j f := by
  classical
  have he : ∃ k, n < k ∧ w.Attempts k f := ⟨m, hn, h⟩
  have hk := Nat.find_spec he
  exact ⟨Nat.find he, hk.left, Nat.find_min' he ⟨hn, h⟩, hk.right,
    fun j hj hl ha => Nat.find_min he hl ⟨hj, ha⟩⟩

theorem Overtakes.attempted (ho : w.Overtakes n a) (hf : w.Fails n f) (hb : w.now n < u64Max)
    (hn : n < m) (hp : ∀ k, n < k → k ≤ m → a ∈ w.ids k ∧ f ∈ w.ids k) (h : w.Attempts m f) :
    ∃ k, n < k ∧ k ≤ m ∧ w.Attempts k a := by
  have ⟨k, hk, hm, hf', hfirst⟩ := exists_first_attempt hn h
  by_contra hno
  have hno : ∀ j, n < j → j ≤ m → ¬w.Attempts j a := fun j hj hm ha => hno ⟨j, hj, hm, ha⟩
  have hwa : w.Waits n k a := by
    refine ⟨Nat.le_of_lt hk, fun j hj hl => ?_, fun j hj hl => ?_⟩
    · cases Nat.eq_or_lt_of_le hj
      case inl he => exact he ▸ ho.pending
      case inr hj => exact (hp j hj (hl.trans hm)).left
    · cases Nat.eq_or_lt_of_le hj
      case inl he => exact he ▸ ho.passed
      case inr hj => exact hno j hj ((Nat.le_of_lt hl).trans hm)
  have hwf : w.Waits (n + 1) k f :=
    ⟨hk, fun j hj hl => (hp j hj (hl.trans hm)).right, fun j hj hl => hfirst j hj hl⟩
  refine hno k hk hm (hf'.of_lt (hp k hk hm).left ?_)
  rw [hwa.entry, hwf.entry]
  exact ho.lt hf hb

-- What comes before an id that's overtaken, next time, came before it already and wasn't attempted, or is
-- new.
theorem Overtakes.ahead_next (h : w.Overtakes n id) (hb : w.now n < u64Max)
    (hl : w.entry (n + 1) j < w.entry (n + 1) id) :
    (j ∈ w.ids n ∧ w.entry n j < w.entry n id ∧ ¬w.Attempts n j) ∨ j ∉ w.ids n ∨ w.Settles n j := by
  have he : w.entry (n + 1) id = w.entry n id :=
    entry_congr (Tick.lookup_of_not_attempts h.pending h.passed)
  by_cases hm : j ∈ w.ids n
  case neg => exact .inr (.inl hm)
  case pos =>
    by_cases ha : w.Attempts n j
    case neg =>
      have hk : w.entry (n + 1) j = w.entry n j := entry_congr (Tick.lookup_of_not_attempts hm ha)
      rw [hk, he] at hl
      exact .inl ⟨hm, hl, ha⟩
    case pos =>
      cases Tick.Attempts.ends ha
      case inr hs =>
        have ⟨_, _, _, hs, _⟩ := hs
        exact .inr (.inr hs)
      case inl hf =>
        have ⟨_, _, _, hf, _⟩ := hf
        exact absurd hl (lt_asymm (he ▸ h.lt hf hb))

theorem Overtakes.ahead_le (h : w.Overtakes n id) (hb : w.now n < u64Max) :
    maxAttempts + w.ahead (n + 1) id ≤ w.ahead n id + w.arrivals n := by
  classical
  have ⟨hlen, hlt⟩ := h.behind
  let rest := ((w.before n).ahead (w.ids n) id).filter (· ∉ (w.ticks n).attempted (w.before n))
  have hsplit : ((w.ticks n).attempted (w.before n) ++ rest).Subperm
      ((w.before n).ahead (w.ids n) id) := by
    refine List.subperm_of_subset ?_ fun j hj => ?_
    · refine Tick.nodup_attempted.append (((w.ticks n).nodup.filter _).filter _) ?_
      intro j hj hr
      simpa [hj] using (List.mem_filter.mp hr).right
    · cases List.mem_append.mp hj
      case inl hj =>
        exact List.mem_filter.mpr ⟨(Tick.Attempts.due hj).left, decide_eq_true (hlt j hj)⟩
      case inr hj => exact List.mem_of_mem_filter hj
  have hnext : ((w.before (n + 1)).ahead (w.ids (n + 1)) id).Subperm
      (rest ++ (w.ids (n + 1)).filter fun j => j ∉ w.ids n ∨ w.Settles n j) := by
    refine List.subperm_of_subset ((w.ticks (n + 1)).nodup.filter _) fun j hj => ?_
    have ⟨hj, hl⟩ := List.mem_filter.mp hj
    cases h.ahead_next hb (of_decide_eq_true hl)
    case inl hold =>
      have ⟨hm, hl, ha⟩ := hold
      refine List.mem_append_left _ (List.mem_filter.mpr ⟨?_, decide_eq_true ha⟩)
      exact List.mem_filter.mpr ⟨hm, decide_eq_true hl⟩
    case inr hnew =>
      exact List.mem_append_right _ (List.mem_filter.mpr ⟨hj, decide_eq_true hnew⟩)
  have hs := hsplit.length_le
  have hn := hnext.length_le
  rw [List.length_append, hlen] at hs
  rw [List.length_append] at hn
  rw [ahead, ahead, arrivals]
  omega

-- An id that's due waits for at most one tick for each sixty-four ids that were ahead of it or are new.
theorem Waits.bounded (h : w.Waits n m id) (hd : (w.entry n id).next ≤ w.now n)
    (hb : ∀ k < m, w.now k < u64Max) :
    maxAttempts * (m - n) + w.ahead m id ≤ w.ahead n id + ∑ k ∈ Finset.Ico n m, w.arrivals k := by
  have ⟨hle, hp, hn⟩ := h
  induction m, hle using Nat.le_induction
  case base => simp
  case succ m hle hi =>
    have hw : w.Waits n m id := by
      refine ⟨hle, fun k hk hm => ?_, fun k hk hm => ?_⟩
      · exact hp k hk (Nat.le_succ_of_le hm)
      · exact hn k hk (Nat.lt_succ_of_lt hm)
    have hm := hi hw (fun k hk => hb k (Nat.lt_succ_of_lt hk)) hw.pending hw.passed
    have ho : w.Overtakes m id := by
      refine ⟨hp m hle (Nat.le_succ m), ?_, hn m hle (Nat.lt_succ_self m)⟩
      exact (congrArg DueAt.next hw.entry).trans_le (hd.trans (w.clock hle))
    have hstep := ho.ahead_le (hb m (Nat.lt_succ_self m))
    rw [Finset.sum_Ico_succ_top hle, Nat.succ_sub hle, Nat.mul_succ]
    omega

-- Retries are fair. A settlement that fails is due again after thirty seconds to five minutes, and is then
-- retried unless sixty-four others come before it.
theorem retried_fairly (w : Ticking σ ε α) (n : Nat) :
    (w.attempted n).length ≤ maxAttempts ∧
    (∀ id, w.Attempts n id → id ∈ w.ids n ∧ (w.entry n id).next ≤ w.now n) ∧
    (w.now n < u64Max → ∀ a f m, w.Overtakes n a → w.Fails n f → n < m →
      (∀ k, n < k → k ≤ m → a ∈ w.ids k ∧ f ∈ w.ids k) → w.Attempts m f →
        ∃ k, n < k ∧ k ≤ m ∧ w.Attempts k a) ∧
    (∀ f, w.Fails n f → ∃ delay, 30 ≤ delay ∧ delay ≤ 300 ∧ ∀ m, w.Waits (n + 1) m f →
      (w.Attempts m f ↔ satAddU64 (w.now n) delay ≤ w.now m ∧ w.ahead m f < maxAttempts)) ∧
    (∀ id m, w.Waits n m id → (w.entry n id).next ≤ w.now n → (∀ k < m, w.now k < u64Max) →
      maxAttempts * (m - n) + w.ahead m id ≤
        w.ahead n id + ∑ k ∈ Finset.Ico n m, w.arrivals k) ∧
    ∀ id ∈ (w.before (n + 1)).retries, id ∈ w.ids n := by
  refine ⟨?_, fun id h => Tick.Attempts.due h, fun hb a f m ho hf hn hp h => ho.attempted hf hb hn hp h,
    fun f hf => ?_, fun id m h hd hb => h.bounded hd hb, fun id h => Tick.mem_of_retries h⟩
  · rw [attempted, Tick.attempted, Tick.run_attempted.ids, List.length_map]
    exact Backlog.length_first_le
  · refine ⟨backoff (w.entry n f).delay, backoff_bounds.left, backoff_bounds.right, fun m hw => ?_⟩
    have he : (w.entry m f).next = satAddU64 (w.now n) (backoff (w.entry n f).delay) := by
      rw [hw.entry, hf.entry]
      rfl
    rw [← he]
    constructor
    case mp =>
      intro h
      have hd := (Tick.Attempts.due h).right
      exact ⟨hd, (attempts_iff (hw.pending m hw.le (Nat.le_refl m)) hd).mp h⟩
    case mpr =>
      rintro ⟨hd, hl⟩
      exact (attempts_iff (hw.pending m hw.le (Nat.le_refl m)) hd).mpr hl

end Ticking

section Crowds

variable {n m : Nat} {id j : String}

-- Sixty-four ids that come before the one of the last settlement, different ones for each number.
def crowd (n : Nat) : List String :=
  (List.range 64).map fun i => String.ofList (List.replicate (64 * n + i) 'a')

theorem crowd_lt (h : j ∈ crowd n) : j < "b" := by
  have ⟨i, _, hi⟩ := List.mem_map.mp h
  rw [← hi, String.lt_iff_toList_lt, String.toList_ofList]
  cases 64 * n + i
  case zero => decide
  case succ k => exact List.Lex.rel (by decide)

theorem crowd_nodup : ("b" :: crowd n).Nodup := by
  refine List.nodup_cons.mpr ⟨fun h => lt_irrefl "b" (crowd_lt h), ?_⟩
  refine List.Nodup.map (fun i j h => ?_) List.nodup_range
  have hl := congrArg (List.length ∘ String.toList) h
  simpa using hl

theorem length_crowd (h : j ∈ crowd n) : j.toList.length / 64 = n := by
  have ⟨i, hi, hj⟩ := List.mem_map.mp h
  rw [← hj, String.toList_ofList, List.length_replicate, Nat.mul_add_div (by decide),
    Nat.div_eq_of_lt (List.mem_range.mp hi), Nat.add_zero]

-- The last settlement is alone at first, and then comes with a crowd. No retry succeeds.
def overrun (crowds clock : Nat → Nat) (hc : Monotone clock) : Ticking Unit Unit Unit where
  ticks n := {
    ids       := "b" :: if n = 0 then [] else crowd (crowds n)
    nodup     := by
      split
      case isTrue => exact List.nodup_singleton _
      case isFalse => exact crowd_nodup
    now       := clock n
    retry _ _ := (.error (), ())
    state     := () }
  clock := hc

-- The last settlement isn't attempted while a crowd is before it.
theorem crowded {w : Ticking Unit Unit Unit} (hi : w.ids n = "b" :: crowd m)
    (h : ∀ j ∈ crowd m, w.entry n j < w.entry n "b") : ¬w.Attempts n "b" := by
  intro ha
  have hd := Tick.Attempts.due ha
  have hl := (Ticking.attempts_iff hd.left hd.right).mp ha
  have hc : (crowd m).length ≤ w.ahead n "b" := by
    refine (List.subperm_of_subset (List.nodup_cons.mp crowd_nodup).right fun j hj => ?_).length_le
    refine List.mem_filter.mpr ⟨?_, decide_eq_true (h j hj)⟩
    rw [hi]
    exact List.mem_cons_of_mem _ hj
  rw [crowd, List.length_map, List.length_range] at hc
  exact absurd hl (Nat.not_lt_of_le hc)

-- All of a crowd is attempted if it's before the last settlement.
theorem crowd_attempted {w : Ticking Unit Unit Unit} (hi : w.ids n = "b" :: crowd m) (hj : j ∈ crowd m)
    (hd : (w.entry n j).next ≤ w.now n) (hb : w.entry n j < w.entry n "b") : w.Attempts n j := by
  refine (Ticking.attempts_iff (hi ▸ List.mem_cons_of_mem _ hj) hd).mpr ?_
  have hs : ((w.before n).ahead (w.ids n) j).Subperm ((crowd m).erase j) := by
    refine List.subperm_of_subset ((w.ticks n).nodup.filter _) fun k hk => ?_
    have ⟨hk, hl⟩ := List.mem_filter.mp hk
    have hl : w.entry n k < w.entry n j := of_decide_eq_true hl
    rw [hi] at hk
    have hne : k ≠ j := fun he => lt_irrefl _ (he ▸ hl)
    cases List.mem_cons.mp hk
    case inl he => exact absurd hb (lt_asymm (he ▸ hl))
    case inr hk => exact (List.mem_erase_of_ne hne).mpr hk
  have hl := hs.length_le
  rw [List.length_erase_of_mem hj, crowd, List.length_map, List.length_range] at hl
  exact Nat.lt_of_le_of_lt hl (by decide)

variable {crowds clock : Nat → Nat} {hc : Monotone clock}

theorem overrun_fails (h : (overrun crowds clock hc).Attempts n j) :
    (overrun crowds clock hc).Fails n j := by
  cases Tick.Attempts.ends h
  case inl h =>
    have ⟨_, _, _, hf, _⟩ := h
    exact hf
  case inr h =>
    have ⟨_, _, he, _⟩ := h
    cases he

theorem overrun_first : (overrun crowds clock hc).Fails 0 "b" := by
  refine overrun_fails ((Ticking.attempts_iff List.mem_cons_self (Nat.zero_le _)).mpr ?_)
  have hl : 1 < maxAttempts := by decide
  exact Nat.lt_of_le_of_lt (List.length_filter_le _ _) hl

-- What wasn't pending in the tick before isn't known.
theorem entry_of_new {w : Ticking Unit Unit Unit} (h : j ∉ w.ids n) : w.entry (n + 1) j = .mk 0 j 0 := by
  refine entry_of_none (Option.eq_none_iff_forall_ne_some.mpr fun v hv => h ?_)
  exact Tick.mem_of_retries (AList.mem_iff_lookup.mpr ⟨v, hv⟩)

-- Two crowds take turns.
def taking : Ticking Unit Unit Unit := overrun (· % 2) (300 * ·) fun _ _ => Nat.mul_le_mul_left 300

theorem taking_new (h : j ∈ crowd ((n + 1) % 2)) : taking.entry (n + 1) j = .mk 0 j 0 := by
  apply entry_of_new
  intro hm
  cases List.mem_cons.mp hm
  case inl hb => exact absurd (crowd_lt h) (hb ▸ lt_irrefl "b")
  case inr hm =>
    split at hm
    case isTrue => cases hm
    case isFalse =>
      have hn : (n + 1) % 2 = n % 2 := (length_crowd h).symm.trans (length_crowd hm)
      omega

theorem taking_lt (hb : taking.entry (n + 1) "b" = .mk 30 "b" 30) (hj : j ∈ crowd ((n + 1) % 2)) :
    taking.entry (n + 1) j < taking.entry (n + 1) "b" := by
  rw [hb, taking_new hj]
  exact lt_of_next (Nat.zero_lt_succ 29)

theorem taking_entry : taking.entry (n + 1) "b" = .mk 30 "b" 30 := by
  induction n
  case zero => exact overrun_first.entry
  case succ n hi =>
    refine (entry_congr (Tick.lookup_of_not_attempts List.mem_cons_self ?_)).trans hi
    exact crowded (m := (n + 1) % 2) rfl fun _ hj => taking_lt hi hj

theorem taking_passes : ¬taking.Attempts (n + 1) "b" :=
  crowded (m := (n + 1) % 2) rfl fun _ hj => taking_lt taking_entry hj

theorem taking_attempts (hj : j ∈ crowd ((n + 1) % 2)) : taking.Attempts (n + 1) j := by
  refine crowd_attempted (m := (n + 1) % 2) rfl hj ?_ (taking_lt taking_entry hj)
  rw [taking_new hj]
  exact Nat.zero_le _

-- The clock has come to its end.
def ended : Ticking Unit Unit Unit := overrun (fun _ => 0) (fun _ => u64Max) fun _ _ _ => le_refl _

theorem ended_next : (ended.entry n j).next ≤ u64Max := by
  induction n
  case zero => exact Nat.zero_le _
  case succ n hi =>
    by_cases ha : ended.Attempts n j
    case pos =>
      have he := Ticking.Fails.entry (w := ended) (overrun_fails ha)
      rw [he]
      exact min_le_right _ _
    case neg =>
      by_cases hm : j ∈ ended.ids n
      case pos => exact (congrArg DueAt.next (entry_congr (Tick.lookup_of_not_attempts hm ha))).trans_le hi
      case neg =>
        rw [entry_of_new hm]
        exact Nat.zero_le _

theorem ended_lt (hb : ended.entry (n + 1) "b" = .mk u64Max "b" 30) (hj : j ∈ crowd 0) :
    ended.entry (n + 1) j < ended.entry (n + 1) "b" := by
  refine lt_of_id ?_ (crowd_lt hj)
  rw [hb]
  exact ended_next

theorem ended_entry : ended.entry (n + 1) "b" = .mk u64Max "b" 30 := by
  induction n
  case zero => exact overrun_first.entry
  case succ n hi =>
    refine (entry_congr (Tick.lookup_of_not_attempts List.mem_cons_self ?_)).trans hi
    exact crowded (m := 0) rfl fun _ hj => ended_lt hi hj

theorem ended_passes : ¬ended.Attempts (n + 1) "b" :=
  crowded (m := 0) rfl fun _ hj => ended_lt ended_entry hj

theorem ended_attempts (hj : j ∈ crowd 0) : ended.Attempts (n + 1) j :=
  crowd_attempted (m := 0) rfl hj ended_next (ended_lt ended_entry hj)

theorem empty_mem_crowd : "" ∈ crowd 0 := List.mem_map.mpr ⟨0, List.mem_range.mpr (by decide), rfl⟩

-- A settlement isn't retried for as long as there are always sixty-four others that are new. Those that
-- it waited for are attempted again before it if they weren't pending for a tick, or if the clock ends.
theorem retries_starve :
    (taking.Fails 0 "b" ∧ ∀ n, "b" ∈ taking.ids n ∧ taking.now n = 300 * n ∧
      ¬taking.Attempts (n + 1) "b") ∧
    (taking.Overtakes 2 "b" ∧ taking.Fails 2 "" ∧ taking.Attempts 4 "") ∧
    (∀ n, "b" ∈ ended.ids n ∧ ¬ended.Attempts (n + 1) "b") ∧
      ended.Overtakes 1 "b" ∧ ended.Fails 1 "" ∧ ended.Attempts 2 "" := by
  refine ⟨⟨overrun_first, fun n => ⟨List.mem_cons_self, rfl, taking_passes⟩⟩,
    ⟨⟨List.mem_cons_self, ?_, taking_passes⟩, overrun_fails (taking_attempts empty_mem_crowd),
      taking_attempts empty_mem_crowd⟩,
    fun n => ⟨List.mem_cons_self, ended_passes⟩, ⟨List.mem_cons_self, ended_next, ended_passes⟩,
    overrun_fails (ended_attempts empty_mem_crowd), ended_attempts empty_mem_crowd⟩
  have he : taking.entry 2 "b" = .mk 30 "b" 30 := taking_entry
  change (taking.entry 2 "b").next ≤ _
  rw [he]
  decide

end Crowds
end Billing
