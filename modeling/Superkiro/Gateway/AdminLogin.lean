import Superkiro.Gateway.Totp
import Superkiro.Lib.Counter
import Superkiro.Lib.Table

namespace Gateway.AdminLogin

-- Times of logins are in nanoseconds.
def second : Nat := 10 ^ 9
def attemptWindow : Nat := 60 * second
theorem attemptWindow_pos : 0 < attemptWindow := by decide

def maxAttempts : Nat := 10
def maxLoginSources : Nat := 4096
def knownSourceTtl : Nat := 30 * 86400 * second
def maxKnownSources : Nat := 32

-- Takes one of the attempts that a source has in a minute. There's no answer if the table is full of
-- other sources.
def takeAttempt (t : Table String Counter) (source : String) (capacity now : Nat) :
    Option Bool × Table String Counter :=
  let t := if source ∉ t ∧ capacity ≤ t.entries.length then
    t.retain fun _ c => c.live attemptWindow now else t
  if source ∉ t ∧ capacity ≤ t.entries.length then (none, t)
  else
    let c := ((t.lookup source).getD ⟨now, 0⟩).take attemptWindow maxAttempts now
    (some c.1, t.insert source c.2)

section

variable {t : Table String Counter} {source other : String} {capacity now : Nat} {c : Counter}
variable {l : List (Nat × Nat)}

-- What's taken from the attempts of a source.
def taken (c : Option Counter) (now : Nat) : Bool × Counter :=
  (c.getD ⟨now, 0⟩).take attemptWindow maxAttempts now

-- The table that an attempt is taken from.
def trimmed (t : Table String Counter) (source : String) (capacity now : Nat) :
    Table String Counter :=
  if source ∉ t ∧ capacity ≤ t.entries.length then
    t.retain fun _ c => c.live attemptWindow now else t

theorem lookup_trimmed_self : (trimmed t source capacity now).lookup source = t.lookup source := by
  rw [trimmed]
  split
  case isFalse => rfl
  case isTrue h =>
    rw [AList.lookup_eq_none.mpr h.left, Option.eq_none_iff_forall_ne_some]
    intro c hc
    exact h.left (AList.mem_of_lookup ((AList.lookup_retain _).mp hc).left)

theorem of_lookup_trimmed (h : (trimmed t source capacity now).lookup other = some c) :
    t.lookup other = some c := by
  rw [trimmed] at h
  split at h
  case isTrue => exact ((AList.lookup_retain _).mp h).left
  case isFalse => exact h

theorem lookup_trimmed_live (h : t.lookup other = some c) (hl : c.live attemptWindow now) :
    (trimmed t source capacity now).lookup other = some c := by
  rw [trimmed]
  split
  case isTrue => exact (AList.lookup_retain _).mpr ⟨h, hl⟩
  case isFalse => exact h

theorem takeAttempt_eq : takeAttempt t source capacity now =
    if source ∉ t ∧ capacity ≤ (trimmed t source capacity now).entries.length then
      (none, trimmed t source capacity now)
    else (some (taken (t.lookup source) now).1,
      (trimmed t source capacity now).insert source (taken (t.lookup source) now).2) := by
  have hm : source ∈ trimmed t source capacity now ↔ source ∈ t := by
    rw [AList.mem_iff_lookup, lookup_trimmed_self, AList.mem_iff_lookup]
  have hl : (trimmed t source capacity now).lookup source = t.lookup source := lookup_trimmed_self
  rw [← hl]
  simp only [← hm]
  rfl

variable (t source capacity now) in
theorem takeAttempt_self :
    ((takeAttempt t source capacity now).1 = none ∧ t.lookup source = none ∧
      (takeAttempt t source capacity now).2.lookup source = none) ∨
    ((takeAttempt t source capacity now).1 = some (taken (t.lookup source) now).1 ∧
      (takeAttempt t source capacity now).2.lookup source =
        some (taken (t.lookup source) now).2) := by
  rw [takeAttempt_eq]
  split
  case isTrue h =>
    have hn := AList.lookup_eq_none.mpr h.left
    exact .inl ⟨rfl, hn, lookup_trimmed_self.trans hn⟩
  case isFalse => exact .inr ⟨rfl, AList.lookup_insert _⟩

theorem of_lookup_takeAttempt (hi : other ≠ source)
    (h : (takeAttempt t source capacity now).2.lookup other = some c) : t.lookup other = some c := by
  rw [takeAttempt_eq] at h
  split at h
  case isTrue => exact of_lookup_trimmed h
  case isFalse => exact of_lookup_trimmed ((AList.lookup_insert_ne hi).symm.trans h)

-- The attempts of other sources aren't dropped while their minute lasts, however full the table is.
theorem lookup_takeAttempt_live (hi : other ≠ source) (h : t.lookup other = some c)
    (hl : c.live attemptWindow now) :
    (takeAttempt t source capacity now).2.lookup other = some c := by
  rw [takeAttempt_eq]
  split
  case isTrue => exact lookup_trimmed_live h hl
  case isFalse => exact (AList.lookup_insert_ne hi).trans (lookup_trimmed_live h hl)

-- No attempts are dropped while their minute lasts, however full the table is.
theorem takeAttempt_keeps (h : t.lookup other = some c) (hl : c.live attemptWindow now) :
    ∃ c', (takeAttempt t source capacity now).2.lookup other = some c' ∧ c'.start = c.start ∧
      c.count ≤ c'.count := by
  by_cases hi : other = source
  case neg => exact ⟨c, lookup_takeAttempt_live hi h hl, rfl, Nat.le_refl _⟩
  case pos =>
    subst hi
    have ht := takeAttempt_self t other capacity now
    have ht := (ht.resolve_left fun hn => nomatch h.symm.trans hn.right.left).right
    refine ⟨_, ht, ?_⟩
    rw [h, taken, Option.getD_some, Counter.take, Counter.renew, if_pos hl]
    split
    case isTrue => exact ⟨rfl, Nat.le_refl _⟩
    case isFalse => exact ⟨rfl, Nat.le_succ _⟩

-- A table has the attempts of a source, where those admitted come with the start of their minute.
structure Charged (t : Table String Counter) (source : String) (now : Nat)
    (l : List (Nat × Nat)) : Prop where
  charges : ∀ c, t.lookup source = some c →
    c.start ≤ now ∧ (now < c.start + attemptWindow → Counter.Charges attemptWindow c l)
  kept    : ∀ e ∈ l, now < e.2 + attemptWindow → ∃ c, t.lookup source = some c ∧ e.2 ≤ c.start

-- The attempts of a source with another one, if that's admitted.
def admitting (t : Table String Counter) (source : String) (capacity now : Nat)
    (l : List (Nat × Nat)) : List (Nat × Nat) :=
  match takeAttempt t source capacity now with
  | (some true, t) => (now, ((t.lookup source).elim now (·.start))) :: l
  | _              => l

theorem Charged.taken (h : Charged t source now l) (hc : Counter.Capped attemptWindow maxAttempts l) :
    let r := taken (t.lookup source) now
    (r.1 = true → Counter.Charges attemptWindow r.2 ((now, r.2.start) :: l) ∧
      Counter.Capped attemptWindow maxAttempts ((now, r.2.start) :: l)) ∧
    (r.1 = false → Counter.Charges attemptWindow r.2 l) ∧ r.2.start ≤ now ∧
    now < r.2.start + attemptWindow ∧ ∀ c, t.lookup source = some c → c.start ≤ r.2.start := by
  cases hl : t.lookup source
  case none =>
    have ho : ∀ e ∈ l, e.2 + attemptWindow ≤ now := by
      intro e he
      by_contra hn
      have ⟨c, hs, _⟩ := h.kept e he (Nat.not_le.mp hn)
      cases hl.symm.trans hs
    have ⟨ha, hr, hb, hw, _⟩ := Counter.Charges.take (c := ⟨now, 0⟩) (fun _ => .fresh ho)
      (fun _ => ho) (by decide) (Nat.le_refl _) hc
    exact ⟨ha, hr, hb, hw, nofun⟩
  case some c =>
    have ⟨hs, hh⟩ := h.charges c hl
    have hw : c.live attemptWindow now ↔ _ := Counter.live_iff attemptWindow_pos
    have ⟨ha, hr, hb, hw', hm⟩ := Counter.Charges.take (fun hl => hh (hw.mp hl))
      (fun hn e he => ?_) (by decide) hs hc
    case refine_2 => exact ⟨ha, hr, hb, hw', fun c' he => Option.some_inj.mp he ▸ hm⟩
    by_contra ho
    have ⟨c', hs', he'⟩ := h.kept e he (Nat.not_le.mp ho)
    cases hl.symm.trans hs'
    exact hn (hw.mpr (by omega))

-- What an attempt does to what's charged to its source.
variable (capacity) in
theorem Charged.admitting (h : Charged t source now l)
    (hc : Counter.Capped attemptWindow maxAttempts l) :
    let t' := (takeAttempt t source capacity now).2
    Charged t' source now (admitting t source capacity now l) ∧
      Counter.Capped attemptWindow maxAttempts (admitting t source capacity now l) ∧
      ∀ c', t'.lookup source = some c' → now < c'.start + attemptWindow := by
  have ⟨ha, hr, hb, hw, hm⟩ := h.taken hc
  have ht := takeAttempt_self t source capacity now
  rw [AdminLogin.admitting]
  generalize takeAttempt t source capacity now = r at ht
  have ⟨good, t'⟩ := r
  cases ht
  case inl hf =>
    have ⟨hg, hn, hn'⟩ := hf
    cases hg
    refine ⟨⟨fun c hl => ?_, fun e he ho => ?_⟩, hc, fun c hl => ?_⟩
    · cases hn'.symm.trans hl
    · have ⟨c, hl, _⟩ := h.kept e he ho
      cases hn.symm.trans hl
    · cases hn'.symm.trans hl
  case inr hf =>
    have ⟨hg, hs⟩ := hf
    dsimp only at hg hs
    generalize AdminLogin.taken (t.lookup source) now = r at *
    have ⟨good, c'⟩ := r
    have hk : ∀ e ∈ l, now < e.2 + attemptWindow → ∃ c, t'.lookup source = some c ∧
        e.2 ≤ c.start := by
      intro e he ho
      have ⟨c, hl, hs'⟩ := h.kept e he ho
      exact ⟨c', hs, hs'.trans (hm c hl)⟩
    have hq : ∀ c'', t'.lookup source = some c'' → now < c''.start + attemptWindow := by
      intro c'' he
      cases hs.symm.trans he
      exact hw
    cases hg
    cases good
    case false =>
      refine ⟨⟨fun c hl => ?_, hk⟩, hc, hq⟩
      cases hs.symm.trans hl
      exact ⟨hb, fun _ => hr rfl⟩
    case true =>
      have ⟨ha, hc'⟩ := ha rfl
      dsimp only
      rw [hs, Option.elim_some]
      refine ⟨⟨fun c hl => ?_, ?_⟩, hc', fun c hl => hq c (hs.trans hl)⟩
      case refine_2 => exact List.forall_mem_cons.mpr ⟨fun _ => ⟨c', hs, Nat.le_refl _⟩, hk⟩
      cases hs.symm.trans hl
      exact ⟨hb, fun _ => ha⟩

end

-- What's kept of the sources of logins: the attempts of those in general, and of those that have
-- logged in, which are known by when they last did.
structure BrowserAuth where
  attempts      : Table String Counter
  knownAttempts : Table String Counter
  knownSources  : Table String Nat

namespace BrowserAuth

def new : BrowserAuth := ⟨∅, ∅, ∅⟩

variable (b : BrowserAuth)

def isKnown (source : String) (now : Nat) : Bool :=
  match b.knownSources.lookup source with
  | some since => now - since < knownSourceTtl
  | none       => false

def reserveAttempt (source : String) (now : Nat) : Bool × BrowserAuth :=
  if b.isKnown source now then
    let (good, t) := takeAttempt b.knownAttempts source maxKnownSources now
    (good.getD false, { b with knownAttempts := t })
  else
    let (good, t) := takeAttempt b.attempts source maxLoginSources now
    (good.getD false, { b with attempts := t })

def dropOldest (known : Table String Nat) : Table String Nat :=
  match known.entries.argmin (·.2) with
  | some oldest => known.erase oldest.1
  | none        => known

-- The attempts that the source has already made come with it.
def moved (source : String) : BrowserAuth :=
  match b.attempts.lookup source with
  | some c => { b with
    attempts      := b.attempts.erase source
    knownAttempts := b.knownAttempts.insert source c }
  | none   => b

-- As many of the oldest are dropped as there are too many.
def rememberSource (source : String) (now : Nat) : BrowserAuth :=
  let known := (b.knownSources.insert source now).retain fun _ since => now - since < knownSourceTtl
  { b.moved source with
    knownSources := dropOldest^[known.entries.length - maxKnownSources] known }

variable {b} {b' : BrowserAuth} {source other : String} {now now' : Nat} {c : Counter}

-- The table that the attempts of a source are taken from, and how many sources it has room for.
def lane (b : BrowserAuth) (source : String) (now : Nat) : Table String Counter :=
  if b.isKnown source now then b.knownAttempts else b.attempts

def laneCapacity (b : BrowserAuth) (source : String) (now : Nat) : Nat :=
  if b.isKnown source now then maxKnownSources else maxLoginSources

theorem isKnown_later (h : b.isKnown source now' = true) (hn : now ≤ now') :
    b.isKnown source now = true := by
  rw [isKnown] at h ⊢
  split at h
  case h_1 =>
    rw [decide_eq_true_eq] at h ⊢
    omega
  case h_2 => cases h

theorem moved_other (h : other ≠ source) :
    (b.moved source).attempts.lookup other = b.attempts.lookup other ∧
      (b.moved source).knownAttempts.lookup other = b.knownAttempts.lookup other := by
  rw [moved]
  split
  case h_1 => exact ⟨AList.lookup_erase_ne h, AList.lookup_insert_ne h⟩
  case h_2 => exact ⟨rfl, rfl⟩

theorem moved_attempts : (b.moved source).attempts.lookup source = none := by
  rw [moved]
  split
  case h_1 => exact AList.lookup_erase _ _
  case h_2 h => exact h

theorem moved_knownAttempts (h : (b.moved source).knownAttempts.lookup source = some c) :
    b.attempts.lookup source = some c ∨
      (b.attempts.lookup source = none ∧ b.knownAttempts.lookup source = some c) := by
  rw [moved] at h
  split at h
  case h_1 hs => exact .inl (hs.trans ((AList.lookup_insert _).symm.trans h))
  case h_2 hs => exact .inr ⟨hs, h⟩

theorem knownAttempts_moved (h : b.attempts.lookup source = some c ∨
    (b.attempts.lookup source = none ∧ b.knownAttempts.lookup source = some c)) :
    (b.moved source).knownAttempts.lookup source = some c := by
  rw [moved]
  cases h
  case inl h => rw [h]; exact AList.lookup_insert _
  case inr h => rw [h.left]; exact h.right

theorem reserveAttempt_fst : (b.reserveAttempt source now).1 =
    ((takeAttempt (b.lane source now) source (b.laneCapacity source now) now).1).getD false := by
  rw [reserveAttempt, lane, laneCapacity]
  split <;> rfl

theorem reserveAttempt_known (h : b.isKnown source now = true) : (b.reserveAttempt source now).2 =
    { b with knownAttempts := (takeAttempt b.knownAttempts source maxKnownSources now).2 } := by
  rw [reserveAttempt, if_pos h]

-- Sources that aren't known have no part in what's kept of those that are.
theorem reserveAttempt_stranger (h : b.isKnown source now = false) :
    (b.reserveAttempt source now).2 =
      { b with attempts := (takeAttempt b.attempts source maxLoginSources now).2 } := by
  rw [reserveAttempt, if_neg (Bool.eq_false_iff.mp h)]

theorem knownSources_reserveAttempt :
    (b.reserveAttempt source now).2.knownSources = b.knownSources := by
  rw [reserveAttempt]
  split <;> rfl

theorem of_lookup_dropOldest {known : Table String Nat} {since : Nat}
    (h : (dropOldest known).lookup source = some since) : known.lookup source = some since := by
  rw [dropOldest] at h
  split at h
  case h_1 => exact (AList.lookup_erase_iff.mp h).right
  case h_2 => exact h

theorem of_lookup_dropOldest_iterate {known : Table String Nat} {since k : Nat}
    (h : (dropOldest^[k] known).lookup source = some since) : known.lookup source = some since := by
  induction k generalizing known
  case zero => exact h
  case succ k hi =>
    rw [Function.iterate_succ_apply] at h
    exact of_lookup_dropOldest (hi h)

-- Nobody else gets to be known.
theorem of_isKnown_rememberSource (hi : other ≠ source)
    (h : (b.rememberSource source now).isKnown other now' = true) : b.isKnown other now' = true := by
  rw [isKnown] at h
  split at h
  case h_2 => cases h
  case h_1 since hs =>
    have hs := ((AList.lookup_retain _).mp (of_lookup_dropOldest_iterate hs)).left
    rw [isKnown, (AList.lookup_insert_ne hi).symm.trans hs]
    exact h

theorem isKnown_congr (h : b.knownSources.lookup source = b'.knownSources.lookup source) :
    b.isKnown source now = b'.isKnown source now := by
  rw [isKnown, isKnown, h]

-- What decides about known sources.
def SameKnown (b b' : BrowserAuth) : Prop :=
  b.knownSources = b'.knownSources ∧ b.knownAttempts = b'.knownAttempts

theorem SameKnown.isKnown (h : b.SameKnown b') : b.isKnown source now = b'.isKnown source now :=
  isKnown_congr (h.left ▸ rfl)

theorem SameKnown.reserveAttempt (h : b.SameKnown b') :
    (b.reserveAttempt source now).2.SameKnown (b'.reserveAttempt source now).2 := by
  cases hk : b.isKnown source now
  case true =>
    rw [reserveAttempt_known hk, reserveAttempt_known (h.isKnown ▸ hk)]
    exact ⟨h.left, by rw [h.right]⟩
  case false =>
    rw [reserveAttempt_stranger hk, reserveAttempt_stranger (h.isKnown ▸ hk)]
    exact h

theorem SameKnown.verdict (h : b.SameKnown b') (hk : b.isKnown source now = true) :
    (b.reserveAttempt source now).1 = (b'.reserveAttempt source now).1 := by
  have hk' := h.isKnown.symm.trans hk
  rw [reserveAttempt_fst, reserveAttempt_fst, lane, lane, laneCapacity, laneCapacity, if_pos hk,
    if_pos hk, if_pos hk', if_pos hk', h.right]

-- After some attempts.
def attempted (b : BrowserAuth) (as : List (String × Nat)) : BrowserAuth :=
  as.foldl (fun b a => (b.reserveAttempt a.1 a.2).2) b

-- Nothing that strangers attempt, at whatever time, makes a difference to known sources.
theorem SameKnown.attempted (h : b.SameKnown b') {p : String → Bool}
    (hp : ∀ s since, b.knownSources.lookup s = some since → p s = true) (as : List (String × Nat)) :
    (b.attempted as).SameKnown (b'.attempted (as.filter (p ·.1))) := by
  induction as generalizing b b'
  case nil => exact h
  case cons a as hi =>
    have hp' : ∀ s since, (b.reserveAttempt a.1 a.2).2.knownSources.lookup s = some since →
        p s = true := by
      rw [knownSources_reserveAttempt]
      exact hp
    change ((b.reserveAttempt a.1 a.2).2.attempted as).SameKnown _
    rw [List.filter_cons]
    split
    case isTrue => exact hi h.reserveAttempt hp'
    case isFalse ha =>
      have hk : b.isKnown a.1 a.2 = false := by
        rw [BrowserAuth.isKnown]
        cases hl : b.knownSources.lookup a.1
        case none => rfl
        case some since => exact (ha (hp a.1 since hl)).elim
      refine hi ?_ hp'
      rw [reserveAttempt_stranger hk]
      exact h

end BrowserAuth

inductive Visit
  | reserve (source : String) (now : Nat)
  | remember (source : String) (now : Nat)

def Visit.clock : Visit → Nat
  | reserve _ now | remember _ now => now

-- The attempts that were admitted of each source, each with the start of the minute that it was
-- counted in, the latest first.
structure Visits where
  auth     : BrowserAuth
  admitted : String → List (Nat × Nat)
  loggedIn : List String
  clock    : Nat

namespace Visits

def fresh : Visits := ⟨.new, fun _ => [], [], 0⟩

variable (w : Visits)

def exec : Visit → Visits
  | .reserve source now => { w with
    auth     := (w.auth.reserveAttempt source now).2
    admitted := Function.update w.admitted source <|
      admitting (w.auth.lane source now) source (w.auth.laneCapacity source now) now (w.admitted source)
    clock    := now }
  | .remember source now => { w with
    auth     := w.auth.rememberSource source now
    loggedIn := source :: w.loggedIn
    clock    := now }

-- The known sources are gone through in whatever order they happen to be.
def Step (w : Visits) (v : Visit) (w' : Visits) : Prop :=
  w.clock ≤ v.clock ∧ ∃ known : Table String Nat, known.entries.Perm w.auth.knownSources.entries ∧
    w' = { w with auth := { w.auth with knownSources := known } }.exec v

-- No source that's no longer known still has the attempts of a minute from when it was.
def Lasts (w : Visits) : Visit → Prop
  | .reserve source now => w.auth.isKnown source now = false →
    ∀ c, w.auth.knownAttempts.lookup source = some c → c.live attemptWindow now = false
  | .remember _ _ => True

theorem Lasts.over {w : Visits} {source : String} {now : Nat} {c : Counter}
    (h : w.Lasts (.reserve source now)) (hk : w.auth.isKnown source now = false)
    (hc : w.auth.knownAttempts.lookup source = some c) : c.start + attemptWindow ≤ now := by
  have := h hk c hc
  rwa [Bool.eq_false_iff, ne_eq, Counter.live_iff attemptWindow_pos, Nat.not_lt] at this

-- A budget of a source, wherever it's kept.
def Budget (w : Visits) (source : String) (c : Counter) : Prop :=
  w.auth.attempts.lookup source = some c ∨ w.auth.knownAttempts.lookup source = some c

structure Held (w : Visits) (source : String) : Prop where
  capped   : Counter.Capped attemptWindow maxAttempts (w.admitted source)
  charges  : ∀ c, w.Budget source c → c.start ≤ w.clock ∧
    (w.clock < c.start + attemptWindow → Counter.Charges attemptWindow c (w.admitted source))
  kept     : ∀ e ∈ w.admitted source, w.clock < e.2 + attemptWindow →
    ∃ c, w.Budget source c ∧ e.2 ≤ c.start
  unshared : w.auth.isKnown source w.clock = true → w.auth.attempts.lookup source = none
  ordered  : ∀ c c', w.auth.attempts.lookup source = some c →
    w.auth.knownAttempts.lookup source = some c' → c'.start ≤ c.start

section

variable {w} {w' : Visits} {v : Visit} {source other : String} {now : Nat}

theorem fresh_held : fresh.Held source where
  capped   := nofun
  charges  := fun _ h => h.elim nofun nofun
  kept     := nofun
  unshared := fun _ => rfl
  ordered  := nofun

theorem Held.later (h : w.Held source) (hc : w.clock ≤ now) :
    { w with clock := now }.Held source where
  capped   := h.capped
  charges  := fun c hb => (h.charges c hb).imp (·.trans hc) fun hl hn => hl (hc.trans_lt hn)
  kept     := fun e he hn => h.kept e he (hc.trans_lt hn)
  unshared := fun hk => h.unshared (BrowserAuth.isKnown_later hk hc)
  ordered  := h.ordered

-- The table that an attempt is taken from has what's charged to its source.
theorem Held.charged (h : w.Held source) (hs : w.Lasts (.reserve source w.clock)) :
    Charged (w.auth.lane source w.clock) source w.clock (w.admitted source) := by
  rw [BrowserAuth.lane]
  split
  case isTrue hk =>
    refine ⟨fun c hl => h.charges c (.inr hl), fun e he hn => ?_⟩
    have ⟨c, hb, hc⟩ := h.kept e he hn
    rw [Budget, h.unshared hk] at hb
    exact ⟨c, hb.resolve_left nofun, hc⟩
  case isFalse hk =>
    refine ⟨fun c hl => h.charges c (.inl hl), fun e he hn => ?_⟩
    have ⟨c, hb, hc⟩ := h.kept e he hn
    refine ⟨c, hb.resolve_right fun hl => ?_, hc⟩
    have := hs.over (Bool.eq_false_iff.mpr hk) hl
    omega

theorem exec_reserve_known (h : w.auth.isKnown source now = true) :
    w.exec (.reserve source now) = { w with
      auth     := { w.auth with
        knownAttempts := (takeAttempt w.auth.knownAttempts source maxKnownSources now).2 }
      admitted := Function.update w.admitted source <|
        admitting w.auth.knownAttempts source maxKnownSources now (w.admitted source)
      clock    := now } := by
  rw [exec, BrowserAuth.reserveAttempt_known h, BrowserAuth.lane, BrowserAuth.laneCapacity,
    if_pos h, if_pos h]

theorem exec_reserve_stranger (h : w.auth.isKnown source now = false) :
    w.exec (.reserve source now) = { w with
      auth     := { w.auth with
        attempts := (takeAttempt w.auth.attempts source maxLoginSources now).2 }
      admitted := Function.update w.admitted source <|
        admitting w.auth.attempts source maxLoginSources now (w.admitted source)
      clock    := now } := by
  have h' := Bool.eq_false_iff.mp h
  rw [exec, BrowserAuth.reserveAttempt_stranger h, BrowserAuth.lane, BrowserAuth.laneCapacity,
    if_neg h', if_neg h']

-- An attempt of a source, at the time that it's made.
theorem Held.reserve (h : w.Held source) (hs : w.Lasts (.reserve source w.clock)) :
    (w.exec (.reserve source w.clock)).Held source := by
  have ht := h.charged hs
  rw [BrowserAuth.lane] at ht
  cases hk : w.auth.isKnown source w.clock
  case true =>
    have ha := h.unshared hk
    rw [if_pos hk] at ht
    have ⟨ht, hc, _⟩ := ht.admitting maxKnownSources h.capped
    rw [exec_reserve_known hk]
    refine ⟨?_, fun c hb => ?_, fun e he hn => ?_, fun _ => ha, fun c _ hl => ?_⟩
    all_goals simp only [Function.update_self] at *
    · exact hc
    · exact ht.charges c (hb.resolve_left (ha ▸ nofun))
    · exact (ht.kept e he hn).imp fun c => .imp_left .inr
    · cases ha.symm.trans hl
  case false =>
    rw [if_neg (Bool.eq_false_iff.mp hk)] at ht
    have ⟨ht, hc, hl⟩ := ht.admitting maxLoginSources h.capped
    rw [exec_reserve_stranger hk]
    refine ⟨?_, fun c hb => ?_, fun e he hn => ?_, fun hk' => ?_, fun c c' ha ho => ?_⟩
    all_goals simp only [Function.update_self] at *
    · exact hc
    · refine hb.elim (ht.charges c) fun hl => ⟨(h.charges c (.inr hl)).left, fun hn => ?_⟩
      have := hs.over hk hl
      omega
    · exact (ht.kept e he hn).imp fun c => .imp_left .inl
    · cases hk.symm.trans hk'
    · have := hs.over hk ho
      have := hl c ha
      omega

-- What's kept of another source stays, but for what's over.
theorem Held.frame (h : w.Held source) (ha : w'.admitted source = w.admitted source)
    (hc : w.clock = w'.clock)
    (hk : w'.auth.isKnown source w'.clock = true → w.auth.isKnown source w'.clock = true)
    (hs : ∀ c, w'.auth.attempts.lookup source = some c → w.auth.attempts.lookup source = some c)
    (ho : ∀ c, w'.auth.knownAttempts.lookup source = some c →
      w.auth.knownAttempts.lookup source = some c)
    (hl : ∀ c, c.live attemptWindow w.clock → w.Budget source c → w'.Budget source c) :
    w'.Held source where
  capped   := ha ▸ h.capped
  charges  := fun c hb => ha ▸ hc ▸ h.charges c (hb.imp (hs c) (ho c))
  kept     := fun e he hn => by
    have ⟨c, hb, hle⟩ := h.kept e (ha ▸ he) (hc ▸ hn)
    exact ⟨c, hl c ((Counter.live_iff attemptWindow_pos).mpr (by omega)) hb, hle⟩
  unshared := fun hk' => by
    rw [Option.eq_none_iff_forall_ne_some]
    intro c hl
    cases (h.unshared (hc ▸ hk hk')).symm.trans (hs c hl)
  ordered  := fun c c' hl hl' => h.ordered c c' (hs c hl) (ho c' hl')

theorem Held.reserve_other (h : w.Held other) (hi : other ≠ source) :
    (w.exec (.reserve source w.clock)).Held other := by
  have ha : ∀ l, Function.update w.admitted source l other = w.admitted other :=
    fun l => Function.update_of_ne hi _ _
  cases hk : w.auth.isKnown source w.clock
  case true =>
    rw [exec_reserve_known hk]
    refine h.frame (ha _) rfl id (fun _ => id) (fun c => of_lookup_takeAttempt hi) fun c hl hb => ?_
    exact hb.imp_right (lookup_takeAttempt_live hi · hl)
  case false =>
    rw [exec_reserve_stranger hk]
    refine h.frame (ha _) rfl id (fun c => of_lookup_takeAttempt hi) (fun _ => id) fun c hl hb => ?_
    exact hb.imp_left (lookup_takeAttempt_live hi · hl)

theorem Held.remember_other (h : w.Held other) (hi : other ≠ source) :
    (w.exec (.remember source w.clock)).Held other := by
  have ⟨hs, ho⟩ := BrowserAuth.moved_other (b := w.auth) hi
  refine h.frame rfl rfl (BrowserAuth.of_isKnown_rememberSource hi) (fun c => hs.symm.trans)
    (fun c => ho.symm.trans) fun c _ => .imp hs.trans ho.trans

theorem Held.remember (h : w.Held source) :
    (w.exec (.remember source w.clock)).Held source := by
  have hn : (w.exec (.remember source w.clock)).auth.attempts.lookup source = none :=
    BrowserAuth.moved_attempts
  refine ⟨h.capped, fun c hb => ?_, fun e he ho => ?_, fun _ => hn, fun c _ hl => ?_⟩
  · have := BrowserAuth.moved_knownAttempts (hb.resolve_left (hn ▸ nofun))
    exact h.charges c (this.imp_right And.right)
  · have ⟨c, hb, hc⟩ := h.kept e he ho
    cases hs : w.auth.attempts.lookup source
    case none =>
      have hb := hb.resolve_left (hs ▸ nofun)
      exact ⟨c, .inr (BrowserAuth.knownAttempts_moved (.inr ⟨hs, hb⟩)), hc⟩
    case some c' =>
      -- What's overwritten is older.
      refine ⟨c', .inr (BrowserAuth.knownAttempts_moved (.inl hs)), hc.trans ?_⟩
      cases hb
      case inl hb => cases hs.symm.trans hb; exact Nat.le_refl _
      case inr hb => exact h.ordered c' c hs hb
  · cases hn.symm.trans hl

theorem Held.exec (h : ∀ source, w.Held source) (hc : w.clock ≤ v.clock) (hs : w.Lasts v) :
    ∀ source, (w.exec v).Held source := by
  intro source
  have hl : ∀ source, { w with clock := v.clock }.Held source := fun source => (h source).later hc
  cases v
  case reserve source' now =>
    by_cases hi : source = source'
    case pos => exact hi ▸ (hl source').reserve hs
    case neg => exact (hl source).reserve_other hi
  case remember source' now =>
    by_cases hi : source = source'
    case pos => exact hi ▸ (hl source').remember
    case neg => exact (hl source).remember_other hi

theorem Held.step (h : ∀ source, w.Held source) (hs : w.Lasts v) (ht : w.Step v w') :
    ∀ source, w'.Held source := by
  have ⟨hc, known, hp, he⟩ := ht
  subst he
  have hk : ∀ source now, BrowserAuth.isKnown { w.auth with knownSources := known } source now =
      w.auth.isKnown source now := fun _ _ => BrowserAuth.isKnown_congr (AList.perm_lookup hp)
  refine Held.exec (fun source => ?_) hc ?_
  · have h := h source
    exact ⟨h.capped, h.charges, h.kept, fun hk' => h.unshared (hk _ _ ▸ hk'), h.ordered⟩
  · cases v
    case reserve => exact fun hk' => hs (hk _ _ ▸ hk')
    case remember => trivial

-- Only sources that have logged in are known or have attempts of their own.
structure Private (w : Visits) : Prop where
  known    : ∀ source since, w.auth.knownSources.lookup source = some since → source ∈ w.loggedIn
  attempts : ∀ source c, w.auth.knownAttempts.lookup source = some c → source ∈ w.loggedIn

theorem Private.exec (h : w.Private) : (w.exec v).Private := by
  cases v
  case reserve source now =>
    refine ⟨fun s since hl => h.known s since (BrowserAuth.knownSources_reserveAttempt ▸ hl),
      fun s c hl => ?_⟩
    cases hk : w.auth.isKnown source now
    case false =>
      rw [exec_reserve_stranger hk] at hl
      exact h.attempts s c hl
    case true =>
      rw [exec_reserve_known hk] at hl
      by_cases hi : s = source
      case neg => exact h.attempts s c (of_lookup_takeAttempt hi hl)
      case pos =>
        rw [BrowserAuth.isKnown] at hk
        split at hk
        case h_1 since hs => exact hi ▸ h.known source since hs
        case h_2 => cases hk
  case remember source now =>
    refine ⟨fun s since hl => ?_, fun s c hl => ?_⟩
    · have hl := ((AList.lookup_retain _).mp (BrowserAuth.of_lookup_dropOldest_iterate hl)).left
      cases AList.lookup_insert_iff.mp hl
      case inl hi => exact hi.left ▸ List.mem_cons_self
      case inr hi => exact List.mem_cons_of_mem _ (h.known s since hi.right)
    · by_cases hi : s = source
      case pos => exact hi ▸ List.mem_cons_self
      case neg =>
        have hl := (BrowserAuth.moved_other hi).right.symm.trans hl
        exact List.mem_cons_of_mem _ (h.attempts s c hl)

theorem Private.step (h : w.Private) (ht : w.Step v w') : w'.Private := by
  have ⟨_, known, hp, he⟩ := ht
  subst he
  exact Private.exec ⟨fun source since hl => h.known source since (AList.perm_lookup hp ▸ hl),
    h.attempts⟩

theorem run_held {vs : List Visit}
    (h : Run (fun w v w' => Lasts w v ∧ Step w v w') fresh vs w) : ∀ source, w.Held source :=
  h.preserves_of (I := fun w => ∀ source, w.Held source) (fun hI hs ht => Held.step hI hs ht)
    fun _ => fresh_held

theorem run_private {vs : List Visit} (h : Run Step fresh vs w) : w.Private :=
  h.preserves (fun hI ht => hI.step ht) ⟨nofun, nofun⟩

theorem run_exec {vs : List Visit} (h : (w.clock :: vs.map (·.clock)).IsChain (· ≤ ·)) :
    Run Step w vs (vs.foldl exec w) := by
  induction vs generalizing w
  case nil => exact .nil
  case cons v vs hi =>
    have ⟨hc, h⟩ := List.isChain_cons_cons.mp h
    have he : (w.exec v).clock = v.clock := by cases v <;> rfl
    exact .cons ⟨hc, _, .refl _, rfl⟩ (hi (he ▸ h))

end

end Visits

-- Codes work once. Sources have ten attempts a minute, as long as none stops being known while it
-- still has some of a minute, and strangers make no difference to known sources.
theorem logins_limited_while_known (hmac : List UInt8 → List UInt8 → Vector UInt8 20) :
    (∀ secret t now ops w, Totp.new secret now = .ok t →
      Run (Codes.Step hmac) ⟨t, [], now⟩ ops w →
        w.accepted.Pairwise (fun e e' => e'.1 < e.1) ∧ (w.accepted.map (·.1)).Nodup ∧
        ∀ e ∈ w.accepted, e.2 / 30 ≤ e.1 + 1 ∧ e.1 ≤ e.2 / 30 + 1) ∧
    (∀ vs w, Run (fun w v w' => Visits.Lasts w v ∧ Visits.Step w v w') .fresh vs w →
      ∀ source, Counter.Capped attemptWindow maxAttempts (w.admitted source)) ∧
    (∀ t source other capacity now c, t.lookup other = some c → c.live attemptWindow now →
      ∃ c', (takeAttempt t source capacity now).2.lookup other = some c' ∧ c'.start = c.start ∧
        c.count ≤ c'.count) ∧
    ∀ vs w, Run Visits.Step .fresh vs w →
      (∀ source ∉ w.loggedIn, ∀ now, w.auth.isKnown source now = false) ∧
      ∀ as source now, (w.auth.attempted as).isKnown source now = true →
        ((w.auth.attempted as).reserveAttempt source now).1 =
          ((w.auth.attempted (as.filter (·.1 ∈ w.loggedIn))).reserveAttempt source now).1 := by
  refine ⟨fun secret t now ops w _ h => ?_, fun vs w h source => ?_,
    fun t source other capacity now c => takeAttempt_keeps, fun vs w h => ?_⟩
  · have ho := Codes.run_ordered h
    refine ⟨ho.pairwise, ?_, fun e he => ⟨(ho.near e he).left, (ho.near e he).right.left⟩⟩
    exact List.pairwise_map.mpr (ho.pairwise.imp Nat.ne_of_gt)
  · exact (Visits.run_held h source).capped
  · have hp := Visits.run_private h
    refine ⟨fun source hn now => ?_, fun as source now hk => ?_⟩
    · rw [BrowserAuth.isKnown]
      cases hl : w.auth.knownSources.lookup source
      case none => rfl
      case some since => exact (hn (hp.known source since hl)).elim
    · have hs : w.auth.SameKnown w.auth := ⟨rfl, rfl⟩
      exact (hs.attempted (fun s since hl => decide_eq_true (hp.known s since hl)) as).verdict hk

theorem logins_limited_while_known_sample :
    (∃ t w, Totp.new "GEZDGNBVGY3TQOJQGEZDGNBVGY3TQOJQ" 0 = .ok t ∧
      Run (Codes.Step fun _ _ => .replicate 20 0) ⟨t, [], 0⟩ [.verify "000000" 60] w ∧
      w.accepted = [(3, 60)] ∧ (w.accepted.map (·.1)).Nodup) ∧
    Counter.Capped attemptWindow maxAttempts ((Visits.fresh.exec (.reserve "a" 0)).admitted "a") := by
  have hl := logins_limited_while_known fun _ _ => .replicate 20 0
  have ht : Totp.new "GEZDGNBVGY3TQOJQGEZDGNBVGY3TQOJQ" 0 =
      .ok ⟨"12345678901234567890".toByteArray.data.toList, 1⟩ := by decide +kernel
  have hr : Run (Codes.Step fun _ _ => .replicate 20 0)
      ⟨⟨"12345678901234567890".toByteArray.data.toList, 1⟩, [], 0⟩ [.verify "000000" 60] _ :=
    .single (.verify (Nat.zero_le 60))
  refine ⟨⟨_, _, ht, hr, by decide +kernel, (hl.left _ _ _ _ _ ht hr).right.left⟩, ?_⟩
  exact hl.right.left [.reserve "a" 0] _
    (.single ⟨fun _ _ => nofun, Nat.le_refl _, _, .refl _, rfl⟩) "a"

-- A source that isn't known any more has the attempts of another minute at once.
theorem attempts_renewed_when_forgotten : ∃ vs w, Run Visits.Step .fresh vs w ∧
    ¬Counter.Capped attemptWindow maxAttempts (w.admitted "a") := by
  refine ⟨[.reserve "a" 0, .remember "a" 0] ++ .replicate 10 (.reserve "a" (knownSourceTtl - 1)) ++
    [.reserve "a" knownSourceTtl], _, Visits.run_exec (by decide), ?_⟩
  intro h
  have := (h (knownSourceTtl - 1, knownSourceTtl - 1) (by decide +kernel)).right.right
  revert this
  decide +kernel

end Gateway.AdminLogin
