import Superkiro.Gateway.Failover

namespace Gateway

namespace Attempt

variable (a : Attempt)

def error? : Option ProviderError :=
  match a.outcome with
  | .ok _    => none
  | .error e => some e

-- The target refused the request.
def Refuses : Prop := ∃ e, a.outcome = .error e ∧ e.targetRefusal

-- The attempt failed for its key alone.
def KeyProblem : Prop := ∃ e, a.outcome = .error e ∧ e.ownKeyProblem

-- A failure the chain goes on after.
def GoesOn : Prop :=
  ∃ e, a.outcome = .error e ∧ (e.worthAnotherAttempt || e.targetRefusal) ∧ a.late = false

end Attempt

def attempts (log : List Event) : List Attempt :=
  log.filterMap fun
    | .attempt a     => some a
    | .passedOver .. => none

@[simp]
theorem attempts_nil : attempts [] = [] := rfl

@[simp]
theorem attempts_attempt {log : List Event} {a : Attempt} :
    attempts (log ++ [.attempt a]) = attempts log ++ [a] := by
  simp [attempts]

@[simp]
theorem attempts_passedOver {log : List Event} {i now : Nat} {pool : ProviderKeyPool} :
    attempts (log ++ [.passedOver i pool now]) = attempts log := by
  simp [attempts]

-- The keys of a target that were tried, in order.
def triedKeys (log : List Event) (i : Nat) : List String :=
  ((attempts log).filter (·.target = i)).map (·.key)

def Tried (log : List Event) (i : Nat) : Prop := ∃ a ∈ attempts log, a.target = i

def Refused (log : List Event) (i : Nat) : Prop := ∃ a ∈ attempts log, a.target = i ∧ a.Refuses

section

variable (chain : List Target)

-- The chain came to the target, and tried it unless it had no eligible key.
def Considered (log : List Event) (i : Nat) : Prop :=
  Tried log i ∨ ∃ target pool now, chain[i]? = some target ∧ .passedOver i pool now ∈ log ∧
    pool.hasEligibleKey now [] (some target.model) = false

-- What holds of an attempt that follows `log`.
structure Admits (log : List Event) (a : Attempt) : Prop where
  fresh  : a.key ∉ triedKeys log a.target
  opened : ¬Refused log a.target
  turn   : Tried log a.target →
    (∃ b, log.getLast? = some (.attempt b) ∧ b.target = a.target ∧ b.KeyProblem) ∨
      ∀ i < chain.length, Considered chain log i

def Admitted (log : List Event) : Prop :=
  ∀ before a after, log = before ++ .attempt a :: after → Admits chain before a

end

theorem concat_split {α} {log before after : List α} {x y : α}
    (h : log ++ [x] = before ++ y :: after) :
    log = before ∧ x = y ∨ ∃ rest, log = before ++ y :: rest := by
  cases List.eq_nil_or_concat after
  case inl hn =>
    subst hn
    have ⟨hb, hx⟩ := List.append_inj' h rfl
    exact .inl ⟨hb, by simpa using hx⟩
  case inr hc =>
    have ⟨rest, z, hr⟩ := hc
    subst hr
    have h : log ++ [x] = (before ++ y :: rest) ++ [z] := by simpa using h
    exact .inr ⟨rest, (List.append_inj' h rfl).left⟩

section

variable {chain : List Target} {log : List Event} {i j now : Nat} {a : Attempt}
variable {pool : ProviderKeyPool}

theorem Admitted.attempt (h : Admitted chain log) (ha : Admits chain log a) :
    Admitted chain (log ++ [.attempt a]) := by
  intro before b after hs
  cases concat_split hs
  case inl hl =>
    have ⟨hb, he⟩ := hl
    injection he with he
    subst hb he
    exact ha
  case inr hr =>
    have ⟨rest, hl⟩ := hr
    exact h before b rest hl

theorem Admitted.passedOver (h : Admitted chain log) :
    Admitted chain (log ++ [.passedOver i pool now]) := by
  intro before b after hs
  cases concat_split hs
  case inl hl => cases hl.right
  case inr hr =>
    have ⟨rest, hl⟩ := hr
    exact h before b rest hl

theorem tried_attempt : Tried (log ++ [.attempt a]) j ↔ Tried log j ∨ a.target = j := by
  simp only [Tried, attempts_attempt, List.mem_append, List.mem_singleton]
  constructor
  case mp =>
    intro ⟨b, hb, hj⟩
    cases hb
    case inl hb => exact .inl ⟨b, hb, hj⟩
    case inr hb => exact .inr (hb ▸ hj)
  case mpr =>
    intro h
    cases h
    case inl h => exact h.imp fun _ h => ⟨.inl h.left, h.right⟩
    case inr h => exact ⟨a, .inr rfl, h⟩

@[simp]
theorem tried_passedOver : Tried (log ++ [.passedOver i pool now]) j ↔ Tried log j := by
  simp [Tried]

theorem refused_attempt :
    Refused (log ++ [.attempt a]) j ↔ Refused log j ∨ a.target = j ∧ a.Refuses := by
  simp only [Refused, attempts_attempt, List.mem_append, List.mem_singleton]
  constructor
  case mp =>
    intro ⟨b, hb, hj⟩
    cases hb
    case inl hb => exact .inl ⟨b, hb, hj⟩
    case inr hb => exact .inr (hb ▸ hj)
  case mpr =>
    intro h
    cases h
    case inl h => exact h.imp fun _ h => ⟨.inl h.left, h.right⟩
    case inr h => exact ⟨a, .inr rfl, h⟩

theorem triedKeys_attempt :
    triedKeys (log ++ [.attempt a]) j = triedKeys log j ++ if a.target = j then [a.key] else [] := by
  simp only [triedKeys, attempts_attempt, List.filter_append, List.map_append]
  split <;> simp_all

@[simp]
theorem triedKeys_passedOver :
    triedKeys (log ++ [.passedOver i pool now]) j = triedKeys log j := by
  simp [triedKeys]

@[simp]
theorem refused_passedOver : Refused (log ++ [.passedOver i pool now]) j ↔ Refused log j := by
  simp [Refused]

theorem triedKeys_eq_nil : triedKeys log i = [] ↔ ¬Tried log i := by
  simp [triedKeys, Tried]

theorem Considered.append {more : List Event} (h : Considered chain log i) :
    Considered chain (log ++ more) i := by
  cases h
  case inl h =>
    have ⟨b, hb, ht⟩ := h
    refine .inl ⟨b, ?_, ht⟩
    rw [attempts, List.filterMap_append]
    exact List.mem_append_left _ hb
  case inr h =>
    have ⟨target, pool, now, ht, hm, he⟩ := h
    exact .inr ⟨target, pool, now, ht, List.mem_append_left _ hm, he⟩

end

-- What the loops keep, with so many attempts left of `limit`.
structure Inv (chain : List Target) (limit left : Nat) (p : Progress) : Prop where
  count       : (attempts p.log).length + left = limit
  tried       : ∀ i, p.tried i = triedKeys p.log i
  refused     : ∀ i, p.refused i = true ↔ Refused p.log i
  errors      : p.errors = (attempts p.log).filterMap (·.error?)
  goesOn      : ∀ a ∈ attempts p.log, a.GoesOn
  unavailable : ∀ e, p.unavailable ≠ some (.nonRetryable e)
  admitted    : Admitted chain p.log

-- Where a pass is, with the targets before `i` behind it.
structure Before (chain : List Target) (p : Progress) (i : Nat) : Prop where
  behind : p.firstPass → ∀ j < i, Considered chain p.log j
  ahead  : p.firstPass → ∀ j, i ≤ j → ¬Tried p.log j
  later  : p.firstPass = false → ∀ j < chain.length, Considered chain p.log j

-- Where a pass is at target `i`, whose last key failed for itself if it has been tried.
structure At (chain : List Target) (p : Progress) (i : Nat) : Prop where
  behind : p.firstPass → ∀ j < i, Considered chain p.log j
  ahead  : p.firstPass → ∀ j, i < j → ¬Tried p.log j
  here   : p.firstPass → Tried p.log i →
    ∃ a, p.log.getLast? = some (.attempt a) ∧ a.target = i ∧ a.KeyProblem
  later  : p.firstPass = false → ∀ j < chain.length, Considered chain p.log j

section

variable {chain : List Target} {limit left i : Nat} {p q : Progress} {target : Target}

theorem Before.at (h : Before chain p i) : At chain p i where
  behind := h.behind
  ahead hf j hj := h.ahead hf j (Nat.le_of_lt hj)
  here hf ht := absurd ht (h.ahead hf i (Nat.le_refl i))
  later := h.later

-- The target is behind once it's considered.
theorem At.past (h : At chain p i) (hc : p.firstPass → Considered chain p.log i) :
    Before chain p (i + 1) where
  behind hf j hj := by
    cases Nat.lt_succ_iff_lt_or_eq.mp hj
    case inl hj => exact h.behind hf j hj
    case inr hj => exact hj ▸ hc hf
  ahead hf j hj := h.ahead hf j hj
  later := h.later

theorem At.turn (h : At chain p i) (ht : Tried p.log i) :
    (∃ b, p.log.getLast? = some (.attempt b) ∧ b.target = i ∧ b.KeyProblem) ∨
      ∀ j < chain.length, Considered chain p.log j := by
  cases hf : p.firstPass
  case true => exact .inl (h.here hf ht)
  case false => exact .inr (h.later hf)

variable (u : Upstreams) (cooldown nowSecs : Nat) {key : ProviderKey} {error : GovernanceError}

-- Selecting a key changes the pools only.
structure Selected (p q : Progress) : Prop where
  tried       : q.tried = p.tried
  refused     : q.refused = p.refused
  errors      : q.errors = p.errors
  unavailable : q.unavailable = p.unavailable
  firstPass   : q.firstPass = p.firstPass
  attempted   : q.attempted = p.attempted
  log         : q.log = p.log

theorem select_frame {r : Except GovernanceError ProviderKey}
    (h : p.select u nowSecs target i = (r, q)) : Selected p q := by
  have hq := congrArg Prod.snd h
  subst hq
  constructor <;> rfl

theorem select_fresh (h : p.select u nowSecs target i = (.ok key, q)) : key.id ∉ p.tried i :=
  ProviderKeyPool.not_mem_of_selected (congrArg Prod.fst h)

theorem select_none (h : p.select u nowSecs target i = (.error error, q)) :
    (q.pools target.pool).hasEligibleKey (q.now u nowSecs) (p.tried i) (some target.model) = false ∧
      ∀ e, error ≠ .nonRetryable e := by
  have ⟨hp, he⟩ := ProviderKeyPool.not_eligible_of_unselected (congrArg Prod.fst h)
  have hq := congrArg Prod.snd h
  subst hq
  constructor
  case right => exact fun e => ProviderKeyPool.unselected_ne (congrArg Prod.fst h)
  case left =>
    simp only [Progress.select, Progress.setPool, Function.update_self]
    rw [hp]
    exact he

theorem Selected.inv (h : Selected p q) (hi : Inv chain limit left p) : Inv chain limit left q := by
  constructor <;> simp only [h.log, h.tried, h.refused, h.errors, h.unavailable]
  case count => exact hi.count
  case tried => exact hi.tried
  case refused => exact hi.refused
  case errors => exact hi.errors
  case goesOn => exact hi.goesOn
  case unavailable => exact hi.unavailable
  case admitted => exact hi.admitted

theorem Selected.at (h : Selected p q) (ha : At chain p i) : At chain q i := by
  constructor <;> simp only [h.log, h.firstPass]
  case behind => exact ha.behind
  case ahead => exact ha.ahead
  case here => exact ha.here
  case later => exact ha.later

theorem Inv.passOver (hi : Inv chain limit left p) (hn : ∀ e, error ≠ .nonRetryable e) :
    Inv chain limit left (p.passOver u nowSecs target i error) := by
  constructor <;> simp only [Progress.passOver, attempts_passedOver, triedKeys_passedOver,
    refused_passedOver]
  case count => exact hi.count
  case tried => exact hi.tried
  case refused => exact hi.refused
  case errors => exact hi.errors
  case goesOn => exact hi.goesOn
  case admitted => exact hi.admitted.passedOver
  case unavailable =>
    intro e
    split
    case isTrue => exact fun h => hn e (Option.some.inj h)
    case isFalse => exact hi.unavailable e

-- A target that is passed over has been tried, or has no eligible key.
theorem At.passOver (ha : At chain p i) (hi : Inv chain limit left p) (ht : chain[i]? = some target)
    (hn : (p.pools target.pool).hasEligibleKey (p.now u nowSecs) (p.tried i)
      (some target.model) = false) :
    Before chain (p.passOver u nowSecs target i error) (i + 1) := by
  have hc : Considered chain (p.passOver u nowSecs target i error).log i := by
    by_cases htr : Tried p.log i
    case pos => exact Considered.append (.inl htr)
    case neg =>
      have he : p.tried i = [] := (hi.tried i).trans (triedKeys_eq_nil.mpr htr)
      rw [he] at hn
      exact .inr ⟨target, _, _, ht, List.mem_append_right _ (List.mem_singleton.mpr rfl), hn⟩
  constructor
  case behind =>
    intro hp j hj
    cases Nat.lt_succ_iff_lt_or_eq.mp hj
    case inl hj => exact (ha.behind hp j hj).append
    case inr hj => exact hj ▸ hc
  case ahead => exact fun hp j hj h => ha.ahead hp j hj (tried_passedOver.mp h)
  case later => exact fun hp j hj => (ha.later hp j hj).append

end

section

variable {chain : List Target} {limit left i : Nat} {p : Progress} {target : Target}
variable (u : Upstreams) (cooldown nowSecs : Nat) {key : ProviderKey} {error : ProviderError}

-- An attempt with a key of target `i`, apart from what it does to the pools.
structure Made (p : Progress) (i : Nat) (k : ProviderKey) (a : Attempt) (q : Progress) : Prop where
  target      : a.target = i
  key         : a.key = k.id
  log         : q.log = p.log ++ [.attempt a]
  tried       : q.tried = Function.update p.tried i (p.tried i ++ [k.id])
  refused     : q.refused = p.refused
  errors      : q.errors = p.errors
  unavailable : q.unavailable = p.unavailable
  firstPass   : q.firstPass = p.firstPass
  attempted   : q.attempted = true

variable {a : Attempt} {q : Progress}

theorem made_frame :
    Made p i key ((p.begin i key).attemptWithKey u cooldown nowSecs target i key).1
      ((p.begin i key).attemptWithKey u cooldown nowSecs target i key).2 := by
  constructor <;> rfl

-- A key that is not excluded may be tried on a target that has not refused.
theorem Made.admits (h : Made p i key a q) (hi : Inv chain limit left p) (ha : At chain p i)
    (hr : p.refused i = false) (hk : key.id ∉ p.tried i) : Admits chain p.log a := by
  constructor <;> rw [h.target]
  case fresh => rw [h.key, ← hi.tried i]; exact hk
  case opened =>
    intro hf
    have := (hi.refused i).mpr hf
    rw [hr] at this
    cases this
  case turn => exact ha.turn

theorem Made.failed (h : Made p i key a q) (hi : Inv chain limit (left + 1) p) (ha : At chain p i)
    (hr : p.refused i = false) (hk : key.id ∉ p.tried i) (he : a.outcome = .error error)
    (hg : a.GoesOn) : Inv chain limit left (q.failed u i key error) := by
  have hadm := h.admits hi ha hr hk
  constructor <;> simp only [Progress.failed, h.log, h.tried, h.refused, h.errors, h.unavailable,
    attempts_attempt]
  case count =>
    have := hi.count
    rw [List.length_append, List.length_singleton]
    omega
  case tried =>
    intro j
    rw [triedKeys_attempt, h.target, h.key, ← hi.tried j]
    by_cases hj : i = j
    case pos => subst hj; simp
    case neg => simp [hj, Function.update_of_ne (Ne.symm hj)]
  case refused =>
    intro j
    rw [refused_attempt, h.target]
    have hra : a.Refuses ↔ error.targetRefusal = true := by simp [Attempt.Refuses, he]
    by_cases hj : i = j
    case pos =>
      subst hj
      have hn : ¬Refused p.log i := fun hf => by simp [(hi.refused i).mpr hf] at hr
      simp [hra, hn]
    case neg => simp [hj, Function.update_of_ne (Ne.symm hj), hi.refused j]
  case errors =>
    have ha : a.error? = some error := by simp [Attempt.error?, he]
    rw [List.filterMap_append, hi.errors]
    simp [ha]
  case goesOn =>
    intro b hb
    cases List.mem_append.mp hb
    case inl hb => exact hi.goesOn b hb
    case inr hb => exact List.mem_singleton.mp hb ▸ hg
  case unavailable =>
    intro e
    split
    case isTrue => exact (Option.some_ne_none _).symm
    case isFalse => exact hi.unavailable e
  case admitted => exact hi.admitted.attempt hadm

theorem considered_made (h : Made p i key a q) : Considered chain q.log i := by
  left
  rw [h.log, tried_attempt]
  exact .inr h.target

-- After a key's own problem, the target's next key is its turn.
theorem Made.again (h : Made p i key a q) (ha : At chain p i) (hk : a.KeyProblem) :
    At chain (q.failed u i key error) i := by
  constructor <;> simp only [Progress.failed, h.log, h.firstPass]
  case behind => exact fun hp j hj => (ha.behind hp j hj).append
  case later => exact fun hp j hj => (ha.later hp j hj).append
  case here => exact fun _ _ => ⟨a, List.getLast?_concat, h.target, hk⟩
  case ahead =>
    intro hp j hj ht
    cases tried_attempt.mp ht
    case inl ht => exact ha.ahead hp j hj ht
    case inr ht => exact absurd (h.target.symm.trans ht) (Nat.ne_of_lt hj)

theorem Made.past (h : Made p i key a q) (ha : At chain p i) :
    Before chain (q.failed u i key error) (i + 1) := by
  constructor <;> simp only [Progress.failed, h.firstPass]
  case later => intro hp j hj; rw [h.log]; exact (ha.later hp j hj).append
  case behind =>
    intro hp j hj
    cases Nat.lt_succ_iff_lt_or_eq.mp hj
    case inl hj => rw [h.log]; exact (ha.behind hp j hj).append
    case inr hj => exact hj ▸ considered_made h
  case ahead =>
    intro hp j hj ht
    rw [h.log] at ht
    cases tried_attempt.mp ht
    case inl ht => exact ha.ahead hp j hj ht
    case inr ht => exact absurd (h.target.symm.trans ht) (Nat.ne_of_lt hj)

end

-- A chain that returned from within its loops: served, or with a failure it doesn't go on after.
structure Ended (chain : List Target) (limit : Nat) (p : Progress) (r : ChainResult) : Prop where
  bounded  : (attempts p.log).length ≤ limit
  admitted : Admitted chain p.log
  last     : ∃ a, p.log.getLast? = some (.attempt a) ∧
    ((∃ result, r = .ok result ∧ a.outcome = .ok () ∧ a.target = result.candidateIndex ∧
        a.key = result.key.id) ∨
      ∃ e, r = .error (.nonRetryable e) ∧ a.outcome = .error e ∧ ¬a.GoesOn)

-- What a loop keeps that began with `left` attempts and may have to reach target `i` next.
def Flow.Keeps (chain : List Target) (limit i : Nat) : Flow → Prop
  | .next left p => Inv chain limit left p ∧ (0 < left → Before chain p i)
  | .done p r    => Ended chain limit p r

section

variable {chain : List Target} {limit left i : Nat} {p : Progress} {target : Target}

theorem Made.ended {key : ProviderKey} {a : Attempt} {q : Progress} {r : ChainResult}
    (h : Made p i key a q) (hi : Inv chain limit (left + 1) p) (ha : At chain p i)
    (hr : p.refused i = false) (hk : key.id ∉ p.tried i)
    (hl : (∃ result, r = .ok result ∧ a.outcome = .ok () ∧ a.target = result.candidateIndex ∧
        a.key = result.key.id) ∨
      ∃ e, r = .error (.nonRetryable e) ∧ a.outcome = .error e ∧ ¬a.GoesOn) :
    Ended chain limit q r where
  bounded := by
    have := hi.count
    rw [h.log, attempts_attempt, List.length_append, List.length_singleton]
    omega
  admitted := h.log ▸ hi.admitted.attempt (h.admits hi ha hr hk)
  last := ⟨a, h.log ▸ List.getLast?_concat, hl⟩

variable (u : Upstreams) (cooldown nowSecs : Nat)

theorem tryTarget_keeps (ht : chain[i]? = some target) (hi : Inv chain limit left p)
    (ha : 0 < left → At chain p i) :
    (tryTarget u cooldown nowSecs target i left p).Keeps chain limit (i + 1) := by
  induction left generalizing p
  case zero => exact ⟨hi, fun h => absurd h (Nat.lt_irrefl 0)⟩
  case succ left ih =>
    have ha := ha (Nat.succ_pos left)
    rw [tryTarget]
    split
    case isTrue hr =>
      refine ⟨hi, fun _ => ha.past fun _ => .inl ?_⟩
      have ⟨b, hb, hj, _⟩ := (hi.refused i).mp hr
      exact ⟨b, hb, hj⟩
    case isFalse hr =>
      split
      case h_1 error q hs =>
        have hf := select_frame u nowSecs hs
        have ⟨hn, he⟩ := select_none u nowSecs hs
        rw [← hf.tried] at hn
        have hp := hf.at ha
        exact ⟨(hf.inv hi).passOver u nowSecs he,
          fun _ => hp.passOver u nowSecs (hf.inv hi) ht hn⟩
      case h_2 key q hs =>
        have hf := select_frame u nowSecs hs
        have hk := select_fresh u nowSecs hs
        have hi := hf.inv hi
        have ha := hf.at ha
        rw [← hf.tried] at hk
        have hr : q.refused i = false := by rw [hf.refused]; exact Bool.eq_false_iff.mpr hr
        have hm : Made q i key ((q.begin i key).attemptWithKey u cooldown nowSecs target i key).1
            ((q.begin i key).attemptWithKey u cooldown nowSecs target i key).2 :=
          made_frame u cooldown nowSecs
        generalize (q.begin i key).attemptWithKey u cooldown nowSecs target i key = m at hm
        simp only
        split
        case h_1 ho => exact hm.ended hi ha hr hk (.inl ⟨_, rfl, ho, hm.target, hm.key⟩)
        case h_2 error ho =>
          split
          case isFalse hg =>
            refine hm.ended hi ha hr hk (.inr ⟨error, rfl, ho, fun ⟨e, he, hw, hl⟩ => hg ?_⟩)
            injection ho.symm.trans he with he
            rw [he, hw, hl]
            rfl
          case isTrue hg =>
            rw [Bool.and_eq_true, Bool.not_eq_true'] at hg
            have hinv := hm.failed u hi ha hr hk ho ⟨error, ho, hg.left, hg.right⟩
            split
            case isTrue hp => exact ih hinv fun _ => hm.again u ha ⟨error, ho, hp⟩
            case isFalse => exact ⟨hinv, fun _ => hm.past u ha⟩

theorem pass_keeps {targets : List Target} (hd : chain.drop i = targets)
    (hi : Inv chain limit left p) (hb : 0 < left → Before chain p i) :
    (pass u cooldown nowSecs (targets.zipIdx i) left p).Keeps chain limit (i + targets.length) := by
  induction targets generalizing i left p
  case nil => exact ⟨hi, hb⟩
  case cons target rest ih =>
    have ht : chain[i]? = some target := by
      rw [← Nat.add_zero i, ← List.getElem?_drop, hd]
      rfl
    have hd : chain.drop (i + 1) = rest := by
      rw [← List.drop_drop, hd]
      rfl
    have hk := tryTarget_keeps u cooldown nowSecs ht hi
      fun h => (hb h).at
    rw [List.zipIdx_cons, pass, List.length_cons, Nat.add_comm rest.length, ← Nat.add_assoc]
    cases htt : tryTarget u cooldown nowSecs target i left p
    case done => rw [htt] at hk; exact hk
    case next => rw [htt] at hk; exact ih hd hk.left hk.right

theorem Before.considered (h : Before chain p chain.length) :
    ∀ j < chain.length, Considered chain p.log j := by
  cases hf : p.firstPass
  case true => exact h.behind hf
  case false => exact h.later hf

theorem passes_keeps {fuel : Nat} (hi : Inv chain limit left p)
    (hb : 0 < left → Before chain p 0) :
    (passes u cooldown nowSecs chain fuel left p).Keeps chain limit 0 := by
  induction fuel generalizing left p
  case zero => exact ⟨hi, hb⟩
  case succ fuel ih =>
    rw [passes]
    split
    case isTrue => exact ⟨hi, hb⟩
    case isFalse =>
      have hk := pass_keeps u cooldown nowSecs
        (p := { p with attempted := false }) (chain.drop_zero) ⟨hi.count, hi.tried, hi.refused,
          hi.errors, hi.goesOn, hi.unavailable, hi.admitted⟩
        fun h => ⟨(hb h).behind, (hb h).ahead, (hb h).later⟩
      cases hp : pass u cooldown nowSecs chain.zipIdx left { p with attempted := false }
      case done => rw [hp] at hk; exact hk
      case next l q =>
        rw [hp, Nat.zero_add] at hk
        have hi : Inv chain limit l { q with firstPass := false } :=
          ⟨hk.left.count, hk.left.tried, hk.left.refused, hk.left.errors, hk.left.goesOn,
            hk.left.unavailable, hk.left.admitted⟩
        have hb : 0 < l → Before chain { q with firstPass := false } 0 := fun h =>
          ⟨nofun, nofun, fun _ => (hk.right h).considered⟩
        simp only [Flow.bind]
        split
        case isTrue => exact ih hi hb
        case isFalse => exact ⟨hi, hb⟩

-- Each target that is tried costs an attempt.
theorem tryTarget_left {l : Nat} {q : Progress}
    (h : tryTarget u cooldown nowSecs target i left p = .next l q) :
    l ≤ left ∧ (q.attempted → p.attempted ∨ l < left) := by
  induction left generalizing p
  case zero => cases h; exact ⟨Nat.le_refl 0, .inl⟩
  case succ left ih =>
    rw [tryTarget] at h
    split at h
    case isTrue => cases h; exact ⟨Nat.le_refl _, .inl⟩
    case isFalse =>
      split at h
      case h_1 hs =>
        cases h
        exact ⟨Nat.le_refl _, fun ha => .inl ((select_frame u nowSecs hs).attempted ▸ ha)⟩
      case h_2 =>
        simp only at h
        split at h
        case h_1 => cases h
        case h_2 =>
          split at h
          case isFalse => cases h
          case isTrue =>
            split at h
            case isFalse => cases h; exact ⟨Nat.le_succ _, fun _ => .inr (Nat.lt_succ_self _)⟩
            case isTrue =>
              have hl := Nat.lt_succ_of_le (ih h).left
              exact ⟨Nat.le_of_lt hl, fun _ => .inr hl⟩

theorem pass_left {targets : List (Target × Nat)} {l : Nat} {q : Progress}
    (h : pass u cooldown nowSecs targets left p = .next l q) :
    l ≤ left ∧ (q.attempted → p.attempted ∨ l < left) := by
  induction targets generalizing left p
  case nil => cases h; exact ⟨Nat.le_refl _, .inl⟩
  case cons t rest ih =>
    rw [pass] at h
    cases ht : tryTarget u cooldown nowSecs t.1 t.2 left p
    case done => rw [ht] at h; cases h
    case next l' q' =>
      rw [ht] at h
      have ⟨hl, ha⟩ := tryTarget_left u cooldown nowSecs ht
      have ⟨hl', ha'⟩ := ih h
      refine ⟨hl'.trans hl, fun h => ?_⟩
      cases ha' h
      case inr hlt => exact .inr (Nat.lt_of_lt_of_le hlt hl)
      case inl hq => exact (ha hq).imp_right (Nat.lt_of_le_of_lt hl')

-- More passes than attempts change nothing: the loop ends by itself.
theorem passes_enough {f f' : Nat} (h : left < f) (h' : left < f') :
    passes u cooldown nowSecs chain f left p = passes u cooldown nowSecs chain f' left p := by
  induction left using Nat.strongRecOn generalizing f f' p
  case ind left ih =>
    cases f
    case zero => cases h
    case succ f =>
      cases f'
      case zero => cases h'
      case succ f' =>
        rw [passes, passes]
        split
        case isTrue => rfl
        case isFalse =>
          cases hp : pass u cooldown nowSecs chain.zipIdx left { p with attempted := false }
          case done => rfl
          case next l q =>
            have ⟨_, ha⟩ := pass_left u cooldown nowSecs hp
            simp only [Flow.bind]
            split
            case isFalse => rfl
            case isTrue hq =>
              cases ha hq
              case inl hn => cases hn
              case inr hl => exact ih l hl (by omega) (by omega)

end

-- What holds of a chain's run, which left `p` and the result `r`.
structure Failover (nowSecs : Nat) (u : Upstreams) (chain : List Target) (limit : Nat) (p : Progress)
    (r : ChainResult) : Prop where
  bounded  : (attempts p.log).length ≤ limit
  admitted : Admitted chain p.log
  served   : ∀ result, r = .ok result → ∃ a, p.log.getLast? = some (.attempt a) ∧
    a.outcome = .ok () ∧ a.target = result.candidateIndex ∧ a.key = result.key.id
  final    : ∀ e, r = .error (.nonRetryable e) →
    (∃ a, p.log.getLast? = some (.attempt a) ∧ a.outcome = .error e ∧ ¬a.GoesOn) ∨
    ((∃ a ∈ attempts p.log, a.outcome = .error e) ∧
      (∀ a ∈ attempts p.log, ∃ e, a.outcome = .error e ∧ e.lasting) ∧
      ∀ i target, chain[i]? = some target →
        (p.pools target.pool).hasEligibleKey (p.now u nowSecs) (triedKeys p.log i)
          (some target.model) → Refused p.log i)

section

variable {chain : List Target} {limit left : Nat} {p : Progress} {r : ChainResult}
variable {u : Upstreams} {nowSecs : Nat}

theorem Ended.failover (h : Ended chain limit p r) : Failover nowSecs u chain limit p r where
  bounded := h.bounded
  admitted := h.admitted
  served result hr := by
    have ⟨a, hl, ha⟩ := h.last
    subst hr
    cases ha
    case inl ha =>
      have ⟨_, he, ho, ht, hk⟩ := ha
      injection he with he
      subst he
      exact ⟨a, hl, ho, ht, hk⟩
    case inr ha => have ⟨_, he, _⟩ := ha; cases he
  final e hr := by
    have ⟨a, hl, ha⟩ := h.last
    subst hr
    cases ha
    case inl ha => have ⟨_, he, _⟩ := ha; cases he
    case inr ha =>
      have ⟨_, he, ho, hg⟩ := ha
      injection he with he
      injection he with he
      subst he
      exact .inl ⟨a, hl, ho, hg⟩

theorem Inv.failover (hi : Inv chain limit left p) :
    Failover nowSecs u chain limit p (.error (p.report u nowSecs chain)) where
  bounded := by
    have := hi.count
    omega
  admitted := hi.admitted
  served _ hr := by cases hr
  final e hr := by
    injection hr with hr
    right
    have herr {e} : e ∈ p.errors ↔ ∃ a ∈ attempts p.log, a.error? = some e := by
      rw [hi.errors, List.mem_filterMap]
    have hout {a : Attempt} {e} : a.error? = some e ↔ a.outcome = .error e := by
      rw [Attempt.error?]
      cases a.outcome <;> simp
    simp only [Progress.report] at hr
    split at hr
    case h_2 =>
      split at hr
      case h_1 error hu => exact absurd (hu.trans (congrArg some hr)) (hi.unavailable e)
      case h_2 => split at hr <;> cases hr
    case h_1 error hf =>
      injection hr with hr
      subst hr
      split at hf
      case isTrue => cases hf
      case isFalse hu =>
        have ⟨hl, hm⟩ := finalRefusal_eq_some hf
        refine ⟨?chosen, ?lasting, ?left⟩
        case chosen => exact (herr.mp hm).imp fun _ h => ⟨h.left, hout.mp h.right⟩
        case lasting =>
          intro a ha
          have ⟨e, he, _⟩ := hi.goesOn a ha
          exact ⟨e, he, hl e (herr.mpr ⟨a, ha, hout.mpr he⟩)⟩
        case left =>
          intro i target ht he
          by_contra hn
          apply hu
          rw [Progress.untried, List.any_eq_true]
          refine ⟨(target, i), List.mem_zipIdx_iff_getElem?.mpr ht, ?_⟩
          have hr : p.refused i = false :=
            Bool.eq_false_iff.mpr fun h => hn ((hi.refused i).mp h)
          dsimp only
          rw [hi.tried i, hr]
          exact he

end

theorem execute_chain_failover (u : Upstreams) (cooldown nowSecs maxAttempts : Nat)
    (chain : List Target) (pools : Nat → ProviderKeyPool) :
    Failover nowSecs u chain (max 1 (min maxAttempts 3))
      (executeChain u cooldown nowSecs chain maxAttempts pools).1
      (executeChain u cooldown nowSecs chain maxAttempts pools).2 := by
  have hk : (passes u cooldown nowSecs chain (attemptLimit maxAttempts + 1)
      (attemptLimit maxAttempts) (.start pools)).Keeps chain (attemptLimit maxAttempts) 0 :=
    passes_keeps u cooldown nowSecs
      (by constructor <;> simp [Progress.start, triedKeys, Refused, Admitted])
      fun _ => by constructor <;> simp [Progress.start, Tried]
  rw [executeChain]
  cases hp : passes u cooldown nowSecs chain (attemptLimit maxAttempts + 1)
    (attemptLimit maxAttempts) (.start pools)
  case done p r =>
    rw [hp] at hk
    exact hk.failover
  case next left p =>
    rw [hp] at hk
    have hi : Inv chain (attemptLimit maxAttempts) left (p.arrive u) :=
      ⟨hk.left.count, hk.left.tried, hk.left.refused, hk.left.errors, hk.left.goesOn,
        hk.left.unavailable, hk.left.admitted⟩
    exact hi.failover

def sampleKey (id : String) (cooldownUntil : Option Nat) : KeyEntry where
  key                 := ⟨none, id, true, 1, .healthy, cooldownUntil⟩
  currentWeight       := 0
  consecutiveFailures := 0
  lastError           := none

-- Two keys of the first provider, one of the second that is cooling down, one of the third.
def samplePools : Nat → ProviderKeyPool
  | 0 => ⟨⟨"first", true⟩, [sampleKey "a" none, sampleKey "b" none]⟩
  | 1 => ⟨⟨"second", true⟩, [sampleKey "c" (some 105)]⟩
  | _ => ⟨⟨"third", true⟩, [sampleKey "d" none]⟩

def sampleUpstreams (error : ProviderError) : Upstreams where
  statusText n   := toString n
  clock ticks    := if ticks ≤ 4 then 100 else 110
  others _ pools := pools
  outcome _      := .error error
  late _         := false

def sampleChain : List Target := [⟨0, "m"⟩, ⟨1, "m"⟩, ⟨2, "m"⟩]

def sampleRun (error : ProviderError) : Progress × ChainResult :=
  executeChain (sampleUpstreams error) 60000000000 100 sampleChain 3 samplePools

-- A request too large for one upstream is final at once, with a target left to try; and a key
-- whose cooldown ends during the chain is overtaken by the second key of another target.
theorem execute_chain_overtakes :
    ((sampleRun (.http 413 "")).2 = .error (.nonRetryable (.http 413 "")) ∧
      (ProviderError.http 413 "").lasting = false ∧
      (attempts (sampleRun (.http 413 "")).1.log).map (·.target) = [0] ∧
      ((sampleRun (.http 413 "")).1.pools 2).hasEligibleKey 100 [] (some "m")) ∧
    ((attempts (sampleRun .timeout).1.log).map (fun a => (a.target, a.key)) =
        [(0, "a"), (2, "d"), (0, "b")] ∧
      ProviderError.timeout.ownKeyProblem = false ∧
      ((sampleRun .timeout).1.pools 1).hasEligibleKey ((sampleUpstreams .timeout).clock 6) []
        (some "m")) := by
  decide +kernel

end Gateway
