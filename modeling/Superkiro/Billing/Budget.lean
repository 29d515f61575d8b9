import Superkiro.Lib.Run
import Superkiro.Billing.Exec
import Superkiro.Billing.Spending

namespace Billing

open Except Routing Host

-- An engine, with every classifier call it has granted, the latest first.
structure Routed (F : Type) where
  engine : Engine F
  grants : List Grant

inductive RoutingOp (F : Type)
  | begin (d : RoutingDecision) (reserved now : Nat) (io : Io)
  | finish (d : RoutingDecision) (io : Io)
  | served (id providerId : String) (io : Io)
  | publish (u : ComplexityRoutingUpdate) (now : Nat) (io : Io)
  -- A restart with what memory held, and one with what was last committed.
  | restart (io : Io)
  | reload
  -- What any other operation makes of the engine.
  | others (e : Engine F)

namespace RoutingOp

def clock? : RoutingOp F → Option Nat
  | begin _ _ now _ => some now
  | publish _ now _ => some now
  | finish _ _ | served _ _ _ | restart _ | reload | others _ => none

end RoutingOp

namespace Engine

def routing (e : Engine F) : ComplexityRoutingState := e.tables.complexityRouting

-- Operations other than those of complexity routing leave its state alone. What they commit holds
-- the state there is in memory.
structure Elsewhere (e e' : Engine F) : Prop where
  routing    : e'.routing = e.routing
  persistent : e'.persistent = e.persistent
  disk       : e'.disk = e.disk ∨
    e.persistent ∧ ∃ s, e'.disk = some s ∧ s.tables.complexityRouting = e.routing

-- What is on disk is what is in memory.
def Synced (e : Engine F) : Prop :=
  ∀ s, e.disk = some s → e.persistent ∧ s.tables.complexityRouting = e.routing

-- A commit of a routing state.
structure Routes (e : Engine F) (s : ComplexityRoutingState) (e' : Engine F) : Prop where
  routing    : e'.routing = s
  persistent : e'.persistent = e.persistent
  saved      : e.persistent → ∃ s', e'.disk = some s' ∧ s'.tables.complexityRouting = s
  kept       : ¬e.persistent → e'.disk = e.disk

-- The ways a transaction of the routing state ends.
inductive RoutingEnds (e : Engine F) (txn : Result (Txn F α)) : Result α → Engine F → Prop
  | failed {err e'} : e.Elsewhere e' → RoutingEnds e txn (.error err) e'
  | answered {a} : txn = .ok (.answer a) → RoutingEnds e txn (.ok a) e
  | saved {x s a e'} : txn = .ok x → x.Routes e.tables s a → e.Routes s e' →
    RoutingEnds e txn (.ok a) e'

section

variable {e e' : Engine F} {io : Io} {s : ComplexityRoutingState}

theorem Elsewhere.synced (h : e.Elsewhere e') (hs : e.Synced) : e'.Synced := by
  intro s hd
  rw [h.persistent, h.routing]
  cases h.disk
  case inl he => exact hs s (he ▸ hd)
  case inr hn =>
    have ⟨hp, s', hs', hr⟩ := hn
    rw [hd] at hs'
    injection hs' with hs'
    exact ⟨hp, hs' ▸ hr⟩

theorem Routes.synced (h : e.Routes s e') (hs : e.Synced) : e'.Synced := by
  intro s' hd
  rw [h.persistent, h.routing]
  by_cases hp : e.persistent
  case pos =>
    have ⟨s'', hd', hr⟩ := h.saved hp
    rw [hd] at hd'
    injection hd' with hd'
    exact ⟨hp, hd' ▸ hr⟩
  case neg => exact absurd (hs s' (h.kept hp ▸ hd)).left hp

variable [Host F]

theorem transact_persistent {txn : Result (Txn F α)} :
    (e.transact io txn).2.persistent = e.persistent := by
  have hc (c : Tables F) (pub : Tables F → Tables F) :
      (e.commit io c pub).2.persistent = e.persistent := by
    simp only [commit]
    split
    case h_1 => rfl
    case h_2 =>
      split
      case isTrue => split <;> rfl
      case isFalse => rfl
  cases txn
  case error => rfl
  case ok txn =>
    cases txn
    case answer => rfl
    case write c pub a =>
      have h := hc c pub
      simp only [transact]
      generalize e.commit io c pub = r at h
      obtain ⟨_ | _, e'⟩ := r <;> exact h

theorem transact_routing (e : Engine F) (io : Io) (txn : Result (Txn F α))
    (h : ∀ x, txn = .ok x → (∃ a, x = .answer a) ∨ ∃ s a, x.Routes e.tables s a) :
    RoutingEnds e txn (e.transact io txn).1 (e.transact io txn).2 := by
  have hp : Publishes e.tables txn := by
    intro c pub a ht
    cases h _ ht
    case inl ha => have ⟨_, ha⟩ := ha; cases ha
    case inr hw => have ⟨_, _, hw⟩ := hw; cases hw; rfl
  have ht := transact_cases io hp
  have hper : (e.transact io txn).2.persistent = e.persistent := transact_persistent
  generalize (e.transact io txn).2 = e' at ht hper
  generalize (e.transact io txn).1 = r at ht
  cases ht
  case refused => exact .failed ⟨rfl, rfl, .inl rfl⟩
  case answered => exact .answered rfl
  case unsaved hu => exact .failed ⟨congrArg Tables.complexityRouting hu.tables, hper, .inl hu.disk⟩
  case committed hc =>
    cases h _ rfl
    case inl ha => have ⟨_, ha⟩ := ha; cases ha
    case inr hw =>
      have ⟨s, a, hw⟩ := hw
      cases hw
      have hn := hc.normalized.symm.trans (normalize_of_receipts rfl)
      injection hn with hn
      have hs : e'.routing = s := congrArg Tables.complexityRouting hn
      exact .saved rfl rfl ⟨hs, hper, fun hp => ⟨_, hc.saved hp, hs⟩, hc.kept⟩

end

end Engine

namespace Routing

-- What a step makes of the state and the grants, at a time of its own where it has one.
inductive Moved (s : ComplexityRoutingState) (gs : List Grant) :
    Option Nat → ComplexityRoutingState → List Grant → Prop
  | still {n} : Moved s gs n s gs
  | unclaimed {now d b} : Keepable s now d → d.classifierAttempted = false →
    b = s.budget ∨ s.budget.day ≤ now / day ∧ b = rolled s now →
    Moved s gs (some now) (pushed s now d b) gs
  | claimed {now d c} : Keepable s now d → Claimable s now d c →
    Moved s gs (some now) (pushed s now d (spend (rolled s now) d.classifierCostMicroCny))
      (grantOf d :: gs)
  | finished {n old d} : Finished s old d → Moved s gs n
    { s with decisions := replace s.decisions d, budget := corrected s.budget old d }
    (Routing.settle d.invocationId d.classifierCostMicroCny gs)
  | served {n d id} : s.decisions.find? (·.invocationId = d.invocationId) = some d →
    (validateDecision d = .ok () →
      validateDecision { d with servedProviderId := some id } = .ok ()) →
    Moved s gs n
      { s with decisions := replace s.decisions { d with servedProviderId := some id } } gs
  | published {now c} : validateConfig c = .ok () →
    Moved s gs (some now) (prune { s with config := c } now) gs

section

variable {s s' : ComplexityRoutingState} {gs gs' : List Grant} {n : Option Nat}
variable {d : RoutingDecision}

theorem Moved.accounted (h : Moved s gs n s' gs') (ha : Accounted s gs) : Accounted s' gs' := by
  cases h
  case still => exact ha
  case unclaimed hk hn hb => exact ha.unclaimed hk hn hb
  case claimed hk hc => exact ha.claimed hk hc
  case finished hf => exact ha.finished hf
  case served hd hv => exact ha.served hd (hv (ha.valid _ (List.mem_of_find?_eq_some hd)))
  case published hc => exact ha.prune hc

-- The budget's day never goes back.
theorem Moved.day_le (h : Moved s gs n s' gs') : s.budget.day ≤ s'.budget.day := by
  cases h
  case still => exact Nat.le_refl _
  case unclaimed hb =>
    cases hb
    case inl he => exact Nat.le_of_eq (congrArg RoutingBudget.day he.symm)
    case inr hr =>
      have ⟨hf, he⟩ := hr
      simp only [pushed, he, rolled]
      split
      case isTrue => exact hf
      case isFalse => exact Nat.le_refl _
  case claimed hc =>
    simp only [pushed, spend, rolled]
    split
    case isTrue => exact hc.forward
    case isFalse => exact Nat.le_refl _
  case finished =>
    simp only [corrected]
    split <;> exact Nat.le_refl _
  case served => exact Nat.le_refl _
  case published => exact Nat.le_refl _

def Holds (s : ComplexityRoutingState) (id : String) (created : Nat) : Prop :=
  ∃ d ∈ s.decisions, d.invocationId = id ∧ d.createdAtSecs = created

theorem Holds.prune {id : String} {created now : Nat} (h : Holds s id created) :
    Holds (prune s now) id created ∨ created + retention < now := by
  have ⟨d, hd, hi, hc⟩ := h
  cases hr : retained now d
  case true => exact .inl ⟨d, List.mem_filter.mpr ⟨hd, hr⟩, hi, hc⟩
  case false =>
    right
    have := of_decide_eq_false hr
    omega

theorem Holds.replace {id : String} {created : Nat} {old : RoutingDecision}
    (h : Holds s id created)
    (hf : s.decisions.find? (·.invocationId = d.invocationId) = some old)
    (hc : d.createdAtSecs = old.createdAtSecs) {b : RoutingBudget} :
    Holds { s with decisions := replace s.decisions d, budget := b } id created := by
  have ⟨l, r, he, hr, hi⟩ := replace_split hf
  have ⟨d', hd', hi', hc'⟩ := h
  simp only [Holds, hr]
  rw [he] at hd'
  cases List.mem_append.mp hd'
  case inl hl => exact ⟨d', List.mem_append_left _ hl, hi', hc'⟩
  case inr hr =>
    cases List.mem_cons.mp hr
    case inl ho => subst ho; exact ⟨d, by simp, hi.symm.trans hi', hc.trans hc'⟩
    case inr hr => exact ⟨d', by simp [hr], hi', hc'⟩

-- A decision stays until the clock is past its retention.
theorem Moved.holds {id : String} {created : Nat} (h : Moved s gs n s' gs')
    (hh : Holds s id created) :
    Holds s' id created ∨ ∃ now, n = some now ∧ created + retention < now := by
  have pushed_holds {now : Nat} {d : RoutingDecision} {b : RoutingBudget} :
      Holds (pushed s now d b) id created ∨ created + retention < now := by
    refine hh.prune.imp_left fun ⟨d', hd', hi, hc⟩ => ?_
    exact ⟨d', List.mem_append_left _ hd', hi, hc⟩
  cases h
  case still => exact .inl hh
  case unclaimed => exact pushed_holds.imp_right fun h => ⟨_, rfl, h⟩
  case claimed => exact pushed_holds.imp_right fun h => ⟨_, rfl, h⟩
  case finished hf => exact .inl (hh.replace hf.found hf.created)
  case served d id hd _ =>
    exact .inl (hh.replace (d := { d with servedProviderId := some id }) (b := s.budget) hd rfl)
  case published c _ =>
    have hh : Holds { s with config := c } id created := hh
    exact hh.prune.imp_right fun h => ⟨_, rfl, h⟩

end

-- The call that the answer to a begun decision reserves.
def grant (reserved now : Nat) : Result (RoutingDecision × Bool) → Option Grant
  | .ok (d, true) => some ⟨d.invocationId, now, reserved⟩
  | _             => none

end Routing

namespace Routed

section

variable [Host F] [RoutingHost]

-- The classifier call an operation grants.
def granted (r : Routed F) : RoutingOp F → Option Grant
  | .begin d reserved now io =>
    grant reserved now (r.engine.beginRoutingDecision io d reserved now).1
  | _ => none

-- A decision that waits for its classifier is finished for what the call costs in the end.
def finished (r : Routed F) (d : RoutingDecision) (answer : Result RoutingDecision) : List Grant :=
  let waits := (r.engine.routing.decisions.find? (·.invocationId = d.invocationId)).any (·.pending)
  match answer, waits with
  | .ok d', true => Routing.settle d'.invocationId d'.classifierCostMicroCny r.grants
  | _, _         => r.grants

def exec (r : Routed F) (op : RoutingOp F) : Routed F :=
  match op with
  | .begin d reserved now io =>
    ⟨(r.engine.beginRoutingDecision io d reserved now).2, (r.granted op).toList ++ r.grants⟩
  | .finish d io             =>
    let answer := r.engine.finishRoutingDecision io d
    ⟨answer.2, r.finished d answer.1⟩
  | .served id providerId io => ⟨(r.engine.recordRoutingServed io id providerId).2, r.grants⟩
  | .publish u now io        => ⟨(r.engine.publishComplexityRouting io u now).2, r.grants⟩
  | .restart io              => ⟨r.engine.restart io, r.grants⟩
  | .reload                  => ⟨r.engine.reload, r.grants⟩
  | .others e                => ⟨e, r.grants⟩

def Step (r : Routed F) (op : RoutingOp F) (r' : Routed F) : Prop :=
  r' = r.exec op ∧ ∀ {e}, op = .others e → r.engine.Elsewhere e

variable {r r' : Routed F} {op : RoutingOp F} {d : RoutingDecision} {reserved now : Nat} {io : Io}

-- What an operation does to the routing state, the grants and the disk.
structure Turned (r r' : Routed F) (n : Option Nat) : Prop where
  moved  : Moved r.engine.routing r.grants n r'.engine.routing r'.grants
  synced : r.engine.Synced → r'.engine.Synced

theorem begin_turned :
    Turned r (r.exec (.begin d reserved now io)) (some now) ∧
    ∀ g, r.granted (.begin d reserved now io) = some g →
      ∃ d' c, g = grantOf d' ∧ Keepable r.engine.routing now d' ∧
        Claimable r.engine.routing now d' c ∧
        Holds (r.exec (.begin d reserved now io)).engine.routing g.invocationId g.grantedAt := by
  simp only [exec, granted]
  have h := Engine.transact_routing r.engine io
    (r.engine.tables.beginRoutingDecision d reserved now) fun x hx => by
      cases begin_cases hx
      case inl h => exact .inl ⟨_, h.choose_spec⟩
      case inr h => have ⟨_, s, _, hw, _⟩ := h; exact .inr ⟨s, _, hw⟩
  rw [Engine.beginRoutingDecision]
  generalize (r.engine.transact io _).1 = answer at h ⊢
  generalize (r.engine.transact io _).2 = e' at h ⊢
  cases h
  case failed he => exact ⟨⟨he.routing ▸ .still, he.synced⟩, nofun⟩
  case answered ha =>
    cases begin_cases ha
    case inl h =>
      have ⟨d', hd⟩ := h
      cases hd
      exact ⟨⟨.still, id⟩, nofun⟩
    case inr h => have ⟨_, _, _, hw, _⟩ := h; cases hw
  case saved hx hw hs =>
    cases begin_cases hx
    case inl h => have ⟨_, hd⟩ := h; rw [hd] at hw; cases hw
    case inr h =>
      have ⟨d', s', _, hw', hc, hb⟩ := h
      have hw := hw.symm.trans hw'
      injection hw with ht hpub ha
      clear hpub
      have hs' := congrArg Tables.complexityRouting ht
      subst ha
      change _ = s' at hs'
      have hr : e'.routing = s' := hs.routing.trans hs'
      cases hb
      case unclaimed hk hp hn hb =>
        rw [hp]
        refine ⟨⟨?_, hs.synced⟩, nofun⟩
        simp only [hr]
        exact .unclaimed hk hn hb
      case claimed c hk hp hcl =>
        have hg : grant reserved now (.ok (d', d'.pending)) = some (grantOf d') := by
          rw [hp]
          simp only [grant, grantOf, hk.created, hc hp]
        rw [hg]
        refine ⟨⟨?_, hs.synced⟩, fun g he => ?_⟩
        case refine_1 =>
          simp only [hr]
          exact .claimed hk hcl
        case refine_2 =>
          injection he with he
          refine ⟨d', c, he.symm, hk, hcl, ?_⟩
          rw [← he, hr]
          exact ⟨d', List.mem_append_right _ (List.mem_singleton.mpr rfl), rfl, rfl⟩

theorem finish_turned : Turned r (r.exec (.finish d io)) none := by
  simp only [exec]
  have h := Engine.transact_routing r.engine io
    (r.engine.tables.finishRoutingDecision d) fun x hx => by
      cases finish_cases hx
      case inl h => have ⟨a, h, _⟩ := h; exact .inl ⟨a, h⟩
      case inr h => have ⟨_, _, _, _, hw⟩ := h; exact .inr ⟨_, _, hw⟩
  rw [Engine.finishRoutingDecision]
  generalize (r.engine.transact io _).1 = answer at h ⊢
  generalize (r.engine.transact io _).2 = e' at h ⊢
  cases h
  case failed he => exact ⟨he.routing ▸ .still, he.synced⟩
  case answered answer ha =>
    cases finish_cases ha
    case inr h => have ⟨_, _, _, _, hw⟩ := h; cases hw
    case inl h =>
      have ⟨old, ho, hf, hp⟩ := h
      cases ho
      have hn : r.finished d (.ok answer) = r.grants := by
        simp [finished, Engine.routing, hf, hp]
      exact ⟨hn ▸ .still, id⟩
  case saved x s' answer hx hw hs =>
    cases finish_cases hx
    case inl h => have ⟨_, ho, _⟩ := h; rw [ho] at hw; cases hw
    case inr h =>
      have ⟨old, d', hi, hf, hw'⟩ := h
      have hw := hw.symm.trans hw'
      injection hw with ht hpub ha
      clear hpub
      subst ha
      have hr := hs.routing.trans (congrArg Tables.complexityRouting ht)
      have hn : r.finished d (.ok answer) =
          Routing.settle answer.invocationId answer.classifierCostMicroCny r.grants := by
        have hf' := hf.found
        rw [hi] at hf'
        simp [finished, Engine.routing, hf', hf.pending]
      refine ⟨?_, hs.synced⟩
      simp only [hr, hn]
      exact .finished hf

theorem served_turned {id providerId : String} :
    Turned r (r.exec (.served id providerId io)) none := by
  simp only [exec]
  have h := Engine.transact_routing r.engine io
    (r.engine.tables.recordRoutingServed id providerId) fun x hx => by
      cases served_cases hx
      case inl h => exact .inl ⟨_, h⟩
      case inr h => have ⟨_, _, _, hw⟩ := h; exact .inr ⟨_, _, hw⟩
  rw [Engine.recordRoutingServed]
  generalize (r.engine.transact io _).1 = answer at h ⊢
  generalize (r.engine.transact io _).2 = e' at h ⊢
  cases h
  case failed he => exact ⟨he.routing ▸ .still, he.synced⟩
  case answered => exact ⟨.still, fun h => h⟩
  case saved hx hw hs =>
    cases served_cases hx
    case inl h => rw [h] at hw; cases hw
    case inr h =>
      have ⟨d, hd, hv, hw'⟩ := h
      have hw := hw.symm.trans hw'
      injection hw with ht
      have hr := hs.routing.trans (congrArg Tables.complexityRouting ht)
      have hi : d.invocationId = id := by simpa using List.find?_some hd
      refine ⟨?_, hs.synced⟩
      simp only [hr]
      exact .served (hi ▸ hd) hv

theorem publish_turned {u : ComplexityRoutingUpdate} :
    Turned r (r.exec (.publish u now io)) (some now) := by
  simp only [exec]
  have h := Engine.transact_routing r.engine io
    (r.engine.tables.publishComplexityRouting u now) fun x hx => by
      have ⟨_, _, hw⟩ := publish_cases hx
      exact .inr ⟨_, _, hw⟩
  rw [Engine.publishComplexityRouting]
  generalize (r.engine.transact io _).1 = answer at h ⊢
  generalize (r.engine.transact io _).2 = e' at h ⊢
  cases h
  case failed he => exact ⟨he.routing ▸ .still, he.synced⟩
  case answered => exact ⟨.still, id⟩
  case saved hx hw hs =>
    have ⟨c, hc, hw'⟩ := publish_cases hx
    have hw := hw.symm.trans hw'
    injection hw with ht
    have hr := hs.routing.trans (congrArg Tables.complexityRouting ht)
    refine ⟨?_, hs.synced⟩
    simp only [hr]
    exact .published hc

-- A restart finds the routing state that was last committed, which is the one in memory.
theorem reload_turned (hs : r.engine.Synced) : Turned r (r.exec .reload) none := by
  simp only [exec, Engine.reload]
  split
  case h_2 => exact ⟨.still, id⟩
  case h_1 s hd =>
    obtain ⟨hp, hr⟩ := hs s hd
    have hr' : ({ r.engine.importSnapshot s.stored with
        lastSnapshotChecksum := some (checksum s) } : Engine F).routing = r.engine.routing := hr
    refine ⟨?_, fun _ s' hd' => ⟨hp, ?_⟩⟩
    case refine_1 => simp only [hr']; exact .still
    case refine_2 => rw [hr']; exact (hs s' hd').right

theorem step_turned (hs : r.engine.Synced) (h : Step r op r') : Turned r r' op.clock? := by
  have ⟨he, ho⟩ := h
  subst he
  cases op
  case begin => exact begin_turned.left
  case finish => exact finish_turned
  case served => exact served_turned
  case publish => exact publish_turned
  case restart => exact ⟨.still, fun hs s hd => hs s hd⟩
  case reload => exact reload_turned hs
  case others e =>
    have he := ho rfl
    exact ⟨he.routing ▸ .still, he.synced⟩

-- An engine before its first publication.
structure Fresh (r : Routed F) : Prop where
  routing : r.engine.routing = {}
  grants  : r.grants = []
  synced  : r.engine.Synced

structure Kept (r : Routed F) : Prop where
  accounted : Accounted r.engine.routing r.grants
  synced    : r.engine.Synced

omit [Host F] [RoutingHost] in
theorem Fresh.kept (h : Fresh r) : Kept r := by
  refine ⟨?_, h.synced⟩
  rw [h.routing, h.grants]
  have hc : validateConfig {} = .ok () := by decide +kernel
  constructor <;> simp [onDay, spentOn, hc]

theorem Kept.step (h : Kept r) (hs : Step r op r') : Kept r' :=
  have ht := step_turned h.synced hs
  ⟨ht.moved.accounted h.accounted, ht.synced h.synced⟩

theorem Kept.run {ops : List (RoutingOp F)} (h : Kept r) (hr : Run Step r ops r') : Kept r' :=
  hr.preserves Kept.step h

-- The day of the budget.
def day (r : Routed F) : Nat := r.engine.routing.budget.day

theorem Kept.day_le {ops : List (RoutingOp F)} (h : Kept r) (hr : Run Step r ops r') :
    r.day ≤ r'.day := by
  induction hr
  case nil => exact Nat.le_refl _
  case cons hs _ ih => exact (step_turned h.synced hs).moved.day_le.trans (ih (h.step hs))

omit [RoutingHost] in
theorem granted_begin {g : Grant} (h : r.granted op = some g) :
    ∃ d reserved now io, op = .begin d reserved now io := by
  cases op
  case begin d reserved now io => exact ⟨d, reserved, now, io, rfl⟩
  all_goals cases h

-- What a grant meets: the limits in force, and the calls of its day before it.
structure Within (r : Routed F) (g : Grant) : Prop where
  limits  : ∃ c, r.engine.routing.config.classifier = some c ∧
    (onDay (g.grantedAt / Routing.day) r.grants).length < c.dailyRequestLimit ∧
    spentOn (g.grantedAt / Routing.day) r.grants + g.costMicroCny ≤ c.dailyBudgetMicroCny
  forward : r.day ≤ g.grantedAt / Routing.day
  fresh   : ∀ d ∈ r.engine.routing.decisions, d.invocationId = g.invocationId →
    retained g.grantedAt d = false

theorem Kept.within {g : Grant} (h : Kept r) (hg : r.granted op = some g) : Within r g := by
  have ⟨d, reserved, now, io, ho⟩ := granted_begin hg
  subst ho
  have ⟨d', c, he, hk, hc, _⟩ := begin_turned.right g hg
  have hat : g.grantedAt = now := by rw [he]; exact hk.created
  have ⟨_, hn, hs, _⟩ := h.accounted.rolled hc.forward
  constructor <;> rw [hat]
  case limits =>
    refine ⟨c, hc.inForce, hn ▸ hc.calls, ?_⟩
    have := hc.cost
    rw [hs, he]
    have ⟨_, _⟩ := inMoney_bounds hc.charged
    simp only [grantOf]
    omega
  case forward => exact hc.forward
  case fresh => exact fun d hd hi => hk.fresh d hd (hi.trans (by rw [he]; rfl))

-- What a granted call leaves behind is a decision of its time.
theorem granted_holds {g : Grant} (hg : r.granted op = some g) :
    Holds (r.exec op).engine.routing g.invocationId g.grantedAt := by
  have ⟨d, reserved, now, io, ho⟩ := granted_begin hg
  subst ho
  have ⟨_, _, _, _, _, hh⟩ := begin_turned.right g hg
  exact hh

-- A decision stays until the clock is past its retention.
theorem holds_run {ops : List (RoutingOp F)} {id : String} {created : Nat} (h : Kept r)
    (hh : Holds r.engine.routing id created) (hr : Run Step r ops r') :
    Holds r'.engine.routing id created ∨
      ∃ op ∈ ops, ∃ now, op.clock? = some now ∧ created + retention < now := by
  induction hr
  case nil => exact .inl hh
  case cons hs _ ih =>
    cases (step_turned h.synced hs).moved.holds hh
    case inr hn => exact .inr ⟨_, List.mem_cons_self, hn⟩
    case inl hh =>
      refine (ih (h.step hs) hh).imp_right ?_
      exact fun ⟨op, hm, hn⟩ => ⟨op, List.mem_cons_of_mem _ hm, hn⟩

-- Once its clock is past the retention of an earlier call, an invocation is granted another.
theorem regranted {ops : List (RoutingOp F)} {op' : RoutingOp F} {g g' : Grant} (h : Kept r)
    (hg : r.granted op = some g) (hr : Run Step (r.exec op) ops r')
    (hg' : r'.granted op' = some g') (hi : g'.invocationId = g.invocationId) :
    ∃ o ∈ ops ++ [op'], ∃ now, o.clock? = some now ∧ g.grantedAt + retention < now := by
  have hs : Step r op (r.exec op) := by
    have ⟨_, _, _, _, ho⟩ := granted_begin hg
    exact ⟨rfl, fun he => by rw [ho] at he; cases he⟩
  have hk := h.step hs
  cases holds_run hk (granted_holds hg) hr
  case inr hn =>
    have ⟨o, hm, hn⟩ := hn
    exact ⟨o, List.mem_append_left _ hm, hn⟩
  case inl hh =>
    have ⟨d', hd', hi', hc'⟩ := hh
    have hf := ((hk.run hr).within hg').fresh d' hd' (hi'.trans hi.symm)
    have ⟨d, reserved, now, io, ho⟩ := granted_begin hg'
    subst ho
    have ⟨_, _, he, hkp, _, _⟩ := begin_turned.right g' hg'
    have hat : g'.grantedAt = now := by rw [he]; exact hkp.created
    refine ⟨_, List.mem_append_right _ (List.mem_singleton.mpr rfl), now, rfl, ?_⟩
    rw [hat, retained, decide_eq_false_iff_not] at hf
    omega

-- Whatever is committed is accepted by a loader. A call that is granted is within the limits of
-- its day, on no day before the budget's, and not granted again while its decision is retained.
theorem classifier_budget {r₀ : Routed F} {ops : List (RoutingOp F)} (hr : Run Step r₀ ops r)
    (h₀ : Fresh r₀) :
    validateSnapshotState r.engine.routing = .ok () ∧
    (∀ s, r.engine.disk = some s → validateSnapshotState s.tables.complexityRouting = .ok ()) ∧
    (∀ op g, r.granted op = some g → Within r g) ∧
    (∀ ops' r' op g, Run Step r ops' r' → r'.granted op = some g →
      r.day ≤ g.grantedAt / Routing.day) ∧
    ∀ op g ops' r' op' g', r.granted op = some g → Run Step (r.exec op) ops' r' →
      r'.granted op' = some g' → g'.invocationId = g.invocationId →
      ∃ o ∈ ops' ++ [op'], ∃ now, o.clock? = some now ∧ g.grantedAt + retention < now := by
  have hk := h₀.kept.run hr
  refine ⟨hk.accounted.accepted, ?saved, fun _ _ hg => hk.within hg, ?left, ?again⟩
  case saved =>
    intro s hd
    rw [(hk.synced s hd).right]
    exact hk.accounted.accepted
  case left =>
    intro _ _ _ _ hr' hg
    exact (hk.day_le hr').trans ((hk.run hr').within hg).forward
  case again =>
    intro _ _ _ _ _ _ hg hr' hg' hi
    exact regranted hk hg hr' hg' hi

end

end Routed

instance : RoutingHost where
  routingDigest _ now := toString now

-- An engine with two providers of a model, one of which classifies.
def Routed.sample : Routed ℚ where
  grants := []
  engine := {
    tables := {
      settings  := .default
      groups    := (∅ : Table String (Group ℚ)).insert "default" (.proPlus "default" "Default")
      providers := ((∅ : Table String Provider).insert "p" { id := "p" }).insert "q" { id := "q" }
      modelMaps := [{
        id               := "map"
        groupId          := "default"
        exposedModelId   := "model"
        targetProviderId := "p"
        targetModel      := "model"
        creditMultiplier := 1
        fallbackChain    := [⟨"q", "model"⟩] }] } }

-- A classifier that's called once a day.
def ComplexityRoutingUpdate.sample : ComplexityRoutingUpdate where
  expectedRevision := "complexity-routing:v1:default"
  reason           := "launch"
  classifier       := some ⟨"p", "model", 1000, 1000, 1, 500, 100, 100⟩
  policies         := [⟨"map", .observe, ["p"], ["q"]⟩]

def RoutingDecision.sample (id : String) : RoutingDecision where
  invocationId           := id
  scope                  := "card-1"
  requestHash            := "hash"
  revision               := "complexity-routing:v1:864000"
  modelMapId             := "map"
  mode                   := .observe
  complexity             := .unknown
  reason                 := "waiting"
  providerIds            := ["p", "q"]
  createdAtSecs          := 0
  pending                := true
  classifierAttempted    := true
  classifierLatencyMs    := 0
  inputTokens            := 0
  outputTokens           := 0
  classifierCostMicroCny := 0
  usageEstimated         := false

-- The one call of a day was granted: another waits for the next day, and a clock that's set back
-- gets none.
theorem Routed.classifier_budget_sample :
    let r := (Routed.sample.exec (.publish .sample 864000 {})).exec
      (.begin (.sample "inv-1") 300 864000 {})
    let next : RoutingOp ℚ := .begin (.sample "inv-2") 300 950400 {}
    r.day = 10 ∧ r.granted (.begin (.sample "inv-2") 300 864001 {}) = none ∧
      r.granted (.begin (.sample "inv-2") 300 863999 {}) = none ∧
      r.granted next = some ⟨"inv-2", 950400, 300⟩ ∧ Within r ⟨"inv-2", 950400, 300⟩ := by
  intro r next
  have hr : Run Routed.Step Routed.sample
      [.publish .sample 864000 {}, .begin (.sample "inv-1") 300 864000 {}] r :=
    .cons ⟨rfl, nofun⟩ (.cons ⟨rfl, nofun⟩ .nil)
  have hg : r.granted next = some ⟨"inv-2", 950400, 300⟩ := by decide +kernel
  have h₀ : Routed.Fresh Routed.sample := ⟨rfl, rfl, fun _ h => by simp [Routed.sample] at h⟩
  have ⟨_, _, hw, _⟩ := Routed.classifier_budget hr h₀
  exact ⟨by decide +kernel, by decide +kernel, by decide +kernel, hg, hw next _ hg⟩

end Billing
