import Superkiro.Billing.Routing

namespace Billing

open Except Routing

namespace Routing

-- The state with a new decision, made at `now`.
def pushed (s : ComplexityRoutingState) (now : Nat) (d : RoutingDecision) (b : RoutingBudget) :
    ComplexityRoutingState :=
  { s with decisions := (prune s now).decisions ++ [d], budget := b }

-- When a decision is kept.
structure Keepable (s : ComplexityRoutingState) (now : Nat) (d : RoutingDecision) : Prop where
  fresh   : ∀ old ∈ s.decisions, old.invocationId = d.invocationId → retained now old = false
  created : d.createdAtSecs = now
  valid   : validateDecision d = .ok ()
  room    : (prune s now).decisions.length < maxDecisions
  time    : now ≤ maxTimestamp

-- When a classifier call is reserved for a decision.
structure Claimable (s : ComplexityRoutingState) (now : Nat) (d : RoutingDecision)
    (c : RoutingClassifier) : Prop where
  inForce : s.config.classifier = some c
  forward : s.budget.day ≤ now / day
  calls   : (rolled s now).calls < c.dailyRequestLimit
  cost    : d.classifierCostMicroCny ≤ c.dailyBudgetMicroCny - (rolled s now).costMicroCny
  attempt : d.classifierAttempted = true
  charged : inMoney d.classifierCostMicroCny

def spend (b : RoutingBudget) (cost : Nat) : RoutingBudget :=
  { b with calls := b.calls + 1, costMicroCny := b.costMicroCny + cost }

-- What a begun decision makes of the state.
inductive Began (s : ComplexityRoutingState) (now : Nat) :
    RoutingDecision → ComplexityRoutingState → Prop
  | unclaimed : Keepable s now d → d.pending = false → d.classifierAttempted = false →
    b = s.budget ∨ s.budget.day ≤ now / day ∧ b = rolled s now → Began s now d (pushed s now d b)
  | claimed : Keepable s now d → d.pending = true → Claimable s now d c →
    Began s now d (pushed s now d (spend (rolled s now) d.classifierCostMicroCny))

-- What a finished decision makes of the state.
structure Finished (s : ComplexityRoutingState) (old d : RoutingDecision) : Prop where
  found   : s.decisions.find? (·.invocationId = d.invocationId) = some old
  pending : old.pending = true
  created : d.createdAtSecs = old.createdAtSecs
  attempt : d.classifierAttempted = true
  valid   : validateDecision d = .ok ()

end Routing

section

variable {t : Tables F} {d : RoutingDecision} {reserved now : Nat}

theorem inMoney_bounds {n : Nat} (h : inMoney n) : 1 ≤ n ∧ n ≤ maxMoney := by
  rw [inMoney, Bool.and_eq_true, decide_eq_true_eq, decide_eq_true_eq] at h
  exact h

theorem validateDecision_bound (h : validateDecision d = .ok ()) :
    d.classifierCostMicroCny ≤ maxMoney := by
  simp only [validateDecision, bind_eq_ok', ensure_eq_ok] at h
  have ⟨_, hv, _⟩ := h
  simp only [validDecision, Bool.and_eq_true, decide_eq_true_eq] at hv
  exact hv.left.left.left.right

theorem claimClassifier_cases {s : ComplexityRoutingState} {d' : RoutingDecision}
    {b : RoutingBudget} (h : t.claimClassifier s d reserved now = .ok (d', b)) :
    d'.invocationId = d.invocationId ∧ d'.createdAtSecs = d.createdAtSecs ∧
      ((d'.pending = false ∧ d'.classifierAttempted = false ∧ s.budget.day ≤ now / day ∧
          b = rolled s now) ∨
        (d'.pending = d.pending ∧ d'.classifierCostMicroCny = reserved ∧
          b = spend (rolled s now) reserved ∧ ∃ c, Claimable s now d' c)) := by
  simp only [Tables.claimClassifier, bind_eq_ok', ensure_eq_ok, ofOption_eq_ok, exists_unit] at h
  have ⟨c, hc, _, _, _, _, _, _, _, _, hf, _, hr⟩ := h
  rw [Bool.and_eq_true, decide_eq_true_eq] at hf
  split at hr
  case isTrue =>
    rw [pure_eq_ok] at hr
    cases hr
    exact ⟨rfl, rfl, .inl ⟨rfl, rfl, hf.right, rfl⟩⟩
  case isFalse hn =>
    rw [pure_eq_ok] at hr
    cases hr
    rw [Bool.or_eq_true, decide_eq_true_eq, decide_eq_true_eq, not_or, Nat.not_le, Nat.not_lt] at hn
    refine ⟨rfl, rfl, .inr ⟨rfl, rfl, rfl, c, hc, hf.right, hn.left, hn.right, rfl, ?_⟩⟩
    exact hf.left

-- What a transaction saves of the routing state.
def Txn.Routes (t : Tables F) (s : ComplexityRoutingState) (a : α) (txn : Txn F α) : Prop :=
  txn = .write (t.withRouting s) (·.withRouting s) a

theorem begin_cases {txn : Txn F (RoutingDecision × Bool)}
    (h : t.beginRoutingDecision d reserved now = .ok txn) :
    (∃ d', txn = .answer (d', false)) ∨
      ∃ d' s, d'.invocationId = d.invocationId ∧ txn.Routes t s (d', d'.pending) ∧
        (d'.pending → d'.classifierCostMicroCny = reserved) ∧
        Began t.complexityRouting now d' s := by
  simp only [Tables.beginRoutingDecision] at h
  split at h
  case h_1 old _ =>
    simp only [bind_eq_ok', ensure_eq_ok, exists_unit, pure_eq_ok] at h
    exact .inl ⟨old, h.right.symm⟩
  case h_2 hf =>
    simp only [bind_eq_ok', ensure_eq_ok, exists_unit] at h
    have ⟨hn, _, _, ⟨d', b⟩, hc, hv, hw⟩ := h
    split at hw
    case isTrue =>
      rw [pure_eq_ok] at hw
      exact .inl ⟨_, hw.symm⟩
    case isFalse hl =>
      rw [pure_eq_ok] at hw
      have hfresh : ∀ old ∈ t.complexityRouting.decisions,
          old.invocationId = d.invocationId → retained now old = false := by
        intro old hm hi
        have := List.find?_eq_none.mp hf old hm
        simpa [hi] using this
      have htime : now ≤ maxTimestamp := by
        simp only [isNew, Bool.and_eq_true, decide_eq_true_eq] at hn
        exact hn.left.left.left.left.left.left
      right
      simp only [Tables.reserveClassifier] at hc
      split at hc
      case isTrue hp =>
        have ⟨hi, hcr, hc⟩ := claimClassifier_cases hc
        have hk : Keepable t.complexityRouting now d' :=
          ⟨hi ▸ hfresh, hcr, hv, Nat.not_le.mp hl, htime⟩
        cases hc
        case inl he =>
          have ⟨hp, ha, hday, hb⟩ := he
          exact ⟨d', _, hi, hw.symm, fun h => absurd h (by simp [hp]),
            .unclaimed hk hp ha (.inr ⟨hday, hb⟩)⟩
        case inr hg =>
          have ⟨hp', hcost, hb, c, hcl⟩ := hg
          rw [← hcost] at hb
          subst hb
          exact ⟨d', _, hi, hw.symm, fun _ => hcost, .claimed hk (hp'.trans hp) ⟨hcl.inForce,
            hcl.forward, hcl.calls, hcl.cost, hcl.attempt, hcl.charged⟩⟩
      case isFalse hp =>
        cases hc
        have hp := Bool.eq_false_iff.mpr hp
        have ha : d.classifierAttempted = false := by
          have hp : d.pending = false := hp
          simp only [isNew, hp, Bool.false_or, Bool.and_eq_true, Bool.not_eq_true'] at hn
          exact hn.left.right.left.left.left
        refine ⟨madeAt d now, _, rfl, hw.symm, ?_, .unclaimed ⟨hfresh, rfl, hv, Nat.not_le.mp hl,
          htime⟩ hp ha (.inl rfl)⟩
        intro h
        rw [hp] at h
        cases h

theorem finish_cases {txn : Txn F RoutingDecision}
    (h : t.finishRoutingDecision d = .ok txn) :
    (∃ old, txn = .answer old ∧ t.complexityRouting.decisions.find?
        (·.invocationId = d.invocationId) = some old ∧ old.pending = false) ∨
      ∃ old d', d'.invocationId = d.invocationId ∧ Finished t.complexityRouting old d' ∧
        txn.Routes t { t.complexityRouting with
          decisions := replace t.complexityRouting.decisions d'
          budget    := corrected t.complexityRouting.budget old d' } d' := by
  simp only [Tables.finishRoutingDecision, bind_eq_ok', ensure_eq_ok, ofOption_eq_ok,
    exists_unit] at h
  have ⟨old, hf, hs, hr⟩ := h
  split at hr
  case isTrue hp =>
    rw [pure_eq_ok] at hr
    exact .inl ⟨old, hr.symm, hf, by simpa using hp⟩
  case isFalse hp =>
    simp only [bind_eq_ok', ensure_eq_ok, exists_unit, pure_eq_ok] at hr
    have ⟨hv, _, hw⟩ := hr
    have hc : d.createdAtSecs = old.createdAtSecs := by
      simp only [sameDecision, Bool.and_eq_true, decide_eq_true_eq] at hs
      exact hs.left.left.right.symm
    have hk : (concluded old d).invocationId = d.invocationId ∧
        (concluded old d).createdAtSecs = d.createdAtSecs ∧
        (concluded old d).classifierAttempted = true := by
      simp only [concluded]
      split <;> exact ⟨rfl, rfl, rfl⟩
    exact .inr ⟨old, concluded old d, hk.left, ⟨hk.left ▸ hf, by simpa using hp,
      hk.right.left.trans hc, hk.right.right, hv⟩, hw.symm⟩

theorem validateDecision_served {id : String} (hv : validateDecision d = .ok ())
    (hp : d.pending = false) (hi : Text.validId id 128)
    (hm : d.mode = .observe ∨ d.providerIds.contains id) :
    validateDecision { d with servedProviderId := some id } = .ok () := by
  simp only [validateDecision, bind_eq_ok', ensure_eq_ok, exists_unit] at hv ⊢
  refine ⟨?_, hv.right⟩
  have hd := hv.left
  simp only [validDecision, Bool.and_eq_true] at hd ⊢
  refine ⟨hd.left, ?_⟩
  simpa [hp, hi] using hm

theorem served_cases {id providerId : String} {txn : Txn F Unit}
    (h : t.recordRoutingServed id providerId = .ok txn) :
    txn = .answer () ∨ ∃ d, t.complexityRouting.decisions.find? (·.invocationId = id) = some d ∧
      (validateDecision d = .ok () →
        validateDecision { d with servedProviderId := some providerId } = .ok ()) ∧
      txn.Routes t { t.complexityRouting with
        decisions := replace t.complexityRouting.decisions
          { d with servedProviderId := some providerId } } () := by
  simp only [Tables.recordRoutingServed] at h
  split at h
  case h_1 =>
    rw [pure_eq_ok] at h
    exact .inl h.symm
  case h_2 d hd =>
    split at h
    case h_1 =>
      simp only [bind_eq_ok', ensure_eq_ok, exists_unit, pure_eq_ok] at h
      exact .inl h.right.symm
    case h_2 =>
      simp only [bind_eq_ok', ensure_eq_ok, exists_unit] at h
      have ⟨hv, h⟩ := h
      rw [Bool.and_eq_true, Bool.not_eq_true'] at hv
      right
      refine ⟨d, hd, fun hd => ?_, ?_⟩
      all_goals split at h
      all_goals simp only [bind_eq_ok', ensure_eq_ok, ofOption_eq_ok, exists_unit, pure_eq_ok] at h
      case refine_1.isTrue hm => exact validateDecision_served hd hv.left hv.right (.inl hm)
      case refine_1.isFalse =>
        exact validateDecision_served hd hv.left hv.right (.inr h.left)
      case refine_2.isTrue =>
        have ⟨_, _, _, _, _, hw⟩ := h
        exact hw.symm
      case refine_2.isFalse => exact h.right.symm

theorem publish_cases [RoutingHost] {u : ComplexityRoutingUpdate} {now : Nat}
    {txn : Txn F ComplexityRoutingConfig} (h : t.publishComplexityRouting u now = .ok txn) :
    ∃ config, validateConfig config = .ok () ∧
      txn.Routes t (Routing.prune { t.complexityRouting with config := config } now) config := by
  simp only [Tables.publishComplexityRouting, bind_eq_ok', ensure_eq_ok, exists_unit,
    pure_eq_ok] at h
  have ⟨_, _, hv, _, hw⟩ := h
  exact ⟨_, hv, hw.symm⟩

end

end Billing
