import Superkiro.Billing.Classifier

namespace Billing

open Except Routing

-- A classifier call that was reserved, with what it costs as last reported.
structure Grant where
  invocationId : String
  grantedAt    : Nat
  costMicroCny : Nat
  deriving DecidableEq

namespace Routing

def grantOf (d : RoutingDecision) : Grant :=
  ⟨d.invocationId, d.createdAtSecs, d.classifierCostMicroCny⟩

def onDay (n : Nat) (gs : List Grant) : List Grant := gs.filter (·.grantedAt / day = n)

def spentOn (n : Nat) (gs : List Grant) : Nat := ((onDay n gs).map (·.costMicroCny)).sum

-- The latest call for an invocation turns out to cost something else.
def settle (id : String) (cost : Nat) : List Grant → List Grant
  | []      => []
  | g :: gs =>
    if g.invocationId = id then { g with costMicroCny := cost } :: gs else g :: settle id cost gs

-- The grants account for the state: each call of the budget's day and its cost, and the call of
-- each decision.
structure Accounted (s : ComplexityRoutingState) (gs : List Grant) : Prop where
  config  : validateConfig s.config = .ok ()
  room    : s.decisions.length ≤ maxDecisions
  day     : s.budget.day ≤ maxTimestamp / day
  limit   : s.budget.calls ≤ maxCalls
  valid   : ∀ d ∈ s.decisions, validateDecision d = .ok ()
  unique  : (s.decisions.map (·.invocationId)).Nodup
  known   : ∀ d ∈ s.decisions, d.classifierAttempted →
    gs.find? (·.invocationId = d.invocationId) = some (grantOf d)
  past    : ∀ g ∈ gs, g.grantedAt / Routing.day ≤ s.budget.day
  calls   : (onDay s.budget.day gs).length = s.budget.calls
  cost    : spentOn s.budget.day gs = s.budget.costMicroCny
  bounded : ∀ g ∈ gs, g.costMicroCny ≤ maxMoney

section

variable {s : ComplexityRoutingState} {gs : List Grant} {d old : RoutingDecision} {now : Nat}
variable {ds : List RoutingDecision} {id : String} {g : Grant} {n : Nat}

theorem validateDecisions_of {seen : List String} (hv : ∀ d ∈ ds, validateDecision d = .ok ())
    (hu : (ds.map (·.invocationId)).Nodup) (hs : ∀ d ∈ ds, d.invocationId ∉ seen) :
    validateDecisions seen ds = .ok () := by
  induction ds generalizing seen
  case nil => rfl
  case cons d ds ih =>
    have ⟨hv, hvs⟩ := List.forall_mem_cons.mp hv
    have ⟨hs, hss⟩ := List.forall_mem_cons.mp hs
    have ⟨hn, hu⟩ := List.nodup_cons.mp hu
    simp only [validateDecisions, bind_eq_ok', ensure_eq_ok, exists_unit]
    refine ⟨hv, by simpa using hs, ih hvs hu fun d' hd' hm => ?_⟩
    cases List.mem_cons.mp hm
    case inl he => exact hn (List.mem_map.mpr ⟨d', hd', he⟩)
    case inr hm => exact hss d' hd' hm

-- The calls of retained decisions are among the grants of their day.
theorem Accounted.attempts_subperm (h : Accounted s gs) :
    List.Subperm ((attempts s).map grantOf) (onDay s.budget.day gs) := by
  apply List.Nodup.subperm
  case d =>
    apply List.Nodup.of_map (·.invocationId)
    rw [List.map_map]
    exact h.unique.sublist (List.filter_sublist.map _)
  case H =>
    intro g hg
    have ⟨d, hd, he⟩ := List.mem_map.mp hg
    have ⟨hm, ha⟩ := List.mem_filter.mp hd
    rw [Bool.and_eq_true, decide_eq_true_eq] at ha
    have hf := h.known d hm ha.right
    rw [← he]
    exact List.mem_filter.mpr ⟨List.mem_of_find?_eq_some hf, decide_eq_true ha.left⟩

theorem Accounted.spent_le (h : Accounted s gs) :
    s.budget.costMicroCny ≤ s.budget.calls * maxMoney := by
  rw [← h.cost, ← h.calls, spentOn]
  have hb : ∀ c ∈ (onDay s.budget.day gs).map (·.costMicroCny), c ≤ maxMoney := by
    intro c hc
    have ⟨g, hg, he⟩ := List.mem_map.mp hc
    exact he ▸ h.bounded g (List.mem_of_mem_filter hg)
  simpa using List.sum_le_card_nsmul _ _ hb

-- A state the grants account for is one a loader accepts.
theorem Accounted.accepted (h : Accounted s gs) : validateSnapshotState s = .ok () := by
  simp only [validateSnapshotState, bind_eq_ok', ensure_eq_ok, exists_unit, Bool.and_eq_true,
    decide_eq_true_eq]
  have hp := h.attempts_subperm
  refine ⟨h.config, ⟨⟨⟨h.room, h.day⟩, h.limit⟩, ?spent⟩, ?decisions, ?calls, ?cost⟩
  case spent =>
    have := h.spent_le
    have hl : s.budget.calls * maxMoney ≤ maxCalls * maxMoney := Nat.mul_le_mul_right _ h.limit
    have hm : maxCalls * maxMoney ≤ u64Max := by decide
    omega
  case decisions => exact validateDecisions_of h.valid h.unique fun _ _ => List.not_mem_nil
  case calls =>
    rw [← h.calls, ← List.length_map (f := grantOf)]
    exact hp.length_le
  case cost =>
    rw [← h.cost, spentOn]
    have ⟨l, hl, hs⟩ := hp
    have he : (attempts s).map (·.classifierCostMicroCny) =
        ((attempts s).map grantOf).map (·.costMicroCny) := by
      rw [List.map_map]; rfl
    rw [he, ← (hl.map _).sum_eq]
    exact (hs.map _).sum_le_sum fun _ _ => Nat.zero_le _

theorem settle_split (cost : Nat) (h : gs.find? (·.invocationId = id) = some g) :
    ∃ l r, gs = l ++ g :: r ∧ settle id cost gs = l ++ { g with costMicroCny := cost } :: r ∧
      (∀ x ∈ l, x.invocationId ≠ id) ∧ g.invocationId = id := by
  induction gs
  case nil => cases h
  case cons x gs ih =>
    rw [List.find?_cons] at h
    split at h
    case h_1 hx =>
      injection h with h
      subst h
      have hx : x.invocationId = id := of_decide_eq_true hx
      exact ⟨[], gs, rfl, by simp [settle, hx], nofun, hx⟩
    case h_2 hx =>
      have hx : x.invocationId ≠ id := of_decide_eq_false hx
      have ⟨l, r, he, hs, hl, hg⟩ := ih h
      exact ⟨x :: l, r, by simp [he], by simp [settle, hx, hs], by simpa [hx] using hl, hg⟩

theorem replace_split (h : ds.find? (·.invocationId = d.invocationId) = some old) :
    ∃ l r, ds = l ++ old :: r ∧ replace ds d = l ++ d :: r ∧
      old.invocationId = d.invocationId := by
  induction ds
  case nil => cases h
  case cons x ds ih =>
    rw [List.find?_cons] at h
    split at h
    case h_1 hx =>
      injection h with h
      subst h
      have hx' : x.invocationId = d.invocationId := of_decide_eq_true hx
      exact ⟨[], ds, rfl, by simp [replace, List.findIdx_cons, hx'], hx'⟩
    case h_2 hx =>
      have hx' : x.invocationId ≠ d.invocationId := of_decide_eq_false hx
      have ⟨l, r, he, hs, ho⟩ := ih h
      refine ⟨x :: l, r, by simp [he], ?_, ho⟩
      simpa [replace, List.findIdx_cons, hx'] using hs

theorem validateConfig_limit {c : ComplexityRoutingConfig} {r : RoutingClassifier}
    (h : validateConfig c = .ok ()) (hr : c.classifier = some r) :
    r.dailyRequestLimit ≤ maxCalls := by
  simp only [validateConfig, bind_eq_ok', ensure_eq_ok, exists_unit, hr, Option.all_some] at h
  have hv := h.right.left
  simp only [validClassifier, Bool.and_eq_true, decide_eq_true_eq] at hv
  exact hv.left.left.left.right

theorem validateDecision_pending (h : validateDecision d = .ok ()) (hp : d.pending) :
    d.classifierAttempted := by
  simp only [validateDecision, bind_eq_ok', ensure_eq_ok, exists_unit] at h
  have hv := h.left
  simp only [validDecision, Bool.and_eq_true, Bool.or_eq_true, hp] at hv
  simpa using hv.left.left.right

theorem prune_mem (h : d ∈ (prune s now).decisions) : d ∈ s.decisions ∧ retained now d :=
  List.mem_filter.mp h

-- Pruning changes none of the accounts.
theorem Accounted.prune (h : Accounted s gs) {c : ComplexityRoutingConfig}
    (hc : validateConfig c = .ok ()) : Accounted (prune { s with config := c } now) gs where
  config := hc
  room := (List.length_filter_le _ _).trans h.room
  day := h.day
  limit := h.limit
  valid d hd := h.valid d (List.mem_of_mem_filter hd)
  unique := h.unique.sublist (List.filter_sublist.map _)
  known d hd := h.known d (List.mem_of_mem_filter hd)
  past := h.past
  calls := h.calls
  cost := h.cost
  bounded := h.bounded

-- The budget of a day that is not over yet.
theorem Accounted.rolled (h : Accounted s gs) (hf : s.budget.day ≤ now / Routing.day) :
    (rolled s now).day = now / Routing.day ∧
      (onDay (now / Routing.day) gs).length = (rolled s now).calls ∧
      spentOn (now / Routing.day) gs = (rolled s now).costMicroCny ∧
      (rolled s now).calls ≤ maxCalls := by
  rw [Routing.rolled]
  split
  case isFalse he =>
    have he := Decidable.not_not.mp he
    rw [← he]
    exact ⟨rfl, h.calls, h.cost, h.limit⟩
  case isTrue hn =>
    have he : onDay (now / Routing.day) gs = [] := by
      rw [onDay, List.filter_eq_nil_iff]
      intro g hg hd
      have := h.past g hg
      have := of_decide_eq_true hd
      omega
    rw [spentOn, he]
    exact ⟨rfl, rfl, rfl, Nat.zero_le _⟩

theorem Keepable.unique (hk : Keepable s now d) (h : Accounted s gs) :
    (((Routing.prune s now).decisions ++ [d]).map (·.invocationId)).Nodup := by
  rw [List.map_append, List.nodup_append]
  refine ⟨h.unique.sublist (List.filter_sublist.map _), List.nodup_singleton _, ?_⟩
  intro id hid id' hid' he
  have ⟨old, ho, hi⟩ := List.mem_map.mp hid
  have ⟨hm, hr⟩ := prune_mem ho
  rw [List.map_singleton, List.mem_singleton] at hid'
  have := hk.fresh old hm (hi.trans (he.trans hid'))
  rw [hr] at this
  cases this

theorem Keepable.ne (hk : Keepable s now d) (ho : old ∈ (Routing.prune s now).decisions) :
    d.invocationId ≠ old.invocationId := by
  intro he
  have ⟨hm, hr⟩ := prune_mem ho
  have := hk.fresh old hm he.symm
  rw [hr] at this
  cases this

-- A new decision that its grants account for.
theorem Accounted.pushed {b : RoutingBudget} {gs' : List Grant} (h : Accounted s gs)
    (hk : Keepable s now d) (hd : b.day ≤ maxTimestamp / Routing.day)
    (hl : b.calls ≤ maxCalls)
    (hn : d.classifierAttempted → gs'.find? (·.invocationId = d.invocationId) = some (grantOf d))
    (ho : ∀ id, d.invocationId ≠ id →
      gs'.find? (·.invocationId = id) = gs.find? (·.invocationId = id))
    (hp : ∀ g ∈ gs', g.grantedAt / Routing.day ≤ b.day) (hc : (onDay b.day gs').length = b.calls)
    (hs : spentOn b.day gs' = b.costMicroCny) (hb : ∀ g ∈ gs', g.costMicroCny ≤ maxMoney) :
    Accounted (pushed s now d b) gs' where
  config := h.config
  room := by simpa [Routing.pushed] using hk.room
  day := hd
  limit := hl
  valid d' hd' := by
    cases List.mem_append.mp hd'
    case inl hd' => exact h.valid d' (prune_mem hd').left
    case inr hd' => exact List.mem_singleton.mp hd' ▸ hk.valid
  unique := hk.unique h
  known d' hd' ha := by
    cases List.mem_append.mp hd'
    case inl hd' => rw [ho _ (hk.ne hd')]; exact h.known d' (prune_mem hd').left ha
    case inr hd' =>
      have he := List.mem_singleton.mp hd'
      subst he
      exact hn ha
  past := hp
  calls := hc
  cost := hs
  bounded := hb

-- A decision without a classifier call costs nothing.
theorem Accounted.unclaimed {b : RoutingBudget} (h : Accounted s gs) (hk : Keepable s now d)
    (ha : d.classifierAttempted = false)
    (hb : b = s.budget ∨ s.budget.day ≤ now / Routing.day ∧ b = Routing.rolled s now) :
    Accounted (Routing.pushed s now d b) gs := by
  have hn : d.classifierAttempted → gs.find? (·.invocationId = d.invocationId) =
      some (grantOf d) := by
    intro h
    rw [ha] at h
    cases h
  cases hb
  case inl he =>
    subst he
    exact h.pushed hk h.day h.limit hn (fun _ _ => rfl) h.past h.calls h.cost
      h.bounded
  case inr hr =>
    have ⟨hf, he⟩ := hr
    have ⟨hd, hc, hs, hl⟩ := h.rolled hf
    rw [← he] at hd hc hs hl
    rw [← hd] at hc hs hf
    have ht : b.day ≤ maxTimestamp / Routing.day := hd ▸ Nat.div_le_div_right hk.time
    exact h.pushed hk ht hl hn (fun _ _ => rfl) (fun g hg => (h.past g hg).trans hf) hc hs
      h.bounded

-- A call that is reserved is one more of its day.
theorem Accounted.claimed {c : RoutingClassifier} (h : Accounted s gs) (hk : Keepable s now d)
    (hc : Claimable s now d c) :
    Accounted (Routing.pushed s now d (spend (Routing.rolled s now) d.classifierCostMicroCny))
      (grantOf d :: gs) := by
  have ⟨hd, hn, hs, _⟩ := h.rolled hc.forward
  have hday : (grantOf d).grantedAt / Routing.day = (Routing.rolled s now).day := by
    rw [hd, ← hk.created]; rfl
  have hon : onDay (Routing.rolled s now).day (grantOf d :: gs) =
      grantOf d :: onDay (Routing.rolled s now).day gs :=
    List.filter_cons_of_pos (decide_eq_true hday)
  rw [← hd] at hn hs
  apply h.pushed hk
  case hd => exact hd ▸ Nat.div_le_div_right hk.time
  case hl =>
    have := hc.calls
    have := validateConfig_limit h.config hc.inForce
    simp only [spend]
    omega
  case hn => exact fun _ => List.find?_cons_of_pos (decide_eq_true rfl)
  case ho => exact fun id hi => List.find?_cons_of_neg (by rw [decide_eq_true_eq]; exact hi)
  case hp =>
    intro g hg
    cases List.mem_cons.mp hg
    case inl he => exact he ▸ Nat.le_of_eq hday
    case inr hg => exact (h.past g hg).trans (hd ▸ hc.forward)
  case hc => simp only [spend, hon, List.length_cons, hn]
  case hs =>
    rw [spentOn] at hs
    simp only [spend, spentOn, hon, List.map_cons, List.sum_cons, hs]
    exact Nat.add_comm ..
  case hb =>
    intro g hg
    cases List.mem_cons.mp hg
    case inl he => exact he ▸ (inMoney_bounds hc.charged).right
    case inr hg => exact h.bounded g hg

-- A decision that is replaced by one of the same invocation and time.
theorem Accounted.replaced {b : RoutingBudget} {gs' : List Grant} (h : Accounted s gs)
    (hf : s.decisions.find? (·.invocationId = d.invocationId) = some old)
    (hv : validateDecision d = .ok ()) (hd : b.day = s.budget.day) (hl : b.calls = s.budget.calls)
    (hn : d.classifierAttempted → gs'.find? (·.invocationId = d.invocationId) = some (grantOf d))
    (ho : ∀ id, d.invocationId ≠ id →
      gs'.find? (·.invocationId = id) = gs.find? (·.invocationId = id))
    (hp : ∀ g ∈ gs', g.grantedAt / Routing.day ≤ b.day) (hc : (onDay b.day gs').length = b.calls)
    (hs : spentOn b.day gs' = b.costMicroCny) (hb : ∀ g ∈ gs', g.costMicroCny ≤ maxMoney) :
    Accounted { s with decisions := replace s.decisions d, budget := b } gs' := by
  have ⟨l, r, he, hr, hi⟩ := replace_split hf
  have hids : (replace s.decisions d).map (·.invocationId) =
      s.decisions.map (·.invocationId) := by
    rw [hr, he]
    simp [hi]
  have hu := h.unique
  rw [he, List.map_append, List.map_cons, List.nodup_middle] at hu
  have hne : ∀ d' ∈ l ++ r, d.invocationId ≠ d'.invocationId := by
    intro d' hd' hi'
    apply (List.nodup_cons.mp hu).left
    rw [← List.map_append]
    exact List.mem_map.mpr ⟨d', hd', hi'.symm.trans hi.symm⟩
  have hmem : ∀ d' ∈ replace s.decisions d, d' = d ∨ (d' ∈ l ++ r ∧ d' ∈ s.decisions) := by
    intro d' hd'
    rw [hr] at hd'
    rw [he]
    simp only [List.mem_append, List.mem_cons] at hd' ⊢
    tauto
  constructor
  case config => exact h.config
  case room =>
    have := congrArg List.length hids
    simp only [List.length_map] at this
    exact this ▸ h.room
  case day => exact hd ▸ h.day
  case limit => exact hl ▸ h.limit
  case unique => exact hids ▸ h.unique
  case valid =>
    intro d' hd'
    cases hmem d' hd'
    case inl he => exact he ▸ hv
    case inr hm => exact h.valid d' hm.right
  case known =>
    intro d' hd' ha
    cases hmem d' hd'
    case inl he => subst he; exact hn ha
    case inr hm => rw [ho _ (hne d' hm.left)]; exact h.known d' hm.right ha
  case past => exact hp
  case calls => exact hc
  case cost => exact hs
  case bounded => exact hb

-- An actual provider changes none of the accounts.
theorem Accounted.served (h : Accounted s gs)
    (hf : s.decisions.find? (·.invocationId = d.invocationId) = some d)
    (hv : validateDecision { d with servedProviderId := some id } = .ok ()) :
    Accounted { s with
      decisions := replace s.decisions { d with servedProviderId := some id } } gs := by
  have hm := List.mem_of_find?_eq_some hf
  exact h.replaced (b := s.budget) hf hv rfl rfl (h.known d hm) (fun _ _ => rfl) h.past h.calls
    h.cost h.bounded

-- A final cost corrects what the call was reserved for, and its day's budget while it lasts.
theorem Accounted.finished (h : Accounted s gs) (hf : Finished s old d) :
    Accounted { s with decisions := replace s.decisions d, budget := corrected s.budget old d }
      (settle d.invocationId d.classifierCostMicroCny gs) := by
  have hm := List.mem_of_find?_eq_some hf.found
  have hi : old.invocationId = d.invocationId := by simpa using List.find?_some hf.found
  have hk := h.known old hm (validateDecision_pending (h.valid old hm) hf.pending)
  rw [hi] at hk
  have ⟨l, r, he, hs, hl, _⟩ := settle_split d.classifierCostMicroCny hk
  have hnew : { grantOf old with costMicroCny := d.classifierCostMicroCny } = grantOf d := by
    simp only [grantOf, hi, hf.created]
  rw [hnew] at hs
  have hday : (corrected s.budget old d).day = s.budget.day := by
    rw [corrected]
    split <;> rfl
  have hcalls : (corrected s.budget old d).calls = s.budget.calls := by
    rw [corrected]
    split <;> rfl
  have hnone : l.find? (·.invocationId = d.invocationId) = none :=
    List.find?_eq_none.mpr fun x hx => by simpa using hl x hx
  have hat : (grantOf d).grantedAt = (grantOf old).grantedAt := hf.created
  have hspent : ∀ n g, spentOn n (l ++ g :: r) =
      spentOn n (l ++ r) + if g.grantedAt / Routing.day = n then g.costMicroCny else 0 := by
    intro n g
    simp only [spentOn, onDay, List.filter_append, List.filter_cons, decide_eq_true_eq]
    split <;> simp
    omega
  rw [hs]
  apply h.replaced hf.found hf.valid hday hcalls
  case hn =>
    intro _
    rw [List.find?_append, hnone, Option.none_or]
    exact List.find?_cons_of_pos (decide_eq_true rfl)
  case ho =>
    intro id hid
    rw [he, List.find?_append, List.find?_append, List.find?_cons_of_neg, List.find?_cons_of_neg]
    all_goals rw [decide_eq_true_eq]
    · exact fun h => hid (hi.symm.trans h)
    · exact hid
  case hp =>
    intro g hg
    have hp := h.past
    rw [he] at hp
    rw [hday]
    cases List.mem_append.mp hg
    case inl hg => exact hp g (List.mem_append_left _ hg)
    case inr hg =>
      cases List.mem_cons.mp hg
      case inl hg => exact hg ▸ hat ▸ hp (grantOf old) (by simp)
      case inr hg => exact hp g (by simp [hg])
  case hc =>
    have hc := h.calls
    rw [he] at hc
    rw [hday, hcalls, ← hc]
    simp [onDay, List.filter_cons, hat]
    split <;> rfl
  case hs =>
    have hc := h.cost
    rw [he, hspent] at hc
    rw [hday, hspent, hat]
    by_cases hd : (grantOf old).grantedAt / Routing.day = s.budget.day
    case pos =>
      have hd' : s.budget.day = old.createdAtSecs / Routing.day := hd.symm
      rw [if_pos hd] at hc ⊢
      rw [corrected, if_pos hd']
      simp only [grantOf] at hc ⊢
      omega
    case neg =>
      have hd' : ¬s.budget.day = old.createdAtSecs / Routing.day := fun h => hd h.symm
      rw [if_neg hd] at hc ⊢
      rw [corrected, if_neg hd']
      exact hc
  case hb =>
    intro g hg
    have hb := h.bounded
    rw [he] at hb
    cases List.mem_append.mp hg
    case inl hg => exact hb g (List.mem_append_left _ hg)
    case inr hg =>
      cases List.mem_cons.mp hg
      case inl hg => exact hg ▸ validateDecision_bound hf.valid
      case inr hg => exact hb g (by simp [hg])

end

end Routing
end Billing
