import Superkiro.Gateway.Routing

namespace Gateway.Router

open Billing Except

section Narrowing

variable {T : Type} {candidates : List (String × T)} {d : RoutingDecision}

theorem applyDecision_of_ne (h : d.mode ≠ .enforce) : applyDecision candidates d = candidates :=
  if_pos h

-- What an enforced decision leaves are candidates, in the order of its route.
theorem applyDecision_sublist (h : d.mode = .enforce) :
    ((applyDecision candidates d).map (·.1)).Sublist d.providerIds := by
  rw [applyDecision, if_neg (not_not.mpr h)]
  induction d.providerIds
  case nil => exact .slnil
  case cons id ids hi =>
    rw [List.filterMap_cons]
    cases hf : candidates.find? (·.1 = id)
    case none => exact hi.cons _
    case some c =>
      have hc : c.1 = id := by simpa using List.find?_some hf
      rw [List.map_cons, hc]
      exact hi.cons_cons _

theorem applyDecision_subset : ∀ c ∈ applyDecision candidates d, c ∈ candidates := by
  intro c hc
  by_cases h : d.mode = .enforce
  case neg => rwa [applyDecision_of_ne h] at hc
  case pos =>
    rw [applyDecision, if_neg (not_not.mpr h), List.mem_filterMap] at hc
    have ⟨_, _, hf⟩ := hc
    exact List.mem_of_find?_eq_some hf

-- The first candidate of each provider of the route is left.
theorem mem_applyDecision {id : String} (h : d.mode = .enforce) (hid : id ∈ d.providerIds)
    (hc : id ∈ candidates.map (·.1)) : ∃ c ∈ applyDecision candidates d, c.1 = id := by
  have ⟨c, hm, he⟩ := List.mem_map.mp hc
  cases hf : candidates.find? (·.1 = id)
  case none => exact absurd (List.find?_eq_none.mp hf c hm) (by simpa using he)
  case some c' =>
    refine ⟨c', ?_, by simpa using List.find?_some hf⟩
    rw [applyDecision, if_neg (not_not.mpr h)]
    exact List.mem_filterMap.mpr ⟨id, hid, hf⟩

end Narrowing

section Planning

variable {config : ComplexityRoutingConfig} {policy : RoutingPolicy} {req : RoutingRequest}
variable {d : RoutingDecision} {previous : Option RoutingDecision} {runtime : Runtime}
variable {pool : Option ClassifierPool}

-- Decisions about the same request, under the same policy.
structure About (d d' : RoutingDecision) : Prop where
  invocation : d'.invocationId = d.invocationId
  scope      : d'.scope = d.scope
  hash       : d'.requestHash = d.requestHash
  revision   : d'.revision = d.revision
  mapping    : d'.modelMapId = d.modelMapId
  mode       : d'.mode = d.mode

-- Such decisions with the same outcome.
structure Agrees (d d' : RoutingDecision) : Prop extends About d d' where
  complexity : d'.complexity = d.complexity
  route      : d'.providerIds = d.providerIds

theorem About.trans {d₁ d₂ d₃ : RoutingDecision} (h : About d₁ d₂) (h' : About d₂ d₃) :
    About d₁ d₃ where
  invocation := h'.invocation.trans h.invocation
  scope      := h'.scope.trans h.scope
  hash       := h'.hash.trans h.hash
  revision   := h'.revision.trans h.revision
  mapping    := h'.mapping.trans h.mapping
  mode       := h'.mode.trans h.mode

theorem Agrees.refl : Agrees d d := ⟨⟨rfl, rfl, rfl, rfl, rfl, rfl⟩, rfl, rfl⟩

theorem Agrees.trans {d₁ d₂ d₃ : RoutingDecision} (h : Agrees d₁ d₂) (h' : Agrees d₂ d₃) :
    Agrees d₁ d₃ where
  toAbout    := h.toAbout.trans h'.toAbout
  complexity := h'.complexity.trans h.complexity
  route      := h'.route.trans h.route

-- What a policy suggests before anything's classified.
inductive Suggested (config : ComplexityRoutingConfig) (policy : RoutingPolicy)
    (req : RoutingRequest) (previous : Option RoutingDecision) (d : RoutingDecision) : Prop
  | default : d.complexity ≠ .simple → d.providerIds = narrow req policy.complexProviderIds →
    Suggested config policy req previous d
  | resumed {p : RoutingDecision} : p ∈ previous → p.mode = policy.mode →
    p.revision = config.revision → req.input.continuation → d.complexity ≠ .simple →
    d.providerIds = served p.servedProviderId (narrow req policy.complexProviderIds) →
    Suggested config policy req previous d
  | inherited {p : RoutingDecision} : p ∈ previous → p.mode = policy.mode →
    p.revision = config.revision → req.input.continuation → d.complexity = p.complexity →
    d.providerIds = served p.servedProviderId (narrow req p.providerIds) →
    Suggested config policy req previous d

theorem continued_about :
    About (draft config policy req) (continued config policy req previous) := by
  simp only [continued]
  split
  case h_1 => exact ⟨rfl, rfl, rfl, rfl, rfl, rfl⟩
  case h_2 => split <;> exact ⟨rfl, rfl, rfl, rfl, rfl, rfl⟩

theorem continued_suggested (hc : req.input.continuation) :
    Suggested config policy req previous (continued config policy req previous) := by
  simp only [continued]
  split
  case h_1 => exact .default nofun rfl
  case h_2 p hp =>
    have ⟨hm, hs⟩ := Option.filter_eq_some_iff.mp hp
    simp only [Bool.and_eq_true, decide_eq_true_eq] at hs
    split
    case isTrue => exact .resumed hm hs.left hs.right hc nofun rfl
    case isFalse => exact .inherited hm hs.left hs.right hc rfl rfl

-- What a plan is for a request: a decision that's suggested, or one that waits for its classifier.
inductive Planned (config : ComplexityRoutingConfig) (policy : RoutingPolicy)
    (req : RoutingRequest) (previous : Option RoutingDecision) (pool : Option ClassifierPool) :
    Plan → Prop
  | settled {d : RoutingDecision} : About (draft config policy req) d →
    Suggested config policy req previous d → Planned config policy req previous pool (.settled d)
  | ask {c : RoutingClassifier} {p : ClassifierPool} {d : RoutingDecision} {n : Nat} :
    p ∈ pool → Agrees (draft config policy req) d →
    Planned config policy req previous pool (.ask c p.format d n)

theorem conservative_planned {reason : String} : Planned config policy req previous pool
    (.settled (conservative config policy req reason)) :=
  .settled ⟨rfl, rfl, rfl, rfl, rfl, rfl⟩ (.default nofun rfl)

theorem consult_planned {c : RoutingClassifier} :
    Planned config policy req previous pool (consult config policy req c runtime pool) := by
  simp only [consult]
  split
  case h_1 => exact conservative_planned
  case h_2 p hp =>
    split
    case h_1 => exact conservative_planned
    case h_2 =>
      have hp := (Option.filter_eq_some_iff.mp hp).left
      split
      case isTrue => exact conservative_planned
      case isFalse => exact .ask hp ⟨⟨rfl, rfl, rfl, rfl, rfl, rfl⟩, rfl, rfl⟩

theorem plan_planned :
    Planned config policy req previous pool (plan config policy req previous runtime pool) := by
  simp only [plan]
  split
  case isTrue => exact conservative_planned
  case isFalse =>
    split
    case h_1 => exact conservative_planned
    case h_2 =>
      split_ifs with _ _ hc
      case pos => exact conservative_planned
      case pos => exact .settled ⟨rfl, rfl, rfl, rfl, rfl, rfl⟩ (.default nofun rfl)
      case pos => exact .settled continued_about (continued_suggested hc)
      case pos => exact conservative_planned
      case pos => exact conservative_planned
      case pos => exact conservative_planned
      case neg => exact consult_planned

end Planning

section Beginning

variable [Host F] {e : Engine F} {io : Io} {d d' : RoutingDecision} {reserved now : Nat} {claimed : Bool}

def result : Txn F α → α
  | .answer a    => a
  | .write _ _ a => a

-- What a transaction that succeeds answers is the answer of what it was given.
theorem transact_answer {txn : Result (Txn F α)} {a : α} (h : (e.transact io txn).1 = .ok a) :
    ∃ x, txn = .ok x ∧ result x = a := by
  cases txn
  case error => cases h
  case ok x =>
    refine ⟨x, rfl, ?_⟩
    cases x
    case answer =>
      cases h
      rfl
    case write =>
      simp only [Engine.transact] at h
      split at h <;> cases h
      rfl

-- A decision there is about a request.
structure Known (s : ComplexityRoutingState) (d d' : RoutingDecision) : Prop where
  stored     : d' ∈ s.decisions
  invocation : d'.invocationId = d.invocationId
  scope      : d'.scope = d.scope
  hash       : d'.requestHash = d.requestHash

omit [Host F] in
theorem claimClassifier_agrees {t : Tables F} {s : ComplexityRoutingState} {b : RoutingBudget}
    (h : t.claimClassifier s d reserved now = .ok (d', b)) : Agrees d d' := by
  simp only [Tables.claimClassifier, bind_eq_ok', ensure_eq_ok, ofOption_eq_ok, exists_unit] at h
  obtain ⟨_, _, _, _, _, _, _, _, _, _, _, _, h⟩ := h
  split at h
  all_goals
    rw [pure_eq_ok] at h
    cases h
    exact ⟨⟨rfl, rfl, rfl, rfl, rfl, rfl⟩, rfl, rfl⟩

omit [Host F] in
theorem reserveClassifier_agrees {t : Tables F} {s : ComplexityRoutingState} {b : RoutingBudget}
    (h : t.reserveClassifier s d reserved now = .ok (d', b)) : Agrees d d' := by
  simp only [Tables.reserveClassifier] at h
  split at h
  case isTrue => exact claimClassifier_agrees h
  case isFalse =>
    cases h
    exact .refl

-- What becomes of a decision that's begun: there's one already, or it's answered or stored.
inductive Begins (t : Tables F) (d : RoutingDecision) (now : Nat) :
    Txn F (RoutingDecision × Bool) → Prop
  | replayed {d' : RoutingDecision} : Known t.complexityRouting d d' →
    Begins t d now (.answer (d', false))
  | unkept {d' : RoutingDecision} : Agrees d d' → Begins t d now (.answer (d', false))
  | stored {d' : RoutingDecision} {s : ComplexityRoutingState}
    {txn : Txn F (RoutingDecision × Bool)} : txn.Routes t s (d', d'.pending) → Agrees d d' →
    s.decisions = (Routing.prune t.complexityRouting now).decisions ++ [d'] →
    s.config = t.complexityRouting.config → Begins t d now txn

omit [Host F] in
theorem begin_begins {t : Tables F} {txn : Txn F (RoutingDecision × Bool)}
    (h : t.beginRoutingDecision d reserved now = .ok txn) : Begins t d now txn := by
  simp only [Tables.beginRoutingDecision] at h
  split at h
  case h_1 old ho =>
    simp only [bind_eq_ok', ensure_eq_ok, exists_unit, pure_eq_ok] at h
    obtain ⟨hs, h⟩ := h
    have hf := List.find?_some ho
    simp only [Routing.sameInvocation, Bool.and_eq_true, decide_eq_true_eq] at hs hf
    subst h
    exact .replayed ⟨List.mem_of_find?_eq_some ho, hf.left, hs.left.left.left, hs.left.left.right⟩
  case h_2 =>
    simp only [bind_eq_ok', ensure_eq_ok, exists_unit] at h
    obtain ⟨_, _, _, ⟨d₁, b⟩, hc, _, h⟩ := h
    have hm : Agrees d (Routing.madeAt d now) := ⟨⟨rfl, rfl, rfl, rfl, rfl, rfl⟩, rfl, rfl⟩
    have hd := hm.trans (reserveClassifier_agrees hc)
    split at h
    case isTrue =>
      cases h
      exact .unkept (hd.trans ⟨⟨rfl, rfl, rfl, rfl, rfl, rfl⟩, rfl, rfl⟩)
    case isFalse =>
      cases h
      exact .stored rfl hd rfl rfl

-- A decision that's begun is one there is, or the one that was asked for.
theorem begin_agrees (h : (e.beginRoutingDecision io d reserved now).1 = .ok (d', claimed)) :
    (claimed = false ∧ Known e.routing d d') ∨ Agrees d d' := by
  have ⟨x, hx, ha⟩ := transact_answer h
  cases begin_begins hx
  case replayed hk =>
    cases ha
    exact .inl ⟨rfl, hk⟩
  case unkept hd =>
    cases ha
    exact .inr hd
  case stored hd _ _ hw =>
    cases hw
    cases ha
    exact .inr hd

-- What becomes of a decision that's finished: it was already, or it's stored.
inductive Ends (t : Tables F) (d : RoutingDecision) : Txn F RoutingDecision → Prop
  | replayed {d' : RoutingDecision} : Known t.complexityRouting d d' → Ends t d (.answer d')
  | stored {old d' : RoutingDecision} {s : ComplexityRoutingState} {txn : Txn F RoutingDecision} :
    txn.Routes t s d' →
    t.complexityRouting.decisions.find? (·.invocationId = d.invocationId) = some old →
    old.pending → About old d' → d'.createdAtSecs = old.createdAtSecs → Agrees d d' →
    s.decisions = Routing.replace t.complexityRouting.decisions d' →
    s.config = t.complexityRouting.config → Ends t d txn

theorem concluded_agrees {old : RoutingDecision} : Agrees d (Routing.concluded old d) := by
  simp only [Routing.concluded]
  split <;> exact ⟨⟨rfl, rfl, rfl, rfl, rfl, rfl⟩, rfl, rfl⟩

omit [Host F] in
theorem finish_ends {t : Tables F} {txn : Txn F RoutingDecision}
    (h : t.finishRoutingDecision d = .ok txn) : Ends t d txn := by
  simp only [Tables.finishRoutingDecision, bind_eq_ok', ensure_eq_ok, ofOption_eq_ok,
    exists_unit] at h
  obtain ⟨old, ho, hs, h⟩ := h
  have hf := List.find?_some ho
  simp only [Routing.sameDecision, Bool.and_eq_true, decide_eq_true_eq] at hs hf
  obtain ⟨⟨⟨⟨⟨⟨⟨hsc, hh⟩, hr⟩, hm⟩, hmo⟩, hcr⟩, _⟩, _⟩ := hs
  split at h
  case isTrue =>
    cases h
    exact .replayed ⟨List.mem_of_find?_eq_some ho, hf, hsc, hh⟩
  case isFalse hp =>
    simp only [bind_eq_ok', ensure_eq_ok, exists_unit, pure_eq_ok] at h
    obtain ⟨_, _, h⟩ := h
    have ha : Agrees d (Routing.concluded old d) := concluded_agrees
    have hd : About old d := ⟨hf.symm, hsc.symm, hh.symm, hr.symm, hm.symm, hmo.symm⟩
    refine .stored h.symm ho (by simpa using hp) (hd.trans ha.toAbout) ?_ ha rfl rfl
    rw [hcr, Routing.concluded]
    split <;> rfl

-- A finished decision is one there is, or the one it was finished with.
theorem finish_agrees (h : (e.finishRoutingDecision io d).1 = .ok d') :
    Known e.routing d d' ∨ Agrees d d' := by
  have ⟨x, hx, ha⟩ := transact_answer h
  cases finish_ends hx
  case replayed hk =>
    cases ha
    exact .inl hk
  case stored _ _ _ _ hd _ _ hw =>
    cases hw
    cases ha
    exact .inr hd

-- What an operation does to the decisions there are.
inductive Shift (s : ComplexityRoutingState) : RoutingOp F → ComplexityRoutingState → Prop
  | still {op : RoutingOp F} {s' : ComplexityRoutingState} : s'.decisions = s.decisions →
    Shift s op s'
  | begun {d d' : RoutingDecision} {reserved now : Nat} {io : Io} {s' : ComplexityRoutingState} :
    Agrees d d' → s'.decisions = (Routing.prune s now).decisions ++ [d'] →
    Shift s (.begin d reserved now io) s'
  | ended {old d d' : RoutingDecision} {io : Io} {s' : ComplexityRoutingState} :
    s.decisions.find? (·.invocationId = d.invocationId) = some old → old.pending → About old d' →
    d'.createdAtSecs = old.createdAtSecs → Agrees d d' →
    s'.decisions = Routing.replace s.decisions d' → Shift s (.finish d io) s'
  | served {d : RoutingDecision} {id providerId : String} {io : Io} {s' : ComplexityRoutingState} :
    s.decisions.find? (·.invocationId = d.invocationId) = some d →
    s'.decisions = Routing.replace s.decisions { d with servedProviderId := some providerId } →
    Shift s (.served id providerId io) s'
  | published {u : ComplexityRoutingUpdate} {now : Nat} {io : Io} {s' : ComplexityRoutingState} :
    s'.decisions = (Routing.prune s now).decisions → Shift s (.publish u now io) s'

theorem transact_shift {op : RoutingOp F} {txn : Result (Txn F α)}
    (h : ∀ x, txn = .ok x → (∃ a, x = .answer a) ∨
      ∃ s a, x.Routes e.tables s a ∧ Shift e.routing op s) :
    Shift e.routing op (e.transact io txn).2.routing := by
  have ht := e.transact_routing io txn fun x hx =>
    (h x hx).imp_right fun ⟨s, a, hw, _⟩ => ⟨s, a, hw⟩
  generalize (e.transact io txn).1 = answer at ht
  generalize (e.transact io txn).2 = e' at ht
  cases ht
  case failed he => exact .still (congrArg _ he.routing)
  case answered => exact .still rfl
  case saved hx hw hs =>
    cases h _ hx
    case inl ha =>
      have ⟨_, ha⟩ := ha
      rw [ha] at hw
      cases hw
    case inr ha =>
      have ⟨_, _, hw', hsh⟩ := ha
      injection hw.symm.trans hw' with ht
      rw [hs.routing.trans (congrArg Tables.complexityRouting ht)]
      exact hsh

theorem begin_shift :
    Shift (F := F) e.routing (.begin d reserved now io)
      (e.beginRoutingDecision io d reserved now).2.routing := by
  refine transact_shift fun x hx => ?_
  cases begin_begins hx
  case replayed => exact .inl ⟨_, rfl⟩
  case unkept => exact .inl ⟨_, rfl⟩
  case stored hd he _ hw => exact .inr ⟨_, _, hw, .begun hd he⟩

theorem finish_shift :
    Shift (F := F) e.routing (.finish d io) (e.finishRoutingDecision io d).2.routing := by
  refine transact_shift fun x hx => ?_
  cases finish_ends hx
  case replayed => exact .inl ⟨_, rfl⟩
  case stored hf hp ho hc hd he _ hw => exact .inr ⟨_, _, hw, .ended hf hp ho hc hd he⟩

theorem served_shift {id providerId : String} :
    Shift (F := F) e.routing (.served id providerId io)
      (e.recordRoutingServed io id providerId).2.routing := by
  refine transact_shift fun x hx => ?_
  cases served_cases hx
  case inl h => exact .inl ⟨_, h⟩
  case inr h =>
    have ⟨d, hd, _, hw⟩ := h
    have hi : d.invocationId = id := by simpa using List.find?_some hd
    exact .inr ⟨_, _, hw, .served (hi ▸ hd) rfl⟩

variable [RoutingHost] {r r' : Routed F} {op : RoutingOp F}

theorem publish_shift {u : ComplexityRoutingUpdate} :
    Shift (F := F) e.routing (.publish u now io)
      (e.publishComplexityRouting io u now).2.routing := by
  refine transact_shift fun x hx => ?_
  have ⟨_, _, hw⟩ := publish_cases hx
  exact .inr ⟨_, _, hw, .published rfl⟩

theorem step_shift (hs : r.engine.Synced) (h : Routed.Step r op r') :
    Shift r.engine.routing op r'.engine.routing := by
  have ⟨he, ho⟩ := h
  subst he
  cases op
  case begin => exact begin_shift
  case finish => exact finish_shift
  case served => exact served_shift
  case publish => exact publish_shift
  case restart => exact .still rfl
  case reload =>
    cases hd : r.engine.disk
    case none => exact .still (by simp only [Routed.exec, Engine.reload, hd])
    case some s =>
      refine .still ?_
      simp only [Routed.exec, Engine.reload, hd]
      exact congrArg ComplexityRoutingState.decisions (hs s hd).right
  case others => exact .still (congrArg _ (ho rfl).routing)

end Beginning

section Shifting

variable {s s' : ComplexityRoutingState} {op : RoutingOp F} {d d' old : RoutingDecision}

-- The decision that an operation is about to store.
def decision? : RoutingOp F → Option RoutingDecision
  | .begin d .. | .finish d .. => some d
  | _                          => none

theorem mem_replace {ds : List RoutingDecision} (h : d' ∈ Routing.replace ds d) :
    d' ∈ ds ∨ d' = d :=
  List.mem_or_eq_of_mem_set h

-- Decisions that are stored after an operation agree with one before it, or with its own.
theorem Shift.stored (h : Shift s op s') (hd : d' ∈ s'.decisions) :
    ∃ d, (d ∈ s.decisions ∨ d ∈ decision? op) ∧ Agrees d d' := by
  cases h
  case still he => exact ⟨d', .inl (he ▸ hd), .refl⟩
  case published he =>
    rw [he] at hd
    exact ⟨d', .inl (List.mem_of_mem_filter hd), .refl⟩
  case begun ha he =>
    rw [he] at hd
    cases List.mem_append.mp hd
    case inl hm => exact ⟨d', .inl (List.mem_of_mem_filter hm), .refl⟩
    case inr hm => exact ⟨_, .inr rfl, List.mem_singleton.mp hm ▸ ha⟩
  case ended ha he =>
    rw [he] at hd
    cases mem_replace hd
    case inl hm => exact ⟨d', .inl hm, .refl⟩
    case inr hm => exact ⟨_, .inr rfl, hm ▸ ha⟩
  case served d _ _ _ hf he =>
    rw [he] at hd
    cases mem_replace hd
    case inl hm => exact ⟨d', .inl hm, .refl⟩
    case inr hm =>
      exact ⟨d, .inl (List.mem_of_find?_eq_some hf), hm ▸ ⟨⟨rfl, rfl, rfl, rfl, rfl, rfl⟩, rfl, rfl⟩⟩

-- There's a decision still, with the same outcome unless that wasn't known yet.
structure Keeps (s : ComplexityRoutingState) (d d' : RoutingDecision) : Prop extends About d d' where
  stored  : d' ∈ s.decisions
  created : d'.createdAtSecs = d.createdAtSecs
  frozen  : d.pending = false → d'.pending = false ∧ Agrees d d'

theorem Keeps.of_mem (h : d ∈ s.decisions) : Keeps s d d :=
  ⟨Agrees.refl.toAbout, h, rfl, fun hp => ⟨hp, .refl⟩⟩

theorem Keeps.trans {d₁ d₂ d₃ : RoutingDecision} (h : Keeps s d₁ d₂) (h' : Keeps s' d₂ d₃) :
    Keeps s' d₁ d₃ := by
  refine ⟨h.toAbout.trans h'.toAbout, h'.stored, h'.created.trans h.created, fun hp => ?_⟩
  have ⟨hp, ha⟩ := h.frozen hp
  have ⟨hp, ha'⟩ := h'.frozen hp
  exact ⟨hp, ha.trans ha'⟩

theorem Keeps.prune {now : Nat} (h : d ∈ s.decisions)
    (hn : now ≤ d.createdAtSecs + Routing.retention) : d ∈ (Routing.prune s now).decisions := by
  refine List.mem_filter.mpr ⟨h, ?_⟩
  rw [Routing.retained, decide_eq_true_eq]
  omega

-- Replacing a decision keeps the others.
theorem Keeps.replace {ds : List RoutingDecision} {x : RoutingDecision}
    (h : s'.decisions = Routing.replace ds x)
    (hf : ds.find? (·.invocationId = x.invocationId) = some old) (hd : d ∈ ds)
    (hk : d = old → x ∈ s'.decisions → Keeps s' d x) : ∃ d', Keeps s' d d' := by
  have ⟨l, r, he, hr, _⟩ := Routing.replace_split hf
  rw [hr] at h
  rw [he] at hd
  cases List.mem_append.mp hd
  case inl hl => exact ⟨d, .of_mem (h ▸ List.mem_append_left _ hl)⟩
  case inr hm =>
    cases List.mem_cons.mp hm
    case inl ho => exact ⟨x, hk ho (h ▸ List.mem_append_right _ List.mem_cons_self)⟩
    case inr hr => exact ⟨d, .of_mem (h ▸ List.mem_append_right _ (List.mem_cons_of_mem _ hr))⟩

-- Until its retention is over, a decision's kept.
theorem Shift.keeps (h : Shift s op s') (hd : d ∈ s.decisions)
    (hn : ∀ now, op.clock? = some now → now ≤ d.createdAtSecs + Routing.retention) :
    ∃ d', Keeps s' d d' := by
  cases h
  case still he => exact ⟨d, .of_mem (he ▸ hd)⟩
  case published he => exact ⟨d, .of_mem (he ▸ Keeps.prune hd (hn _ rfl))⟩
  case begun he => exact ⟨d, .of_mem (he ▸ List.mem_append_left _ (Keeps.prune hd (hn _ rfl)))⟩
  case ended x _ hf hp ho hc ha he =>
    have hi : x.invocationId = _ := ha.invocation
    refine Keeps.replace he (hi ▸ hf) hd fun hdo hx => ?_
    subst hdo
    exact ⟨ho, hx, hc, fun hn => by rw [hn] at hp; cases hp⟩
  case served hf he =>
    refine Keeps.replace he hf hd fun hdo hx => ?_
    subst hdo
    exact ⟨⟨rfl, rfl, rfl, rfl, rfl, rfl⟩, hx, rfl,
      fun hp => ⟨hp, ⟨rfl, rfl, rfl, rfl, rfl, rfl⟩, rfl, rfl⟩⟩

theorem routingDecision_of_mem (hu : (s.decisions.map (·.invocationId)).Nodup)
    (h : d ∈ s.decisions) : routingDecision s d.invocationId = some d := by
  rw [routingDecision]
  generalize s.decisions = ds at hu h
  induction ds
  case nil => cases h
  case cons x ds ih =>
    have ⟨hx, hu⟩ := List.nodup_cons.mp hu
    cases List.mem_cons.mp h
    case inl he => exact he ▸ List.find?_cons_of_pos (by simp)
    case inr hm =>
      have hn : x.invocationId ≠ d.invocationId := fun he =>
        hx (List.mem_map.mpr ⟨d, hm, he.symm⟩)
      rw [List.find?_cons_of_neg (by simpa using hn)]
      exact ih hu hm

end Shifting

section Answering

variable [RouteHost] {policy : RoutingPolicy} {req : RoutingRequest} {c : RoutingClassifier}
variable {f : ProviderFormat} {d : RoutingDecision} {reply : Option Reply} {latency : Nat}

-- An answer that allows the simple route: it was read, finds the context enough, and names only what
-- a simple task may be.
structure Admits (f : ProviderFormat) (reply : Option Reply) : Prop where
  read : ∃ r classified usage, reply = some r ∧ classify f r = .ok (classified, usage) ∧
    classified.complexity = .simple ∧ classified.contextSufficient ∧
    (classified.taskType = .general ∨ classified.taskType = .rewrite ∨
      classified.taskType = .translation) ∧
    ∀ code ∈ classified.reasonCodes, code = .shortStandalone ∨ code = .other

omit [RouteHost] in
theorem metered_agrees {usage : Option (Nat × Nat)} : Agrees d (metered c d usage) := by
  simp only [metered]
  split <;> exact ⟨⟨rfl, rfl, rfl, rfl, rfl, rfl⟩, rfl, rfl⟩

omit [RouteHost] in
theorem judged_simple {classified : Classification} (h : judged classified = .simple) :
    classified.complexity = .simple ∧ classified.contextSufficient ∧
      (classified.taskType = .general ∨ classified.taskType = .rewrite ∨
        classified.taskType = .translation) ∧
      ∀ code ∈ classified.reasonCodes, code = .shortStandalone ∨ code = .other := by
  cases hs : classified.contextSufficient
  case false => simp [judged, hs] at h
  case true =>
    simp only [judged, hs, if_true] at h
    split_ifs at h with hn
    have hn := Decidable.not_not.mp (not_and.mp hn h)
    exact ⟨h, rfl, hn⟩

-- What an answer makes of a decision on the conservative route: that route, unless the answer
-- allows the simple one.
structure Answered (policy : RoutingPolicy) (req : RoutingRequest) (f : ProviderFormat)
    (reply : Option Reply) (d d' : RoutingDecision) : Prop extends About d d' where
  route  : d'.providerIds = d.providerIds ∨
    d'.complexity = .simple ∧ d'.providerIds = narrow req policy.simpleProviderIds
  simple : d'.complexity = .simple → Admits f reply

omit [RouteHost] in
theorem labelled_about {cx : Complexity} : About d (labelled policy req d cx) := by
  simp only [labelled]
  split
  case h_1 => split <;> exact ⟨rfl, rfl, rfl, rfl, rfl, rfl⟩
  case h_2 => exact ⟨rfl, rfl, rfl, rfl, rfl, rfl⟩
  case h_3 => exact ⟨rfl, rfl, rfl, rfl, rfl, rfl⟩

omit [RouteHost] in
@[simp]
theorem labelled_complexity {cx : Complexity} : (labelled policy req d cx).complexity = cx := by
  cases cx
  case simple =>
    simp only [labelled]
    split <;> rfl
  case complex => rfl
  case unknown => rfl

omit [RouteHost] in
theorem labelled_route {cx : Complexity} :
    (labelled policy req d cx).providerIds = d.providerIds ∨ cx = .simple ∧
      (labelled policy req d cx).providerIds = narrow req policy.simpleProviderIds := by
  cases cx
  case simple =>
    by_cases hs : (narrow req policy.simpleProviderIds).isEmpty
    case pos => exact .inl (by simp only [labelled, if_pos hs])
    case neg => exact .inr ⟨rfl, by simp only [labelled, if_neg hs]⟩
  case complex => exact .inl rfl
  case unknown => exact .inl rfl

theorem answered_answered (hd : d.complexity ≠ .simple) :
    Answered policy req f reply d (answered policy req c f d reply latency) := by
  simp only [answered]
  split
  case h_1 r usage hr =>
    have ⟨r', hre, hcl⟩ := Option.map_eq_some_iff.mp hr
    let waited := { d with pending := false, classifierLatencyMs := latency }
    have hw : About d waited := ⟨rfl, rfl, rfl, rfl, rfl, rfl⟩
    have hm : Agrees _ (metered c (labelled policy req waited (judged r)) usage) := metered_agrees
    refine ⟨(hw.trans labelled_about).trans hm.toAbout, ?_, fun h => ?_⟩
    case refine_1 =>
      rw [hm.route, hm.complexity, labelled_complexity]
      exact labelled_route
    case refine_2 =>
      rw [hm.complexity, labelled_complexity] at h
      have ⟨hc, hs, ht, hr⟩ := judged_simple h
      exact ⟨⟨r', r, usage, hre, hcl, hc, hs, ht, hr⟩⟩
  case h_2 => exact ⟨⟨rfl, rfl, rfl, rfl, rfl, rfl⟩, .inl rfl, fun h => absurd h hd⟩
  case h_3 => exact ⟨⟨rfl, rfl, rfl, rfl, rfl, rfl⟩, .inl rfl, fun h => absurd h hd⟩

end Answering
end Gateway.Router
