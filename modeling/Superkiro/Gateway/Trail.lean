import Superkiro.Gateway.Decisions

namespace Gateway.Router

open Billing Except

-- What a router has been through: its states, the latest first, and what each classifier call was
-- answered.
structure Trail (F : Type) where
  routed  : Routed F
  past    : List (Routed F)
  replies : List (String × ProviderFormat × Option Reply)

-- The policy that a decision leaves behind.
def leftover (d : RoutingDecision) : RoutingPolicy :=
  ⟨d.modelMapId, d.mode, d.providerIds, d.providerIds⟩

def decides : RoutingOp F → Bool
  | .begin .. | .finish ..                                         => true
  | .served .. | .publish .. | .restart .. | .reload | .others ..  => false

namespace Trail

section

variable (t : Trail F)

def states : List (Routed F) := t.routed :: t.past

def turned (r : Routed F) : Trail F := { t with routed := r, past := t.states }

def heard (id : String) (f : ProviderFormat) (reply : Option Reply) : Trail F :=
  { t with replies := (id, f, reply) :: t.replies }

-- A request that read a configuration and found a policy in it, or one that a decision left behind.
structure Posed (config : ComplexityRoutingConfig) (policy : RoutingPolicy)
    (req : RoutingRequest) : Prop where
  read  : ∃ r ∈ t.states, r.engine.routing.config = config
  found : policy ∈ config.policies ∨ ∃ r ∈ t.states, ∃ d ∈ r.engine.routing.decisions,
    d.invocationId = req.invocationId ∧ policy = leftover d

-- A plan for such a request, made with the latest decision that it read.
structure Drawn (config : ComplexityRoutingConfig) (policy : RoutingPolicy) (req : RoutingRequest)
    (pool : Option ClassifierPool) (p : Plan) : Prop extends t.Posed config policy req where
  plan : ∃ r ∈ t.states, ∃ runtime, p = plan config policy req
    (latestRoutingDecision r.engine.routing req.scope req.now) runtime pool

end

-- A request begins its decision, or finishes it when its classifier call is answered. Any number of
-- them are under way, and what else is done comes in between.
inductive Step [Host F] [RoutingHost] [RouteHost] (t : Trail F) : RoutingOp F → Trail F → Prop
  | settled {config : ComplexityRoutingConfig} {policy : RoutingPolicy} {req : RoutingRequest}
    {pool : Option ClassifierPool} {d : RoutingDecision} {io : Io} :
    t.Drawn config policy req pool (.settled d) →
    Step t (.begin d 0 req.now io) (t.turned (t.routed.exec (.begin d 0 req.now io)))
  | asked {config : ComplexityRoutingConfig} {policy : RoutingPolicy} {req : RoutingRequest}
    {pool : Option ClassifierPool} {c : RoutingClassifier} {f : ProviderFormat}
    {d : RoutingDecision} {reserved : Nat} {io : Io} :
    t.Drawn config policy req pool (.ask c f d reserved) →
    Step t (.begin d reserved req.now io) (t.turned (t.routed.exec (.begin d reserved req.now io)))
  | answered {config : ComplexityRoutingConfig} {policy : RoutingPolicy} {req : RoutingRequest}
    {pool : Option ClassifierPool} {c : RoutingClassifier} {f : ProviderFormat}
    {d d' : RoutingDecision} {reserved latency : Nat} {r : Routed F} {reply : Option Reply}
    {io io' : Io} : t.Drawn config policy req pool (.ask c f d reserved) → r ∈ t.states →
    (r.engine.beginRoutingDecision io d reserved req.now).1 = .ok (d', true) →
    Step t (.finish (answered policy req c f d' reply latency) io')
      ((t.turned (t.routed.exec (.finish (answered policy req c f d' reply latency) io'))).heard
        req.invocationId f reply)
  | other {op : RoutingOp F} {r : Routed F} : decides op = false → Routed.Step t.routed op r →
    Step t op (t.turned r)

structure Fresh (t : Trail F) : Prop where
  routed  : t.routed.Fresh
  past    : t.past = []

-- A decision with a route that a policy has.
structure Fits [RouteHost] (t : Trail F) (policy : RoutingPolicy) (d : RoutingDecision) : Prop where
  mapping : d.modelMapId = policy.modelMapId
  mode    : d.mode = policy.mode
  route   : d.providerIds ⊆ policy.complexProviderIds ∨
    d.complexity = .simple ∧ d.providerIds ⊆ policy.simpleProviderIds
  simple  : d.complexity = .simple →
    ∃ f reply, (d.invocationId, f, reply) ∈ t.replies ∧ Admits f reply

-- A decision with a route that a policy of its revision allows, or that narrows the route of an
-- earlier decision: one of its own invocation, or the one of its conversation that it continues.
inductive Allowed [RouteHost] (t : Trail F) : RoutingDecision → Prop
  | published {r : Routed F} {policy : RoutingPolicy} {d : RoutingDecision} : r ∈ t.states →
    r.engine.routing.config.revision = d.revision → policy ∈ r.engine.routing.config.policies →
    t.Fits policy d → Allowed t d
  | leftover {d₀ d : RoutingDecision} : Allowed t d₀ → d.invocationId = d₀.invocationId →
    t.Fits (leftover d₀) d → Allowed t d
  | continued {d₀ d : RoutingDecision} : Allowed t d₀ → d.scope = d₀.scope → d.mode = d₀.mode →
    d.revision = d₀.revision → d.complexity = d₀.complexity → d.providerIds ⊆ d₀.providerIds →
    Allowed t d

def Lawful [RouteHost] (t : Trail F) : Prop :=
  ∀ r ∈ t.states, ∀ d ∈ r.engine.routing.decisions, t.Allowed d

section

variable [RouteHost] {t t' : Trail F} {config : ComplexityRoutingConfig} {policy : RoutingPolicy}
variable {req : RoutingRequest} {d d' : RoutingDecision} {pool : Option ClassifierPool}

theorem Fits.mono (h : t.Fits policy d) (hr : t.replies ⊆ t'.replies) : t'.Fits policy d where
  mapping  := h.mapping
  mode     := h.mode
  route    := h.route
  simple s :=
    have ⟨f, reply, hm, ha⟩ := h.simple s
    ⟨f, reply, hr hm, ha⟩

theorem Fits.agrees (h : t.Fits policy d) (ha : Agrees d d') : t.Fits policy d' where
  mapping := ha.mapping.trans h.mapping
  mode    := ha.mode.trans h.mode
  route   := by rw [ha.route, ha.complexity]; exact h.route
  simple  := by rw [ha.complexity, ha.invocation]; exact h.simple

theorem Allowed.mono (h : t.Allowed d) (hs : t.states ⊆ t'.states) (hr : t.replies ⊆ t'.replies) :
    t'.Allowed d := by
  induction h
  case published hm he hp hf => exact .published (hs hm) he hp (hf.mono hr)
  case leftover hi hf ih => exact .leftover ih hi (hf.mono hr)
  case continued hsc hm he hc hi ih => exact .continued ih hsc hm he hc hi

theorem Allowed.agrees (h : t.Allowed d) (ha : Agrees d d') : t.Allowed d' := by
  cases h
  case published hm hp he hf => exact .published hm (he.trans ha.revision.symm) hp (hf.agrees ha)
  case leftover h hi hf => exact .leftover h (ha.invocation.trans hi) (hf.agrees ha)
  case continued h hs hm he hc hi =>
    exact .continued h (ha.scope.trans hs) (ha.mode.trans hm) (ha.revision.trans he)
      (ha.complexity.trans hc) (ha.route ▸ hi)

-- The policies that are published for a decision's mode, with its route among their providers.
theorem Allowed.within (h : t.Allowed d) : ∃ r ∈ t.states, ∃ p ∈ r.engine.routing.config.policies,
    d.mode = p.mode ∧ ∀ id ∈ d.providerIds, id ∈ p.simpleProviderIds ∨ id ∈ p.complexProviderIds := by
  induction h
  case published hm _ hp hf =>
    refine ⟨_, hm, _, hp, hf.mode, fun id hi => ?_⟩
    cases hf.route
    case inl hc => exact .inr (hc hi)
    case inr hs => exact .inl (hs.right hi)
  case leftover hf ih =>
    have ⟨r, hr, p, hp, hm, hs⟩ := ih
    refine ⟨r, hr, p, hp, hf.mode.trans hm, fun id hi => hs id ?_⟩
    cases hf.route
    case inl hc => exact hc hi
    case inr hc => exact hc.right hi
  case continued hm _ _ hi ih =>
    have ⟨r, hr, p, hp, hm', hs⟩ := ih
    exact ⟨r, hr, p, hp, hm.trans hm', fun id h => hs id (hi h)⟩

omit [RouteHost] in
theorem Posed.mono (h : t.Posed config policy req) (hs : t.states ⊆ t'.states) :
    t'.Posed config policy req where
  read  :=
    have ⟨r, hr, hc⟩ := h.read
    ⟨r, hs hr, hc⟩
  found := h.found.imp_right fun ⟨r, hr, hd⟩ => ⟨r, hs hr, hd⟩

omit [RouteHost] in
theorem Drawn.mono {p : Plan} (h : t.Drawn config policy req pool p) (hs : t.states ⊆ t'.states) :
    t'.Drawn config policy req pool p where
  toPosed := h.toPosed.mono hs
  plan    :=
    have ⟨r, hr, hp⟩ := h.plan
    ⟨r, hs hr, hp⟩

-- What fits the policy of a request is allowed.
theorem Posed.allowed (h : t.Posed config policy req) (hl : t.Lawful)
    (ha : About (draft config policy req) d) (hf : t.Fits policy d) : t.Allowed d := by
  cases h.found
  case inl hp =>
    have ⟨r, hr, hc⟩ := h.read
    subst hc
    exact .published hr ha.revision.symm hp hf
  case inr hp =>
    have ⟨r, hr, d₀, hd, hi, he⟩ := hp
    subst he
    exact .leftover (hl r hr d₀ hd) (ha.invocation.trans hi.symm) hf

omit [RouteHost] in
theorem narrow_subset {ids : List String} : narrow req ids ⊆ ids := List.filter_subset_self _

omit [RouteHost] in
theorem served_subset {p : Option String} {ids : List String} : served p ids ⊆ ids := by
  intro id hi
  cases p
  case none => exact hi
  case some p =>
    simp only [served] at hi
    split at hi
    case isFalse => exact hi
    case isTrue hc =>
      cases List.mem_cons.mp hi
      case inl he => exact he ▸ List.contains_iff_mem.mp hc
      case inr hm => exact List.mem_of_mem_erase hm

omit [RouteHost] in
theorem latest_mem {s : ComplexityRoutingState} {scope : String} {now : Nat}
    (h : d ∈ latestRoutingDecision s scope now) : d ∈ s.decisions ∧ d.scope = scope := by
  have hm := List.argmax_mem h
  have ⟨hm, hs⟩ := List.mem_filter.mp (List.mem_reverse.mp hm)
  simp only [Bool.and_eq_true, decide_eq_true_eq] at hs
  exact ⟨hm, hs.left.left.left.left⟩

-- What's planned for a request is allowed, or the conservative route it waits on.
theorem Posed.suggested {r : Routed F} {now : Nat} (h : t.Posed config policy req) (hl : t.Lawful)
    (hr : r ∈ t.states) (ha : About (draft config policy req) d)
    (hs : Suggested config policy req (latestRoutingDecision r.engine.routing req.scope now) d) :
    t.Allowed d := by
  cases hs
  case default hc he =>
    exact h.allowed hl ha ⟨ha.mapping, ha.mode, .inl (he ▸ narrow_subset), fun h => absurd h hc⟩
  case resumed hc he =>
    refine h.allowed hl ha ⟨ha.mapping, ha.mode, .inl ?_, fun h => absurd h hc⟩
    exact he ▸ List.Subset.trans served_subset narrow_subset
  case inherited p hp hm hv _ hc he =>
    have ⟨hd, hsc⟩ := latest_mem hp
    refine .continued (hl r hr p hd) (ha.scope.trans hsc.symm) (ha.mode.trans hm.symm)
      (ha.revision.trans hv.symm) hc ?_
    exact he ▸ List.Subset.trans served_subset narrow_subset

-- The route that's waited on is the conservative one.
theorem Posed.waiting (h : t.Posed config policy req) (hl : t.Lawful)
    (ha : Agrees (draft config policy req) d) : t.Allowed d := by
  refine Allowed.agrees (h.allowed hl Agrees.refl.toAbout ?_) ha
  exact ⟨rfl, rfl, .inl narrow_subset, nofun⟩

-- What a call's answer makes of the decision that waits for it.
theorem Posed.answered {f : ProviderFormat} {reply : Option Reply} (h : t.Posed config policy req)
    (hl : (t.heard req.invocationId f reply).Lawful) (ha : Agrees (draft config policy req) d)
    (hd : Answered policy req f reply d d') : (t.heard req.invocationId f reply).Allowed d' := by
  have h' : (t.heard req.invocationId f reply).Posed config policy req := ⟨h.read, h.found⟩
  have hab := ha.toAbout.trans hd.toAbout
  refine h'.allowed hl hab ⟨hab.mapping, hab.mode, ?_, fun hs => ?_⟩
  case refine_1 =>
    refine hd.route.imp (fun he => ?_) fun ⟨hs, he⟩ => ⟨hs, he ▸ narrow_subset⟩
    rw [he, ha.route]
    exact narrow_subset
  case refine_2 =>
    refine ⟨f, reply, ?_, hd.simple hs⟩
    rw [hab.invocation]
    exact List.mem_cons_self

end

section

variable [Host F] [RoutingHost] [RouteHost] {t t' t₀ : Trail F} {op : RoutingOp F}
variable {ops : List (RoutingOp F)} {config : ComplexityRoutingConfig} {policy : RoutingPolicy}
variable {req : RoutingRequest} {d d' : RoutingDecision} {pool : Option ClassifierPool}

theorem Step.routed (h : t.Step op t') : Routed.Step t.routed op t'.routed := by
  cases h
  case settled => exact ⟨rfl, nofun⟩
  case asked => exact ⟨rfl, nofun⟩
  case answered => exact ⟨rfl, nofun⟩
  case other h => exact h

theorem Step.states (h : t.Step op t') : t'.states = t'.routed :: t.states := by
  cases h <;> rfl

theorem Step.replies (h : t.Step op t') : t.replies ⊆ t'.replies := by
  cases h
  case settled => exact List.Subset.refl _
  case asked => exact List.Subset.refl _
  case answered => exact List.subset_cons_self _ _
  case other => exact List.Subset.refl _

omit [Host F] [RoutingHost] in
theorem Lawful.mono (h : t.Lawful) (hs : t'.states = t.states) (hr : t.replies ⊆ t'.replies) :
    t'.Lawful := by
  intro r hm d hd
  rw [hs] at hm
  exact (h r hm d hd).mono (hs ▸ List.Subset.refl _) hr

omit [Host F] [RoutingHost] [RouteHost] in
theorem Drawn.planned {p : Plan} (h : t.Drawn config policy req pool p) : ∃ r ∈ t.states,
    Planned config policy req (latestRoutingDecision r.engine.routing req.scope req.now) pool p :=
  have ⟨r, hr, _, he⟩ := h.plan
  ⟨r, hr, he ▸ plan_planned⟩

omit [Host F] [RoutingHost] in
theorem Drawn.allowed (h : t.Drawn config policy req pool (.settled d)) (hl : t.Lawful) :
    t.Allowed d := by
  have ⟨r, hr, hp⟩ := h.planned
  cases hp
  case settled ha hs => exact h.toPosed.suggested hl hr ha hs

omit [Host F] [RoutingHost] [RouteHost] in
theorem Drawn.waits {c : RoutingClassifier} {f : ProviderFormat} {n : Nat}
    (h : t.Drawn config policy req pool (.ask c f d n)) : Agrees (draft config policy req) d := by
  have ⟨_, _, hp⟩ := h.planned
  cases hp
  case ask ha => exact ha

-- A decision that's begun for a classifier call, with the answer to that.
omit [RoutingHost] in
theorem Drawn.answered {c : RoutingClassifier} {f : ProviderFormat} {n latency : Nat} {io : Io}
    {e : Engine F} {reply : Option Reply} (h : t.Drawn config policy req pool (.ask c f d n))
    (hl : t.Lawful) (hb : (e.beginRoutingDecision io d n req.now).1 = .ok (d', true)) :
    (t.heard req.invocationId f reply).Allowed (answered policy req c f d' reply latency) := by
  have ha : Agrees (draft config policy req) d' := by
    cases begin_agrees hb
    case inl hk => cases hk.left
    case inr ha => exact h.waits.trans ha
  have hd : d'.complexity ≠ .simple := by
    rw [ha.complexity]
    nofun
  exact h.toPosed.answered (hl.mono rfl (List.subset_cons_self _ _)) ha (answered_answered hd)

-- The decision that an operation stores is allowed.
theorem Step.allowed (h : t.Step op t') (hl : t.Lawful) (hd : d ∈ decision? op) :
    t'.Allowed d := by
  have hs : t.states ⊆ t'.states := h.states ▸ List.subset_cons_self _ _
  cases h
  case settled hp =>
    cases hd
    exact (hp.allowed hl).mono hs (List.Subset.refl _)
  case asked hp =>
    cases hd
    exact (hp.toPosed.waiting hl hp.waits).mono hs (List.Subset.refl _)
  case answered hp _ hb =>
    cases hd
    exact (hp.answered hl hb).mono hs (List.Subset.refl _)
  case other hp _ =>
    cases op
    case begin => cases hp
    case finish => cases hp
    all_goals cases hd

theorem Lawful.step (h : t.Lawful) (hs : t.routed.engine.Synced) (ht : t.Step op t') :
    t'.Lawful := by
  intro r hr d hd
  rw [ht.states] at hr
  have hm : t.states ⊆ t'.states := ht.states ▸ List.subset_cons_self _ _
  cases List.mem_cons.mp hr
  case inr hr => exact (h r hr d hd).mono hm ht.replies
  case inl he =>
    subst he
    have ⟨d₀, hd₀, ha⟩ := (step_shift hs ht.routed).stored hd
    refine Allowed.agrees ?_ ha
    cases hd₀
    case inl hd₀ => exact (h _ List.mem_cons_self d₀ hd₀).mono hm ht.replies
    case inr hd₀ => exact ht.allowed h hd₀

-- What holds of a router's trail from the start.
structure Kept (t : Trail F) : Prop where
  routed : t.routed.Kept
  lawful : t.Lawful

omit [Host F] [RoutingHost] in
theorem Fresh.kept (h : t.Fresh) : t.Kept where
  routed := h.routed.kept
  lawful := by
    intro r hr d hd
    rw [states, h.past] at hr
    rw [List.mem_singleton.mp hr, h.routed.routing] at hd
    cases hd

theorem Kept.step (h : t.Kept) (hs : t.Step op t') : t'.Kept :=
  ⟨h.routed.step hs.routed, h.lawful.step h.routed.synced hs⟩

theorem Kept.run (h : t.Kept) (hr : Run Step t ops t') : t'.Kept := hr.preserves Kept.step h

theorem routed_run (hr : Run Step t ops t') : Run Routed.Step t.routed ops t'.routed := by
  induction hr
  case nil => exact .nil
  case cons hs _ ih => exact .cons hs.routed ih

-- A decision's kept until its retention is over.
theorem Kept.keeps (h : t.Kept) (hd : d ∈ t.routed.engine.routing.decisions)
    (hr : Run Step t ops t') (hn : ∀ op ∈ ops, ∀ now, op.clock? = some now →
      now ≤ d.createdAtSecs + Routing.retention) :
    ∃ d', Keeps t'.routed.engine.routing d d' := by
  induction hr generalizing d
  case nil => exact ⟨d, .of_mem hd⟩
  case cons hs _ ih =>
    have ⟨hn, hns⟩ := List.forall_mem_cons.mp hn
    have ⟨d₁, hk⟩ := (step_shift h.routed.synced hs.routed).keeps hd hn
    have ⟨d₂, hk'⟩ := ih (h.step hs) hk.stored (hk.created ▸ hns)
    exact ⟨d₂, hk.trans hk'⟩

end

end Trail
end Gateway.Router
