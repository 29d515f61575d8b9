import Superkiro.Gateway.Trail

namespace Gateway.Router

open Billing Except

-- A request that's to be routed, with the engine as it finds it and what its classifier call is
-- answered, if one is made.
structure Inquiry (F T : Type) where
  moments    : Moments F
  io         : Io
  io'        : Io
  config     : ComplexityRoutingConfig
  policy     : RoutingPolicy
  asked      : Asked
  pool       : Option ClassifierPool
  reply      : Option Reply
  latencyMs  : Nat
  candidates : List (String × T)

namespace Routing

def targets : Routing T → List (String × T)
  | attempts cs       => cs
  | unsaved | noRoute => []

end Routing

namespace Inquiry

variable [RouteHost] (q : Inquiry F T)

def req : RoutingRequest := request q.asked q.policy (q.candidates.map (·.1))

def plan : Plan :=
  Router.plan q.config q.policy q.req
    (latestRoutingDecision q.moments.latest.routing q.req.scope q.req.now) q.moments.opening q.pool

-- The operation that begins the decision.
def begins : RoutingOp F :=
  match q.plan with
  | .settled d          => .begin d 0 q.req.now q.io
  | .ask _ _ d reserved => .begin d reserved q.req.now q.io

-- The engines a request finds are among those of a trail, and so are its configuration and policy.
structure Along (t : Trail F) : Prop where
  posed  : t.Posed q.config q.policy q.req
  stored : ∃ r ∈ t.states, q.moments.stored = r.engine
  latest : ∃ r ∈ t.states, q.moments.latest = r.engine
  begun  : ∃ r ∈ t.states, q.moments.begun = r.engine
  ended  : ∃ r ∈ t.states, q.moments.ended = r.engine

variable {q} in
theorem begins_clock : q.begins.clock? = some q.asked.now := by
  rw [begins]
  split <;> rfl

variable [Host F]

def decided : Decided :=
  decide q.moments q.io q.io' q.config q.policy q.req q.pool q.reply q.latencyMs

-- The operation that finishes it, if there's a call to wait for.
def finishes : Option (RoutingOp F) :=
  match q.plan with
  | .settled _          => none
  | .ask c f d reserved =>
    match (q.moments.begun.beginRoutingDecision q.io d reserved q.req.now).1 with
    | .ok (d, true) =>
      some (.finish (answered q.policy q.req c f d q.reply q.latencyMs) q.io')
    | _             => none

def routed : Routing T :=
  route q.moments q.io q.io' q.config (some q.policy) (some q.asked) q.pool q.reply q.latencyMs
    q.candidates

-- What a decision makes of the candidates. They are narrowed by an enforced decision and by no
-- other, and refused where it leaves none.
structure Narrowed (candidates : List (String × T)) (d : RoutingDecision) (r : Routing T) :
    Prop where
  others  : d.mode ≠ .enforce → r.targets = candidates
  subset  : ∀ c ∈ r.targets, c ∈ candidates
  order   : d.mode = .enforce → (r.targets.map (·.1)).Sublist d.providerIds
  kept    : d.mode = .enforce → ∀ id ∈ d.providerIds, id ∈ candidates.map (·.1) →
    ∃ c ∈ r.targets, c.1 = id
  refused : r.targets = [] → r = .noRoute

section

variable {q} {t : Trail F} {d : RoutingDecision}

-- The ways to a decision, and whether the classifier was called on them.
inductive Decides (q : Inquiry F T) (d : RoutingDecision) : Bool → Prop
  | replayed : routingDecision q.moments.stored.routing q.req.invocationId = some d →
    Decides q d false
  | begun {d₀ : RoutingDecision} {n : Nat} {claimed : Bool} :
    (q.plan = .settled d₀ ∨ ∃ c f, q.plan = .ask c f d₀ n) →
    (q.moments.begun.beginRoutingDecision q.io d₀ n q.req.now).1 = .ok (d, claimed) →
    Decides q d false
  | called {c : RoutingClassifier} {f : ProviderFormat} {d₀ d₁ : RoutingDecision} {n : Nat} :
    q.plan = .ask c f d₀ n →
    (q.moments.begun.beginRoutingDecision q.io d₀ n q.req.now).1 = .ok (d₁, true) →
    (q.moments.ended.finishRoutingDecision q.io'
      (answered q.policy q.req c f d₁ q.reply q.latencyMs)).1 = .ok d → Decides q d true

theorem decided_decides (h : q.decided.answer = .ok d) : q.Decides d q.decided.called := by
  generalize ho : q.decided = out at h ⊢
  simp only [decided, decide] at ho
  split at ho
  case h_1 d' hd =>
    split at ho
    case isTrue =>
      subst ho
      cases h
    case isFalse =>
      subst ho
      cases h
      exact .replayed hd
  case h_2 =>
    split at ho
    case h_1 d₀ hp =>
      subst ho
      cases hb : (q.moments.begun.beginRoutingDecision q.io d₀ 0 q.req.now).1
      case error => simp only [hb] at h; cases h
      case ok x =>
        simp only [hb] at h
        cases h
        exact .begun (.inl hp) hb
    case h_2 c f d₀ n hp =>
      split at ho
      case h_1 =>
        subst ho
        cases h
      case h_2 hb =>
        subst ho
        cases h
        exact .begun (.inr ⟨c, f, hp⟩) hb
      case h_3 hb =>
        subst ho
        exact .called hp hb h

omit [Host F] in
theorem Along.drawn (h : q.Along t) : t.Drawn q.config q.policy q.req q.pool q.plan where
  toPosed := h.posed
  plan    :=
    have ⟨r, hr, he⟩ := h.latest
    ⟨r, hr, q.moments.opening, by rw [plan, he]⟩

omit [Host F] in
theorem Along.known {e : Engine F} {d₀ : RoutingDecision} (hl : t.Lawful)
    (he : ∃ r ∈ t.states, e = r.engine) (hk : Known e.routing d₀ d) : t.Allowed d := by
  have ⟨r, hr, he⟩ := he
  subst he
  exact hl r hr d hk.stored

-- What a request is answered is allowed, with what its own call is answered where it made one.
theorem Along.allowed (h : q.Along t) (hl : t.Lawful) (hd : q.decided.answer = .ok d) :
    (q.decided.called = false → t.Allowed d) ∧ (q.decided.called = true →
      ∃ p ∈ q.pool, (t.heard q.asked.invocationKey p.format q.reply).Allowed d) := by
  have hs := decided_decides hd
  generalize q.decided.called = called at hs
  cases hs
  case replayed hm =>
    have ⟨r, hr, he⟩ := h.stored
    rw [he] at hm
    exact ⟨fun _ => hl r hr d (List.mem_of_find?_eq_some hm), nofun⟩
  case begun hp hb =>
    refine ⟨fun _ => ?_, nofun⟩
    cases begin_agrees hb
    case inl hk => exact Along.known hl h.begun hk.right
    case inr ha =>
      refine Trail.Allowed.agrees ?_ ha
      have hw := h.drawn
      cases hp
      case inl hp =>
        rw [hp] at hw
        exact hw.allowed hl
      case inr hp =>
        have ⟨_, _, hp⟩ := hp
        rw [hp] at hw
        exact h.posed.waiting hl hw.waits
  case called hp hb hf =>
    refine ⟨nofun, fun _ => ?_⟩
    have hw := h.drawn
    rw [hp] at hw
    have ⟨_, _, hpl⟩ := hw.planned
    cases hpl
    case ask p hm _ =>
      refine ⟨p, hm, ?_⟩
      cases finish_agrees hf
      case inl hk =>
        have ha := Along.known hl h.ended hk
        exact ha.mono (List.Subset.refl _) (List.subset_cons_self _ _)
      case inr ha => exact Trail.Allowed.agrees (hw.answered hl hb) ha

theorem routed_eq : q.routed =
    match q.decided.answer with
    | .error _ => .unsaved
    | .ok d    =>
      if (applyDecision q.candidates d).isEmpty then .noRoute
      else .attempts (applyDecision q.candidates d) :=
  rfl

theorem routed_narrowed (h : q.decided.answer = .ok d) : Narrowed q.candidates d q.routed := by
  have hr : q.routed = if (applyDecision q.candidates d).isEmpty then .noRoute
      else .attempts (applyDecision q.candidates d) := by
    rw [routed_eq, h]
  have ht : q.routed.targets = applyDecision q.candidates d := by
    rw [hr]
    split
    case isTrue he => exact (List.isEmpty_iff.mp he).symm
    case isFalse => rfl
  constructor
  case others => exact fun hm => ht.trans (applyDecision_of_ne hm)
  case subset => exact ht ▸ applyDecision_subset
  case order => exact fun hm => ht ▸ applyDecision_sublist hm
  case kept => exact fun hm id hi hc => ht ▸ mem_applyDecision hm hi hc
  case refused =>
    intro he
    rw [hr, if_pos (List.isEmpty_iff.mpr (ht ▸ he))]

theorem routed_unsaved {err : BillingError} (h : q.decided.answer = .error err) :
    q.routed = .unsaved := by
  rw [routed_eq, h]

-- A decision that's stored is what a request with its identity is answered.
theorem decided_replayed (h : routingDecision q.moments.stored.routing q.req.invocationId = some d)
    (hs : d.scope = q.req.scope) (hh : d.requestHash = q.req.requestHash) :
    q.decided.answer = .ok d ∧ q.decided.called = false := by
  rw [decided, decide]
  split
  case h_2 hn => rw [h] at hn; cases hn
  case h_1 d' hd =>
    rw [h] at hd
    cases hd
    rw [if_neg (by simp [hs, hh])]
    exact ⟨rfl, rfl⟩

-- A classifier call is one that was granted.
theorem granted_of_called [RoutingHost] {r : Routed F} (h : q.decided.called = true)
    (hr : q.moments.begun = r.engine) :
    ∃ g, r.granted q.begins = some g ∧ g.invocationId = q.asked.invocationKey ∧
      g.grantedAt = q.asked.now := by
  generalize ho : q.decided = out at h
  simp only [decided, decide] at ho
  split at ho
  case h_1 =>
    split at ho
    all_goals
      subst ho
      cases h
  case h_2 =>
    split at ho
    case h_1 =>
      subst ho
      cases h
    case h_2 c f d₀ n hp =>
      split at ho
      case h_1 => subst ho; cases h
      case h_2 => subst ho; cases h
      case h_3 d₁ hb =>
        have hp : q.plan = .ask c f d₀ n := hp
        have ha : Agrees d₀ d₁ := by
          cases begin_agrees hb
          case inl hk => cases hk.left
          case inr ha => exact ha
        have hd : Agrees (draft q.config q.policy q.req) d₀ := by
          have hpl : Planned q.config q.policy q.req _ q.pool q.plan := plan_planned
          rw [hp] at hpl
          cases hpl
          case ask hd => exact hd
        refine ⟨⟨d₁.invocationId, q.req.now, n⟩, ?_, (hd.trans ha).invocation, rfl⟩
        rw [begins, hp]
        simp only [Routed.granted]
        rw [← hr, hb]
        rfl

-- A request's own operations are steps of the trail it's on.
theorem begins_step [RoutingHost] (h : t.Drawn q.config q.policy q.req q.pool q.plan) :
    t.Step q.begins (t.turned (t.routed.exec q.begins)) := by
  rw [begins]
  cases hp : q.plan
  case settled =>
    rw [hp] at h
    exact .settled h
  case ask =>
    rw [hp] at h
    exact .asked h

theorem finishes_step [RoutingHost] {op : RoutingOp F}
    (h : t.Drawn q.config q.policy q.req q.pool q.plan)
    (hb : ∃ r ∈ t.states, q.moments.begun = r.engine) (ho : q.finishes = some op) :
    ∃ p ∈ q.pool, t.Step op
      ((t.turned (t.routed.exec op)).heard q.asked.invocationKey p.format q.reply) := by
  rw [finishes] at ho
  split at ho
  case h_1 => cases ho
  case h_2 c f d n hp =>
    split at ho
    case h_2 => cases ho
    case h_1 d' hd =>
      have ⟨r, hr, he⟩ := hb
      rw [hp] at h
      rw [he] at hd
      cases ho
      have ⟨_, _, hpl⟩ := h.planned
      cases hpl
      case ask p hm _ => exact ⟨p, hm, .answered h hr hd⟩

end

-- A decision that's retained is replayed, however often its invocation is. It has the outcome it
-- had, unless it was waiting for that.
theorem replayed [RoutingHost] {t t' : Trail F} {ops : List (RoutingOp F)} {d : RoutingDecision}
    {q : Inquiry F T} (hk : t.Kept) (hd : d ∈ t.routed.engine.routing.decisions)
    (hr : Run Trail.Step t ops t') (hn : ∀ op ∈ ops, ∀ now, op.clock? = some now →
      now ≤ d.createdAtSecs + Routing.retention)
    (hm : q.moments.stored = t'.routed.engine) (hi : q.req.invocationId = d.invocationId)
    (hs : q.req.scope = d.scope) (hh : q.req.requestHash = d.requestHash) :
    ∃ d', q.decided.answer = .ok d' ∧ q.decided.called = false ∧
      Keeps t'.routed.engine.routing d d' := by
  have ⟨d', hk'⟩ := hk.keeps hd hr hn
  have hf : routingDecision q.moments.stored.routing q.req.invocationId = some d' := by
    rw [hm, hi, ← hk'.invocation]
    exact routingDecision_of_mem (hk.run hr).routed.accounted.unique hk'.stored
  have ⟨ha, hc⟩ := decided_replayed hf (hk'.scope.trans hs.symm) (hk'.hash.trans hh.symm)
  exact ⟨d', ha, hc, hk'⟩

-- Once a clock is past the retention of an earlier call, an invocation's classifier is called again.
theorem recalled [RoutingHost] {t t₁ t' : Trail F} {ops : List (RoutingOp F)}
    {q q' : Inquiry F T} (hk : t.Kept) (hb : q.moments.begun = t.routed.engine)
    (hc : q.decided.called = true) (hs : t.Step q.begins t₁) (hr : Run Trail.Step t₁ ops t')
    (hb' : q'.moments.begun = t'.routed.engine) (hc' : q'.decided.called = true)
    (hi : q'.asked.invocationKey = q.asked.invocationKey) :
    ∃ now ∈ q'.asked.now :: ops.filterMap RoutingOp.clock?,
      q.asked.now + Routing.retention < now := by
  have ⟨g, hg, hgi, hgt⟩ := granted_of_called hc hb
  have ⟨g', hg', hgi', _⟩ := granted_of_called hc' hb'
  have he : t₁.routed = t.routed.exec q.begins := hs.routed.left
  have hrr := Trail.routed_run hr
  rw [he] at hrr
  have ⟨o, ho, now, hn, hl⟩ := Routed.regranted hk.routed hg hrr hg' (hgi'.trans (hi.trans hgi.symm))
  rw [hgt] at hl
  refine ⟨now, ?_, hl⟩
  cases List.mem_append.mp ho
  case inl hm => exact List.mem_cons_of_mem _ (List.mem_filterMap.mpr ⟨o, hm, hn⟩)
  case inr hm =>
    rw [List.mem_singleton.mp hm, begins_clock] at hn
    injection hn with hn
    exact hn ▸ List.mem_cons_self

end Inquiry

-- What a classifier says of a simple task, and its provider's reply with that.
def answerText : String := "[\"simple\",\"general\",true,[\"SHORT_STANDALONE\"]]"

def replyText : String :=
  "\x7b\"stop_reason\":\"end_turn\",\"content\":[\x7b\"text\":" ++
    "\"[\\\"simple\\\",\\\"general\\\",true,[\\\"SHORT_STANDALONE\\\"]]\"\x7d]\x7d"

def replyBytes : List UInt8 := replyText.toByteArray.data.toList

instance : RouteHost where
  parseText s :=
    if s = answerText then
      some (.arr [.str "simple", .str "general", .bool true, .arr [.str "SHORT_STANDALONE"]])
    else none
  parseBytes bytes :=
    if bytes = replyBytes then
      some (.obj [("stop_reason", .str "end_turn"),
        ("content", .arr [.obj [("text", .str answerText)]])])
    else none
  scopeDigest _ _ _ := "b210b57b8e888b95ccc28bbb74c0f9522114b4e8e5c6aa449294999759adf937"

-- A router whose policy is enforced from the day of its publication.
def Trail.sample : Trail ℚ :=
  let policies := [⟨"map", .enforce, ["p"], ["q"]⟩]
  (⟨Routed.sample, [], []⟩ : Trail ℚ).turned
    (Routed.sample.exec (.publish { ComplexityRoutingUpdate.sample with policies := policies } 864000 {}))

-- A request that finds the latest engine of a trail, and its call's answer the one of another.
def Inquiry.sample (t : Trail ℚ) (ended : Engine ℚ) (id : String) (now : Nat)
    (pool : Option ClassifierPool) : Inquiry ℚ Nat where
  moments    := ⟨t.routed.engine, t.routed.engine, t.routed.engine, ended, {}, {}⟩
  io         := {}
  io'        := {}
  config     := t.routed.engine.routing.config
  policy     := ⟨"map", .enforce, ["p"], ["q"]⟩
  asked      := {
    invocationKey  := id
    cardId         := "card-1"
    conversationId := "chat-1"
    bodyHash       := "hash"
    input          := ⟨"Translate: hello", "", false, false, false, true, 16⟩
    now            := now }
  pool       := pool
  reply      := some (.response ⟨true, none, [replyBytes], false⟩)
  latencyMs  := 5
  candidates := [("p", 1), ("q", 2)]

def ClassifierPool.sample : ClassifierPool where
  available := true
  format    := .anthropic
  keys      := ⟨⟨"p", true⟩, [⟨⟨none, "key", true, 1, .healthy, none⟩, 0, 0, none⟩]⟩

namespace Inquiry

variable {t : Trail ℚ} {e : Engine ℚ} {id : String} {now : Nat} {pool : Option ClassifierPool}

theorem sample_drawn
    (h : ⟨"map", .enforce, ["p"], ["q"]⟩ ∈ t.routed.engine.routing.config.policies) :
    t.Drawn (sample t e id now pool).config (sample t e id now pool).policy
      (sample t e id now pool).req pool (sample t e id now pool).plan :=
  ⟨⟨⟨_, List.mem_cons_self, rfl⟩, .inl h⟩, ⟨_, List.mem_cons_self, _, rfl⟩⟩

-- The trail of a request that waits for its classifier.
def waiting : Trail ℚ :=
  let q : Inquiry ℚ Nat := .sample .sample Trail.sample.routed.engine "inv-1" 864000 (some .sample)
  Trail.sample.turned (Trail.sample.routed.exec q.begins)

def first : Inquiry ℚ Nat :=
  .sample .sample waiting.routed.engine "inv-1" 864000 (some .sample)

theorem first_drawn :
    Trail.sample.Drawn first.config first.policy first.req first.pool first.plan :=
  sample_drawn (by decide +kernel)

theorem first_waits :
    waiting.Drawn first.config first.policy first.req first.pool first.plan :=
  first_drawn.mono (List.subset_cons_self _ _)

theorem waiting_run : ∃ ops, Run Trail.Step ⟨Routed.sample, [], []⟩ ops waiting := by
  have hs : Trail.Step (⟨Routed.sample, [], []⟩ : Trail ℚ) _ Trail.sample :=
    .other rfl ⟨rfl, nofun⟩
  exact ⟨_, .cons hs (.single (begins_step first_drawn))⟩

end Inquiry

namespace Inquiry

theorem first_finishes : first.finishes.isSome := by decide +kernel

-- The same, once it's answered, and once another request comes after the retention of that.
def settled : Trail ℚ :=
  (waiting.turned (waiting.routed.exec (first.finishes.get first_finishes))).heard "inv-1"
    .anthropic first.reply

def other : Inquiry ℚ Nat := .sample settled settled.routed.engine "inv-2" 1468801 none

def later : Trail ℚ := settled.turned (settled.routed.exec other.begins)

def again : Inquiry ℚ Nat :=
  .sample later later.routed.engine "inv-1" 1468801 (some .sample)

theorem later_run : ∃ ops, Run Trail.Step waiting ops later := by
  have hb : ∃ r ∈ waiting.states, first.moments.begun = r.engine :=
    ⟨_, List.mem_cons_of_mem _ List.mem_cons_self, rfl⟩
  have ⟨p, hp, hs⟩ := finishes_step first_waits hb (Option.some_get first_finishes).symm
  cases hp
  have hq : settled.Drawn other.config other.policy other.req other.pool other.plan :=
    sample_drawn (by decide +kernel)
  exact ⟨_, .cons hs (.single (begins_step hq))⟩

theorem again_found : again.moments.stored = later.routed.engine ∧
    again.moments.begun = later.routed.engine ∧
    again.asked = { first.asked with now := again.asked.now } ∧ again.policy = first.policy := by
  simp only [again, first, sample, and_self]

end Inquiry

end Gateway.Router
