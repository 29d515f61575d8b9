import Superkiro.Billing.Commit

namespace Billing

open Except Routing

structure ComplexityRoutingUpdate where
  expectedRevision : String
  reason           : String
  classifier       : Option RoutingClassifier
  policies         : List RoutingPolicy

-- The digest of an update at a time, in hexadecimal.
class RoutingHost where
  routingDigest : ComplexityRoutingUpdate → Nat → String

open RoutingHost

namespace Routing

def retention : Nat := 7 * day

def retained (now : Nat) (d : RoutingDecision) : Bool := now - d.createdAtSecs ≤ retention

def prune (s : ComplexityRoutingState) (now : Nat) : ComplexityRoutingState :=
  { s with decisions := s.decisions.filter (retained now) }

-- The budget of the day of `now`.
def rolled (s : ComplexityRoutingState) (now : Nat) : RoutingBudget :=
  if s.budget.day ≠ now / day then { day := now / day } else s.budget

-- A decision made without a classifier because its budget is spent.
def exhausted (d : RoutingDecision) : RoutingDecision :=
  { d with
    pending                := false
    classifierAttempted    := false
    reason                 := "budget_exhausted"
    classifierCostMicroCny := 0
    usageEstimated         := false }

-- A decision that is answered but not kept, for lack of room.
def unkept (d : RoutingDecision) : RoutingDecision :=
  { d with
    reason                 := "decision_capacity_exhausted"
    pending                := false
    classifierAttempted    := false
    classifierLatencyMs    := 0
    inputTokens            := 0
    outputTokens           := 0
    classifierCostMicroCny := 0
    usageEstimated         := false }

-- A new decision carries no prior usage and no actual provider.
def isNew (d : RoutingDecision) (reserved now : Nat) : Bool :=
  now ≤ maxTimestamp && d.servedProviderId.isNone && d.inputTokens = 0 && d.outputTokens = 0 &&
    d.classifierLatencyMs = 0 &&
    (d.pending || (!d.classifierAttempted && reserved = 0 && d.classifierCostMicroCny = 0 &&
      !d.usageEstimated)) &&
    (!d.pending || d.classifierCostMicroCny = 0 || d.classifierCostMicroCny = reserved)

def madeAt (d : RoutingDecision) (now : Nat) : RoutingDecision := { d with createdAtSecs := now }

def sameInvocation (old d : RoutingDecision) : Bool :=
  old.scope = d.scope && old.requestHash = d.requestHash && old.modelMapId = d.modelMapId &&
    old.preview = d.preview

def sameDecision (old d : RoutingDecision) : Bool :=
  old.scope = d.scope && old.requestHash = d.requestHash && old.revision = d.revision &&
    old.modelMapId = d.modelMapId && old.mode = d.mode && old.createdAtSecs = d.createdAtSecs &&
    old.preview = d.preview && old.servedProviderId = d.servedProviderId

-- What a classifier's answer makes of a pending decision. One that's inconclusive keeps at least
-- its reservation.
def concluded (old d : RoutingDecision) : RoutingDecision :=
  let d := { d with pending := false, classifierAttempted := true }
  if d.complexity = .unknown ∧ d.classifierCostMicroCny < old.classifierCostMicroCny then
    { d with classifierCostMicroCny := old.classifierCostMicroCny, usageEstimated := true }
  else d

-- The budget corrected by a final cost, on the day of the reservation.
def corrected (b : RoutingBudget) (old d : RoutingDecision) : RoutingBudget :=
  if b.day = old.createdAtSecs / day then
    { b with
      costMicroCny := b.costMicroCny - old.classifierCostMicroCny + d.classifierCostMicroCny }
  else b

-- The first decision of an invocation, replaced.
def replace (decisions : List RoutingDecision) (d : RoutingDecision) : List RoutingDecision :=
  decisions.set (decisions.findIdx (·.invocationId = d.invocationId)) d

def sole : List α → Option α
  | [a] => some a
  | _   => none

end Routing

namespace Tables

variable (t : Tables F)

-- Whether an enabled provider serves a group.
def serves (g : Group F) (providerId : String) : Bool :=
  (t.providers.lookup providerId).any fun p => p.enabled && g.canAccessProvider p.groupId

def validatePolicyReferences (classifier : Option Provider) (p : RoutingPolicy) : Result Unit := do
  let maps := t.modelMaps.filter (·.id = p.modelMapId)
  let model ← ofOption ((sole maps).filter (!·.retired))
    (invalid "policy requires one existing, non-retired model map")
  let group ← ofOption (t.groups.lookup model.groupId) (invalid "policy group missing")
  ensure (classifier.all (group.canAccessProvider ·.groupId))
    (invalid "classifier provider cannot access policy group")
  let targets := model.fullTargetChain
  ensure (targets.all fun a => targets.all fun b =>
      a.providerId ≠ b.providerId || a.targetModel = b.targetModel)
    (invalid "model map has ambiguous targets for one provider")
  checkAll (p.simpleProviderIds ++ p.complexProviderIds) fun id => do
    ensure (targets.any (·.providerId = id))
      (invalid "policy provider is outside the model target chain")
    ensure (t.serves group id)
      (invalid "policy provider missing, disabled or inaccessible to group")

-- Publication checks live references, unless it switches every policy off.
def validateRoutingReferences (config : ComplexityRoutingConfig) : Result Unit :=
  if config.policies.all (·.mode = .off) then .ok ()
  else do
    let classifier ← match config.classifier with
      | none   => .ok none
      | some c => do
        let p ← ofOption ((t.providers.lookup c.providerId).filter (·.enabled))
          (invalid "classifier provider missing or disabled")
        .ok (some p)
    checkAll config.policies (t.validatePolicyReferences classifier)

-- A decision never goes beyond today's members of its model's chain and access of its group.
def validateDecisionReferences (d : RoutingDecision) : Result Unit := do
  let model ← ofOption (t.modelMaps.find? fun m => m.id = d.modelMapId && !m.retired)
    (invalid "decision model map missing")
  let group ← ofOption (t.groups.lookup model.groupId) (invalid "decision group missing")
  ensure (d.providerIds.all fun id =>
      model.fullTargetChain.any (·.providerId = id) && t.serves group id)
    (invalid "decision provider is outside the accessible model chain")

def withRouting (s : ComplexityRoutingState) : Tables F := { t with complexityRouting := s }

def publishComplexityRouting [RoutingHost] (u : ComplexityRoutingUpdate) (now : Nat) :
    Result (Txn F ComplexityRoutingConfig) := do
  ensure (Text.validId u.expectedRevision 128 && Text.validId u.reason 1024 && now ≤ maxTimestamp)
    (invalid "revision and reason required and bounded")
  let s := t.complexityRouting
  ensure (s.config.revision = u.expectedRevision)
    (invalid "configuration changed; reload before publishing")
  let revision := "complexity-routing:v1:" ++ routingDigest u now
  let audit := s.config.audit ++ [⟨u.expectedRevision, revision, u.reason, now⟩]
  let config : ComplexityRoutingConfig := {
    revision   := revision
    classifier := u.classifier
    policies   := u.policies
    audit      := if maxAudit < audit.length then audit.tail else audit }
  validateConfig config
  t.validateRoutingReferences config
  let s := Routing.prune { s with config := config } now
  return .write (t.withRouting s) (·.withRouting s) config

-- Reserves a classifier call, where the day's budget has one left.
def claimClassifier (s : ComplexityRoutingState) (d : RoutingDecision) (reserved now : Nat) :
    Result (RoutingDecision × RoutingBudget) := do
  let c ← ofOption s.config.classifier (invalid "classifier is not configured")
  ensure (d.preview || s.config.policies.any fun p =>
      p.modelMapId = d.modelMapId && p.mode = d.mode && p.mode ≠ .off)
    (invalid "pending user classification requires an enabled matching policy")
  let model ← ofOption (t.modelMaps.find? fun m => m.id = d.modelMapId && !m.retired)
    (invalid "decision model map missing")
  let group ← ofOption (t.groups.lookup model.groupId) (invalid "decision group missing")
  let p ← ofOption ((t.providers.lookup c.providerId).filter (·.enabled))
    (invalid "classifier provider missing or disabled")
  ensure (group.canAccessProvider p.groupId) (invalid "classifier cannot access decision group")
  ensure (inMoney reserved && s.budget.day ≤ now / day)
    (invalid "invalid reservation or clock moved to an earlier budget day")
  let d := { d with
    classifierAttempted    := true
    classifierCostMicroCny := reserved
    usageEstimated         := true }
  validateDecision d
  let b := rolled s now
  if c.dailyRequestLimit ≤ b.calls || c.dailyBudgetMicroCny - b.costMicroCny < reserved then
    return (exhausted d, b)
  else
    let b := { b with calls := b.calls + 1, costMicroCny := b.costMicroCny + reserved }
    return (d, b)

-- Only a pending decision waits for the classifier.
def reserveClassifier (s : ComplexityRoutingState) (d : RoutingDecision) (reserved now : Nat) :
    Result (RoutingDecision × RoutingBudget) :=
  if d.pending then t.claimClassifier s d reserved now else .ok (d, s.budget)

-- The answer says whether the call reserved the classifier. Replays don't.
def beginRoutingDecision (d : RoutingDecision) (reserved now : Nat) :
    Result (Txn F (RoutingDecision × Bool)) :=
  let s := t.complexityRouting
  match s.decisions.find? fun old => old.invocationId = d.invocationId && retained now old with
  | some old => do
    ensure (sameInvocation old d) (invalid "invocation identity mismatch")
    return .answer (old, false)
  | none => do
    ensure (isNew d reserved now)
      (invalid "new decisions cannot carry prior usage or actual provider")
    ensure (d.revision = s.config.revision)
      (invalid "configuration changed; reload before beginning decision")
    let s := Routing.prune s now
    let d := madeAt d now
    t.validateDecisionReferences d
    let (d, b) ← t.reserveClassifier s d reserved now
    validateDecision d
    if maxDecisions ≤ s.decisions.length then return .answer (unkept d, false)
    else
      let s := { s with decisions := s.decisions ++ [d], budget := b }
      return .write (t.withRouting s) (·.withRouting s) (d, d.pending)

def finishRoutingDecision (d : RoutingDecision) : Result (Txn F RoutingDecision) := do
  let s := t.complexityRouting
  let old ← ofOption (s.decisions.find? (·.invocationId = d.invocationId))
    (invalid "decision not found")
  ensure (sameDecision old d) (invalid "final decision identity mismatch")
  if !old.pending then return .answer old
  else
    let d := concluded old d
    validateDecision d
    ensure ((corrected s.budget old d).costMicroCny ≤ u64Max) (invalid "budget cost overflow")
    let s := { s with decisions := replace s.decisions d, budget := corrected s.budget old d }
    return .write (t.withRouting s) (·.withRouting s) d

-- Records a confirmed actual upstream.
def recordRoutingServed (id providerId : String) : Result (Txn F Unit) := do
  let s := t.complexityRouting
  match s.decisions.find? (·.invocationId = id) with
  | none   => return .answer ()
  | some d =>
    match d.servedProviderId with
    | some old =>
      ensure (old = providerId) (invalid "actual provider is already recorded")
      return .answer ()
    | none => do
      ensure (!d.pending && Text.validId providerId 128)
        (invalid "actual provider requires a finalized decision and valid ID")
      if d.mode = .observe then do
        let model ← ofOption (t.modelMaps.find? fun m => m.id = d.modelMapId && !m.retired)
          (invalid "observe model map missing")
        let group ← ofOption (t.groups.lookup model.groupId) (invalid "observe group missing")
        ensure (model.fullTargetChain.any (·.providerId = providerId) && t.serves group providerId)
          (invalid "observe actual provider is outside the accessible model chain")
      else
        ensure (d.providerIds.contains providerId)
          (invalid "actual provider is outside the frozen decision chain")
      let s := { s with
        decisions := replace s.decisions { d with servedProviderId := some providerId } }
      return .write (t.withRouting s) (·.withRouting s) ()

end Tables

namespace Engine

variable [Host F] (e : Engine F) (io : Io)

def publishComplexityRouting [RoutingHost] (u : ComplexityRoutingUpdate) (now : Nat) :
    Result ComplexityRoutingConfig × Engine F :=
  e.transact io (e.tables.publishComplexityRouting u now)

def beginRoutingDecision (d : RoutingDecision) (reserved now : Nat) :
    Result (RoutingDecision × Bool) × Engine F :=
  e.transact io (e.tables.beginRoutingDecision d reserved now)

def finishRoutingDecision (d : RoutingDecision) : Result RoutingDecision × Engine F :=
  e.transact io (e.tables.finishRoutingDecision d)

def recordRoutingServed (id providerId : String) : Result Unit × Engine F :=
  e.transact io (e.tables.recordRoutingServed id providerId)

end Engine
end Billing
