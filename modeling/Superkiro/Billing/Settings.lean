import Superkiro.Billing.Templates

namespace Billing

open Except

-- A revision chain: each audited change starts from the revision the one before led to.
def chained : List ResponseTemplateAudit → Bool
  | a :: b :: as => a.revision = b.previousRevision && chained (b :: as)
  | _            => true

structure TimeoutProfile where
  headersSecs : Nat
  attemptSecs : Nat
  totalSecs   : Nat
  commitSecs  : Nat
  startedSecs : Nat
  idleSecs    : Nat
  deriving DecidableEq

structure RuntimeSettings where
  standard                : TimeoutProfile := ⟨15, 65, 150, 45, 600, 90⟩
  reasoning               : TimeoutProfile := ⟨45, 90, 150, 45, 600, 180⟩
  claude                  : TimeoutProfile := ⟨90, 180, 300, 45, 600, 180⟩
  openaiReasoningIdleSecs : Nat := 300
  keepaliveSecs           : Nat := 20
  deriving DecidableEq

def validProfile (keepalive : Nat) (p : TimeoutProfile) : Bool :=
  1 ≤ p.headersSecs && p.headersSecs ≤ 300 && 1 ≤ p.attemptSecs && p.attemptSecs ≤ 900 &&
  1 ≤ p.totalSecs && p.totalSecs ≤ 1800 && 1 ≤ p.commitSecs && p.commitSecs ≤ 45 &&
  60 ≤ p.startedSecs && p.startedSecs ≤ 3600 && 10 ≤ p.idleSecs && p.idleSecs ≤ 3600 &&
  p.headersSecs ≤ p.attemptSecs && p.attemptSecs ≤ p.totalSecs && p.totalSecs ≤ p.startedSecs &&
  p.idleSecs ≤ p.startedSecs && keepalive < p.idleSecs && p.commitSecs ≤ p.totalSecs

def RuntimeSettings.validate (s : RuntimeSettings) : Result Unit :=
  ensure
    (1 ≤ s.keepaliveSecs && s.keepaliveSecs ≤ 25 && 10 ≤ s.openaiReasoningIdleSecs &&
      s.openaiReasoningIdleSecs ≤ 3600 &&
      [s.standard, s.reasoning, s.claude].all (validProfile s.keepaliveSecs) &&
      s.openaiReasoningIdleSecs ≤ s.reasoning.startedSecs)
    (.invalidState "runtime settings: invalid timeout range or relationship")

structure RuntimeSettingsConfig where
  revision : String := "runtime:v1:default"
  settings : RuntimeSettings := {}
  audit    : List ResponseTemplateAudit := []
  deriving DecidableEq

inductive RoutingMode
  | off
  | observe
  | enforce
  deriving DecidableEq

inductive Complexity
  | simple
  | complex
  | unknown
  deriving DecidableEq

structure RoutingClassifier where
  providerId                     : String
  model                          : String
  timeoutMs                      : Nat
  maxInputChars                  : Nat
  dailyRequestLimit              : Nat
  dailyBudgetMicroCny            : Nat
  inputPriceMicroCnyPerMillion   : Nat
  outputPriceMicroCnyPerMillion  : Nat
  deriving DecidableEq

structure RoutingPolicy where
  modelMapId         : String
  mode               : RoutingMode
  simpleProviderIds  : List String
  complexProviderIds : List String
  deriving DecidableEq

structure ComplexityRoutingConfig where
  revision   : String := "complexity-routing:v1:default"
  classifier : Option RoutingClassifier := none
  policies   : List RoutingPolicy := []
  audit      : List ResponseTemplateAudit := []
  deriving DecidableEq

structure RoutingDecision where
  invocationId           : String
  scope                  : String
  requestHash            : String
  revision               : String
  modelMapId             : String
  mode                   : RoutingMode
  complexity             : Complexity
  reason                 : String
  providerIds            : List String
  createdAtSecs          : Nat
  pending                : Bool
  classifierAttempted    : Bool
  classifierLatencyMs    : Nat
  inputTokens            : Nat
  outputTokens           : Nat
  classifierCostMicroCny : Nat
  usageEstimated         : Bool
  preview                : Bool := false
  servedProviderId       : Option String := none
  deriving DecidableEq

structure RoutingBudget where
  day          : Nat := 0
  calls        : Nat := 0
  costMicroCny : Nat := 0
  deriving DecidableEq

structure ComplexityRoutingState where
  config    : ComplexityRoutingConfig := {}
  decisions : List RoutingDecision := []
  budget    : RoutingBudget := {}
  deriving DecidableEq

namespace Routing

def maxDecisions : Nat := 20000

def maxAudit : Nat := 128

def maxMoney : Nat := 1000000000000

def maxCalls : Nat := 100000

def maxTimestamp : Nat := 253402300799

def day : Nat := 86400

def invalid (message : String) : BillingError := .invalidState ("complexity routing: " ++ message)

def isRevision (s : String) : Bool := Text.startsWith s "complexity-routing:v1:"

def validateChain (ids : List String) : Result Unit :=
  ensure (!ids.isEmpty && ids.length ≤ 16 && ids.all (Text.validId · 128) && decide ids.Nodup)
    (invalid "chains require 1..16 distinct provider IDs")

def inMoney (n : Nat) : Bool := 1 ≤ n && n ≤ maxMoney

def validClassifier (c : RoutingClassifier) : Bool :=
  Text.validId c.providerId 128 && validModelId c.model &&
  200 ≤ c.timeoutMs && c.timeoutMs ≤ 5000 && 256 ≤ c.maxInputChars && c.maxInputChars ≤ 16000 &&
  1 ≤ c.dailyRequestLimit && c.dailyRequestLimit ≤ maxCalls && inMoney c.dailyBudgetMicroCny &&
  inMoney c.inputPriceMicroCnyPerMillion && inMoney c.outputPriceMicroCnyPerMillion

def validatePolicies (classifier : Option RoutingClassifier) (seen : List String) :
    List RoutingPolicy → Result Unit
  | []      => .ok ()
  | p :: ps => do
    ensure (Text.validId p.modelMapId 128 && !seen.contains p.modelMapId)
      (invalid "invalid or duplicate policy model map ID")
    ensure (p.mode = .off || classifier.isSome)
      (invalid "enabled policies require a classifier")
    validateChain p.simpleProviderIds
    validateChain p.complexProviderIds
    validatePolicies classifier (p.modelMapId :: seen) ps

def validAudit (a : ResponseTemplateAudit) : Bool :=
  Text.validId a.reason 1024 && Text.validId a.revision 128 &&
  Text.validId a.previousRevision 128 && isRevision a.revision && isRevision a.previousRevision &&
  a.createdAtSecs ≤ maxTimestamp

def validateConfig (c : ComplexityRoutingConfig) : Result Unit := do
  ensure (Text.validId c.revision 128 && isRevision c.revision && c.policies.length ≤ 256 &&
    c.audit.length ≤ maxAudit) (invalid "invalid configuration bounds or revision")
  ensure (c.classifier.all validClassifier)
    (invalid "invalid classifier IDs, limits, budget or prices")
  validatePolicies c.classifier [] c.policies
  match c.audit.getLast? with
  | none   => ensure (c = {}) (invalid "missing configuration audit")
  | some a => ensure (a.revision = c.revision) (invalid "configuration audit revision mismatch")
  ensure (c.audit.all validAudit && chained c.audit) (invalid "invalid configuration audit")

def validDecision (d : RoutingDecision) : Bool :=
  Text.validId d.invocationId 257 && Text.validId d.scope 512 && Text.validId d.requestHash 128 &&
  Text.validId d.revision 128 && isRevision d.revision && Text.validId d.modelMapId 128 &&
  Text.validId d.reason 1024 && d.createdAtSecs ≤ maxTimestamp &&
  d.classifierLatencyMs ≤ 300000 && d.inputTokens ≤ 1000000 && d.outputTokens ≤ 1000000 &&
  d.classifierCostMicroCny ≤ maxMoney && (!d.pending || d.classifierAttempted) &&
  (d.classifierAttempted || (d.classifierCostMicroCny = 0 && d.inputTokens = 0 &&
    d.outputTokens = 0 && d.classifierLatencyMs = 0 && !d.usageEstimated)) &&
  d.servedProviderId.all fun id => !d.pending && Text.validId id 128 &&
    (d.mode = .observe || d.providerIds.contains id)

def validateDecision (d : RoutingDecision) : Result Unit := do
  ensure (validDecision d) (invalid "invalid decision metadata or bounds")
  if d.providerIds.isEmpty && !d.pending && !d.classifierAttempted then pure ()
  else validateChain d.providerIds

def validateDecisions (seen : List String) : List RoutingDecision → Result Unit
  | []      => .ok ()
  | d :: ds => do
    validateDecision d
    ensure (!seen.contains d.invocationId) (invalid "duplicate decision invocation ID")
    validateDecisions (d.invocationId :: seen) ds

-- The classifier calls of the budget's day.
def attempts (s : ComplexityRoutingState) : List RoutingDecision :=
  s.decisions.filter fun d => d.createdAtSecs / day = s.budget.day && d.classifierAttempted

def validateSnapshotState (s : ComplexityRoutingState) : Result Unit := do
  validateConfig s.config
  ensure (s.decisions.length ≤ maxDecisions && s.budget.day ≤ maxTimestamp / day &&
    s.budget.calls ≤ maxCalls && s.budget.costMicroCny ≤ min (s.budget.calls * maxMoney) u64Max)
    (invalid "invalid state capacity or budget bounds")
  validateDecisions [] s.decisions
  ensure ((attempts s).length ≤ s.budget.calls &&
    ((attempts s).map (·.classifierCostMicroCny)).sum ≤ s.budget.costMicroCny)
    (invalid "budget does not cover retained classifier decisions")

end Routing
end Billing
