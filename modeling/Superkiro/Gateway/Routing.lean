import Superkiro.Billing.Budget
import Superkiro.Gateway.KeyPool

namespace Gateway.Router

open Billing Except

-- Replies and the texts in them as JSON, and the digest of a card, a conversation and a mapping.
class RouteHost where
  parseText   : String → Option Json
  parseBytes  : List UInt8 → Option Json
  scopeDigest : String → String → String → String

open RouteHost

structure RoutingInput where
  text            : String
  history         : String
  continuation    : Bool
  hasAttachments  : Bool
  highReasoning   : Bool
  contextComplete : Bool
  inputChars      : Nat

structure RoutingRequest where
  invocationId        : String
  scope               : String
  requestHash         : String
  input               : RoutingInput
  -- The candidates already filtered by model, group and what the request needs.
  eligibleProviderIds : List String
  preview             : Bool
  now                 : Nat

inductive TaskType
  | general
  | rewrite
  | translation
  | coding
  | debugging
  | architecture
  | planning
  | unknown
  deriving DecidableEq

inductive ReasonCode
  | shortStandalone
  | multiStep
  | multiFile
  | longContext
  | toolTask
  | ambiguous
  | contextDependent
  | other
  deriving DecidableEq

structure Classification where
  complexity        : Complexity
  taskType          : TaskType
  contextSufficient : Bool
  reasonCodes       : List ReasonCode

namespace Classification

def complexities : List (String × Complexity) :=
  [("simple", .simple), ("complex", .complex), ("unknown", .unknown)]

def taskTypes : List (String × TaskType) := [
  ("general", .general), ("rewrite", .rewrite), ("translation", .translation), ("coding", .coding),
  ("debugging", .debugging), ("architecture", .architecture), ("planning", .planning),
  ("unknown", .unknown)]

def reasons : List (String × ReasonCode) := [
  ("SHORT_STANDALONE", .shortStandalone), ("MULTI_STEP", .multiStep), ("MULTI_FILE", .multiFile),
  ("LONG_CONTEXT", .longContext), ("TOOL_TASK", .toolTask), ("AMBIGUOUS", .ambiguous),
  ("CONTEXT_DEPENDENT", .contextDependent), ("OTHER", .other)]

-- A member of an enumeration: its name, or an object with nothing but it.
def variant (names : List (String × α)) : Json → Option α
  | .str s            => names.lookup s
  | .obj [(s, .null)] => names.lookup s
  | _                 => none

def asBool? : Json → Option Bool
  | .bool b => some b
  | _       => none

def ofFields (complexity task sufficient codes : Json) : Option Classification := do
  let complexity ← variant complexities complexity
  let task ← variant taskTypes task
  let sufficient ← asBool? sufficient
  let codes ← codes.asArr?
  let codes ← codes.mapM (variant reasons)
  return ⟨complexity, task, sufficient, codes⟩

def fieldNames : List String := ["complexity", "task_type", "context_sufficient", "reason_codes"]

-- Each field once and no other, in any order, or the fields' values alone.
def ofJson : Json → Option Classification
  | .obj fields =>
    if (fields.map (·.1)).isPerm fieldNames then do
      let j := Json.obj fields
      ofFields (← j.get? "complexity") (← j.get? "task_type") (← j.get? "context_sufficient")
        (← j.get? "reason_codes")
    else none
  | .arr [complexity, task, sufficient, codes] => ofFields complexity task sufficient codes
  | _ => none

example : ofJson (.arr [.str "simple", .obj [("general", .null)], .bool true, .arr []]) =
    some ⟨.simple, .general, true, []⟩ := rfl

end Classification

-- A member of an object, or of an array by its index. Of those, only the first is asked for.
def member (token : String) : Json → Option Json
  | .obj fields => (Json.obj fields).get? token
  | .arr xs     => if token = "0" then xs.head? else none
  | _           => none

def pointer (tokens : List String) (j : Json) : Option Json := tokens.foldlM (fun j t => member t j) j

structure Response where
  success       : Bool
  contentLength : Option Nat
  chunks        : List (List UInt8)
  -- Whether the connection is lost before the body ends.
  cut           : Bool

-- What becomes of a classifier call, unless it takes too long.
inductive Reply
  | noClient
  | unsent
  | response (r : Response)

def maxOutputTokens : Nat := 256

def maxResponseBytes : Nat := 64 * 1024

def invalidResponse : String := "classifier_invalid_response"

def Response.body (r : Response) : Except String (List UInt8) := do
  ensure r.success "classifier_http_error"
  ensure (r.contentLength.all (· ≤ maxResponseBytes)) invalidResponse
  let bytes ← r.chunks.foldlM (fun bytes chunk => do
    ensure (bytes.length + chunk.length ≤ maxResponseBytes) invalidResponse
    return bytes ++ chunk) []
  ensure (!r.cut) "classifier_transport_error"
  return bytes

inductive ProviderFormat
  | openAi
  | anthropic
  deriving DecidableEq

def zip? (a b : Option α) : Option (α × α) := a.bind fun a => b.map fun b => (a, b)

-- What a reply says, if it's complete, and the usage it reports.
def spoken (format : ProviderFormat) (value : Json) :
    Except String (Option String × Option (Nat × Nat)) :=
  let tokens (path : List String) : Option Nat := (pointer path value).bind Json.asU64?
  match format with
  | .openAi => do
    ensure ((pointer ["choices", "0", "finish_reason"] value).bind Json.asStr? = some "stop")
      invalidResponse
    return ((pointer ["choices", "0", "message", "content"] value).bind Json.asStr?,
      zip? (tokens ["usage", "prompt_tokens"]) (tokens ["usage", "completion_tokens"]))
  | .anthropic => do
    ensure ((value.get? "stop_reason").bind Json.asStr? = some "end_turn") invalidResponse
    return ((pointer ["content", "0", "text"] value).bind Json.asStr?,
      zip? (tokens ["usage", "input_tokens"]) (tokens ["usage", "output_tokens"]))

def classify [RouteHost] (format : ProviderFormat) :
    Reply → Except String (Classification × Option (Nat × Nat))
  | .noClient   => .error "classifier_unavailable"
  | .unsent     => .error "classifier_transport_error"
  | .response r => do
    let bytes ← r.body
    let value ← ofOption (parseBytes bytes) invalidResponse
    let (text, usage) ← spoken format value
    let text ← ofOption text invalidResponse
    let classified ← ofOption ((parseText text).bind Classification.ofJson) invalidResponse
    ensure (!classified.reasonCodes.isEmpty && classified.reasonCodes.length ≤ 4) invalidResponse
    return (classified, usage)

-- The pool of the classifier's provider, which is available or not at the time of the request.
structure ClassifierPool where
  available : Bool
  format    : ProviderFormat
  keys      : ProviderKeyPool

-- What all requests share: the calls there's room for, and the circuit that failures open.
structure Runtime where
  slots     : Nat := 8
  failures  : Nat := 0
  openUntil : Nat := 0

namespace Runtime

variable (r : Runtime)

def succeeded : Runtime := { r with failures := 0 }

def failed (now : Nat) : Runtime :=
  if 3 ≤ r.failures + 1 then { r with failures := 0, openUntil := satAddU64 now 60 }
  else { r with failures := r.failures + 1 }

end Runtime

def inputTokenBound (c : RoutingClassifier) : Nat :=
  satAddU64 (min (c.maxInputChars * 6) u64Max) 2048

def cost (c : RoutingClassifier) (input output : Nat) : Nat :=
  min ((input * c.inputPriceMicroCnyPerMillion + output * c.outputPriceMicroCnyPerMillion +
    999999) / 1000000) u64Max

def routingDecision (s : ComplexityRoutingState) (invocationId : String) : Option RoutingDecision :=
  s.decisions.find? (·.invocationId = invocationId)

-- The latest decision of a scope, the last of several. Previews and those that wait for their
-- classifier don't steer what follows.
def latestRoutingDecision (s : ComplexityRoutingState) (scope : String) (now : Nat) :
    Option RoutingDecision :=
  (s.decisions.filter fun d => d.scope = scope && !d.pending && !d.preview &&
    d.createdAtSecs ≤ now && now - d.createdAtSecs < Routing.day).reverse.argmax (·.createdAtSecs)

section

variable (config : ComplexityRoutingConfig) (policy : RoutingPolicy) (req : RoutingRequest)

def narrow (ids : List String) : List String := ids.filter (req.eligibleProviderIds.contains ·)

def draft : RoutingDecision where
  invocationId           := req.invocationId
  scope                  := req.scope
  requestHash            := req.requestHash
  revision               := config.revision
  modelMapId             := policy.modelMapId
  mode                   := policy.mode
  complexity             := .unknown
  reason                 := "default_route"
  providerIds            := narrow req policy.complexProviderIds
  createdAtSecs          := req.now
  pending                := false
  classifierAttempted    := false
  classifierLatencyMs    := 0
  inputTokens            := 0
  outputTokens           := 0
  classifierCostMicroCny := 0
  usageEstimated         := false
  preview                := req.preview

-- A route with the provider that served the task last in front.
def served (provider : Option String) (ids : List String) : List String :=
  match provider with
  | some p => if ids.contains p then p :: ids.erase p else ids
  | none   => ids

-- A task that goes on takes the route it had, as far as it's still there.
def continued (previous : Option RoutingDecision) : RoutingDecision :=
  let d := draft config policy req
  match previous.filter fun p => p.mode = policy.mode && p.revision = config.revision with
  | none   => { d with reason := "continuation_without_state" }
  | some p =>
    let inherited := narrow req p.providerIds
    if inherited.isEmpty then
      { d with
        providerIds := served p.servedProviderId d.providerIds
        reason      := "continuation_route_unavailable" }
    else
      { d with
        complexity  := p.complexity
        providerIds := served p.servedProviderId inherited
        reason      := "task_continuation" }

-- The conservative route, for a reason.
def conservative (reason : String) : RoutingDecision :=
  { draft config policy req with reason := reason }

-- What's to be done about a request that has no decision yet: nothing more, or a classifier call.
inductive Plan
  | settled (d : RoutingDecision)
  | ask (c : RoutingClassifier) (format : ProviderFormat) (d : RoutingDecision) (reserved : Nat)

-- A classifier call, if there's a key and room for one.
def consult (c : RoutingClassifier) (runtime : Runtime) (pool : Option ClassifierPool) : Plan :=
  match pool.filter (·.available) with
  | none   => .settled (conservative config policy req "classifier_unavailable")
  | some p =>
    match (p.keys.selectKeyForModel req.now [] (some c.model)).1 with
    | .error _ => .settled (conservative config policy req "classifier_unavailable")
    | .ok _    =>
      if runtime.slots = 0 then .settled (conservative config policy req "classifier_busy")
      else
        let waiting := { conservative config policy req "classification_pending" with
          pending := true, usageEstimated := true }
        .ask c p.format waiting (cost c (inputTokenBound c) maxOutputTokens)

def plan (previous : Option RoutingDecision) (runtime : Runtime) (pool : Option ClassifierPool) :
    Plan :=
  let because (reason : String) : Plan := .settled (conservative config policy req reason)
  if (draft config policy req).providerIds.isEmpty then because "no_eligible_route"
  else
    match config.classifier with
    | none   => because "classifier_unconfigured"
    | some c =>
      let input := req.input
      if policy.mode = .off then because "disabled"
      else if input.hasAttachments || input.highReasoning then
        .settled { conservative config policy req "capability_required" with complexity := .complex }
      else if input.continuation then .settled (continued config policy req previous)
      else if !input.contextComplete || c.maxInputChars < input.inputChars ||
          c.maxInputChars < input.text.length + input.history.length then
        because "insufficient_context"
      else if Text.isBlank input.text then because "empty_task"
      else if req.now < runtime.openUntil then because "classifier_circuit_open"
      else consult config policy req c runtime pool

-- A label alone doesn't overrule what the classifier says of the task.
def judged (c : Classification) : Complexity :=
  let complexity := if c.contextSufficient then c.complexity else .unknown
  if complexity = .simple ∧ ¬((c.taskType = .general ∨ c.taskType = .rewrite ∨
      c.taskType = .translation) ∧ ∀ r ∈ c.reasonCodes, r = .shortStandalone ∨ r = .other) then
    .complex
  else complexity

def labelled (d : RoutingDecision) (complexity : Complexity) : RoutingDecision :=
  match complexity with
  | .simple  =>
    let simple := narrow req policy.simpleProviderIds
    if simple.isEmpty then { d with complexity := .simple, reason := "simple_route_unavailable" }
    else { d with complexity := .simple, reason := "semantic_simple", providerIds := simple }
  | .complex => { d with complexity := .complex, reason := "semantic_complex" }
  | .unknown => { d with complexity := .unknown, reason := "semantic_uncertain" }

def metered (c : RoutingClassifier) (d : RoutingDecision) (usage : Option (Nat × Nat)) :
    RoutingDecision :=
  match usage.filter fun u => u.1 ≤ inputTokenBound c && u.2 ≤ maxOutputTokens with
  | some (input, output) =>
    { d with
      inputTokens            := input
      outputTokens           := output
      classifierCostMicroCny := cost c input output
      usageEstimated         := false }
  | none => d

-- What a classifier's answer makes of the decision that waits for it.
def answered [RouteHost] (c : RoutingClassifier) (format : ProviderFormat) (d : RoutingDecision)
    (reply : Option Reply) (latencyMs : Nat) : RoutingDecision :=
  let d := { d with pending := false, classifierLatencyMs := latencyMs }
  match reply.map (classify format) with
  | some (.ok (classified, usage)) => metered c (labelled policy req d (judged classified)) usage
  | some (.error reason)           => { d with reason := reason }
  | none                           => { d with reason := "classifier_timeout" }

end

-- The engine as a request finds it, each time it asks. Others may have come in between.
structure Moments (F : Type) where
  stored  : Engine F
  latest  : Engine F
  begun   : Engine F
  ended   : Engine F
  opening : Runtime
  closing : Runtime

-- A decision, whether the classifier was called for it, and what that makes of the runtime.
structure Decided where
  answer  : Result RoutingDecision
  called  : Bool
  runtime : Runtime

def decide [Host F] [RouteHost] (m : Moments F) (io io' : Io) (config : ComplexityRoutingConfig)
    (policy : RoutingPolicy) (req : RoutingRequest) (pool : Option ClassifierPool)
    (reply : Option Reply) (latencyMs : Nat) : Decided :=
  match routingDecision m.stored.routing req.invocationId with
  | some d =>
    if d.scope ≠ req.scope ∨ d.requestHash ≠ req.requestHash then
      ⟨.error (.invalidState "routing request identity changed"), false, m.closing⟩
    else ⟨.ok d, false, m.closing⟩
  | none =>
    let previous := latestRoutingDecision m.latest.routing req.scope req.now
    match plan config policy req previous m.opening pool with
    | .settled d => ⟨(m.begun.beginRoutingDecision io d 0 req.now).1.map (·.1), false, m.closing⟩
    | .ask c format d reserved =>
      match (m.begun.beginRoutingDecision io d reserved req.now).1 with
      | .error err     => ⟨.error err, false, m.closing⟩
      | .ok (d, false) => ⟨.ok d, false, m.closing⟩
      | .ok (d, true)  =>
        let d := answered policy req c format d reply latencyMs
        let good := (reply.map (classify format)).any (·.isOk)
        ⟨(m.ended.finishRoutingDecision io' d).1, true,
          if good then m.closing.succeeded else m.closing.failed req.now⟩

-- What a decision makes of the candidates.
def applyDecision (candidates : List (String × T)) (d : RoutingDecision) : List (String × T) :=
  if d.mode ≠ .enforce then candidates
  else d.providerIds.filterMap fun id => candidates.find? (·.1 = id)

-- The policy of a mapping, or what's left of one in the decision that it led to.
def complexityPolicy (config : ComplexityRoutingConfig) (mapped : Option String)
    (stored : Option RoutingDecision) : Option RoutingPolicy :=
  (mapped.bind fun id => config.policies.find? fun p => p.modelMapId = id && p.mode ≠ .off).or
    (stored.map fun d => ⟨d.modelMapId, d.mode, d.providerIds, d.providerIds⟩)

-- The upstreams that a request is tried with, or why it's refused.
inductive Routing (T : Type)
  | attempts (candidates : List (String × T))
  | unsaved
  | noRoute

-- What a request is told apart by, and what of it a classifier may see.
structure Asked where
  invocationKey  : String
  cardId         : String
  conversationId : String
  bodyHash       : String
  input          : RoutingInput
  now            : Nat

def request [RouteHost] (a : Asked) (policy : RoutingPolicy) (eligible : List String) :
    RoutingRequest where
  invocationId        := a.invocationKey
  scope               := scopeDigest a.cardId a.conversationId policy.modelMapId
  requestHash         := a.bodyHash
  input               := a.input
  eligibleProviderIds := eligible
  preview             := false
  now                 := a.now

-- Without a policy, or a card to ask for, there's nothing to route.
def route [Host F] [RouteHost] (m : Moments F) (io io' : Io) (config : ComplexityRoutingConfig)
    (policy : Option RoutingPolicy) (asked : Option Asked) (pool : Option ClassifierPool)
    (reply : Option Reply) (latencyMs : Nat) (candidates : List (String × T)) : Routing T :=
  match policy, asked with
  | some policy, some a =>
    let req := request a policy (candidates.map (·.1))
    match (decide m io io' config policy req pool reply latencyMs).answer with
    | .error _ => .unsaved
    | .ok d    =>
      let candidates := applyDecision candidates d
      if candidates.isEmpty then .noRoute else .attempts candidates
  | _, _ => .attempts candidates

end Gateway.Router
