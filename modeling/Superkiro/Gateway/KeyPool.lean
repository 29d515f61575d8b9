import Superkiro.Billing.Card
import Superkiro.Lib.Text

namespace Gateway

inductive ProviderError
  -- An HTTP status and its response body.
  | http (status : Nat) (body : String)
  | network (text : String)
  | timeout
  | noAnswer
  | streamDisconnected
  | parse (text : String)
  | unavailable
  | serialization (text : String)
  | watchdog (text : String)
  | emptyCompletion
  | thinkingNeedsOutput (needed allowed : Nat)
  deriving DecidableEq

-- Whether an upstream's words say the prompt is longer than the model takes.
def saysInputTooLong (text : String) : Bool :=
  let text := text.toList.map Text.lowerAscii
  ["prompt is too long", "prompt too long", "input is too long", "input too long",
    "context_length_exceeded", "context length exceeded", "maximum context length",
    "input content length exceeds threshold", "exceed context limit",
    "exceeds the context window", "exceeded model token limit", "input length exceeds",
    "range of input length should be", "上下文长度超", "超出上下文", "超过上下文",
    "最大上下文长度", "上下文超限", "上下文超长", "上下文过长", "输入过长", "输入长度超",
    "输入内容过长", "提示词过长", "prompt过长", "prompt 过长", "prompt超长", "prompt 超长"].any
    fun phrase => text.tails.any (phrase.toList.isPrefixOf ·)

namespace ProviderError

-- The error's text. `statusText` is a status with its reason.
def toString (statusText : Nat → String) : ProviderError → String
  | http status body        => s!"Upstream HTTP error {statusText status}: {body}"
  | network text            => s!"Network error connecting to provider: {text}"
  | timeout                 => "Upstream request timed out"
  | noAnswer                => "Upstream did not answer"
  | streamDisconnected      => "Stream disconnected prematurely"
  | parse text              => s!"Failed to parse provider response or stream chunk: {text}"
  | unavailable             => "Upstream reported a temporary failure"
  | serialization text      => s!"Serialization error: {text}"
  | watchdog text           => s!"Upstream watchdog triggered: {text}"
  | emptyCompletion         => "Upstream completed without producing any output"
  | thinkingNeedsOutput n a =>
    s!"Thinking needs a max output of at least {n} tokens; the model allows {a}"

-- The kind of a failed attempt, as traces and the console name it.
def failureClass : ProviderError → String
  | http status _                     => s!"http_{status}"
  | thinkingNeedsOutput ..            => "configuration"
  | unavailable                       => "upstream_service"
  | parse _                           => "protocol"
  | timeout | watchdog _ | noAnswer   => "timeout"
  | emptyCompletion                   => "empty"
  | network _ | streamDisconnected | serialization _ => "transport"

def status : ProviderError → Nat
  | http status _ => status
  | _             => 0

-- Whether an upstream error warrants key cooldown and failover.
def isCooldownError : ProviderError → Bool
  | http status _ => [401, 402, 403, 429].contains status || (500 ≤ status && status < 600)
  | network _ | streamDisconnected | noAnswer => true
  | parse _ | serialization _ | thinkingNeedsOutput .. | unavailable | timeout | watchdog _
  | emptyCompletion => false

-- Whether a failed attempt leaves another key or target worth trying for this request.
def worthAnotherAttempt (error : ProviderError) : Bool :=
  (match error with
    | emptyCompletion | timeout | watchdog _ | unavailable => true
    | _ => false) || error.isCooldownError

-- A key that can't serve for now. Its target's other keys may.
def ownKeyProblem : ProviderError → Bool
  | http status _ => [401, 402, 403, 429].contains status
  | _             => false

-- A key out of balance or not allowed the model.
def accountProblem : ProviderError → Bool
  | http status _ => [402, 403].contains status
  | _             => false

-- A target that can't serve this request, while another target may.
def targetRefusal : ProviderError → Bool
  | http status body =>
    (400 ≤ status && status < 500) && !([401, 402, 403, 408, 413, 429].contains status) &&
      !(status == 400 && saysInputTooLong body)
  | _ => false

-- A failure that a retry of the request would meet again.
def lasting (error : ProviderError) : Bool :=
  error.targetRefusal || error.accountProblem || error.status == 401

def refusalRank (error : ProviderError) : Nat :=
  if error.status = 404 then 0 else if error.status = 402 ∨ error.status = 403 then 1 else 2

end ProviderError

-- What a request every candidate failed is told, when no failure was one a retry could
-- outlast: the last of the failures that rank highest.
def finalRefusal (failures : List ProviderError) : Option ProviderError :=
  if failures.all (·.lasting) then
    (failures.filter (·.status != 401)).foldl (fun chosen error =>
      match chosen with
      | none   => some error
      | some c => if c.refusalRank ≤ error.refusalRank then some error else some c) none
  else none

theorem finalRefusal_eq_some {failures : List ProviderError} {error : ProviderError}
    (h : finalRefusal failures = some error) :
    (∀ e ∈ failures, e.lasting) ∧ error ∈ failures := by
  have mem (es : List ProviderError) (c : Option ProviderError) {e : ProviderError}
      (h : es.foldl (fun chosen error =>
        match chosen with
        | none   => some error
        | some c => if c.refusalRank ≤ error.refusalRank then some error else some c) c = some e) :
      c = some e ∨ e ∈ es := by
    induction es generalizing c
    case nil => exact .inl h
    case cons e' es ih =>
      cases ih _ h
      case inr hm => exact .inr (List.mem_cons_of_mem _ hm)
      case inl hc =>
        cases c
        case none => injection hc with hc; exact .inr (hc ▸ List.mem_cons_self)
        case some c =>
          simp only at hc
          split at hc
          case isTrue => injection hc with hc; exact .inr (hc ▸ List.mem_cons_self)
          case isFalse => exact .inl hc
  rw [finalRefusal] at h
  split at h
  case isFalse => cases h
  case isTrue hl =>
    cases mem _ none h
    case inl hn => cases hn
    case inr hm => exact ⟨List.all_eq_true.mp hl, (List.mem_filter.mp hm).left⟩

inductive GovernanceError
  | allKeysInCooldown (providerId : String) (nextRecoverySecs : Nat)
  | noAvailableKeys (providerId : String)
  | allCandidatesExhausted
  | allCandidatesFailed (attempts : List (String × String))
  | nonRetryable (error : ProviderError)
  deriving DecidableEq

inductive HealthState
  | healthy
  | degraded
  | unhealthy
  deriving DecidableEq

structure Provider where
  id      : String
  enabled : Bool
  deriving DecidableEq

structure ProviderKey where
  -- `none` allows every model.
  allowedModels : Option (List String)
  id            : String
  enabled       : Bool
  weight        : Nat
  healthState   : HealthState
  cooldownUntil : Option Nat
  deriving DecidableEq

namespace ProviderKey

def supportsModel (key : ProviderKey) (model : String) : Bool :=
  key.allowedModels.all (·.contains model)

def markFailure (key : ProviderKey) (now cooldownSecs : Nat) : ProviderKey :=
  { key with healthState := .degraded, cooldownUntil := some (now + cooldownSecs) }

def markSuccess (key : ProviderKey) : ProviderKey :=
  { key with healthState := .healthy, cooldownUntil := none }

end ProviderKey

structure KeyEntry where
  key                 : ProviderKey
  currentWeight       : Int
  consecutiveFailures : Nat
  lastError           : Option (String × Nat)
  deriving DecidableEq

structure ProviderKeyPool where
  provider : Provider
  keys     : List KeyEntry
  deriving DecidableEq

-- Durations are in nanoseconds.
def second : Nat := 1000000000

def durationMax : Nat := Billing.u64Max * second + 999999999

def maxKeyBackoff : Nat := 15 * 60 * second

namespace KeyEntry

def usable (entry : KeyEntry) (exclude : List String) (model : Option String) : Bool :=
  model.all (entry.key.supportsModel ·) && !exclude.contains entry.key.id && entry.key.enabled &&
    entry.key.healthState != .unhealthy

def eligible (entry : KeyEntry) (now : Nat) (exclude : List String) (model : Option String) : Bool :=
  entry.usable exclude model && entry.key.cooldownUntil.all (· ≤ now)

def weight (entry : KeyEntry) : Int := max entry.key.weight 1

def raise (entry : KeyEntry) : KeyEntry :=
  { entry with currentWeight := entry.currentWeight + entry.weight }

-- What's left of a cooldown.
def wait (entry : KeyEntry) (now : Nat) : Option Nat :=
  entry.key.cooldownUntil.bind fun until_ => if now < until_ then some (until_ - now) else none

end KeyEntry

namespace ProviderKeyPool

variable (pool : ProviderKeyPool)

-- Whether a key not in `exclude` could be selected for `model` now, without selecting it.
def hasEligibleKey (now : Nat) (exclude : List String) (model : Option String) : Bool :=
  pool.provider.enabled && pool.keys.any (·.eligible now exclude model)

-- Why no key is eligible.
def selectionError (now : Nat) (exclude : List String) (model : Option String) : GovernanceError :=
  let usable := pool.keys.filter (·.usable exclude model)
  if !exclude.isEmpty && !usable.isEmpty then .allCandidatesExhausted
  else
    match (usable.filterMap (·.wait now)).min? with
    | some secs => .allKeysInCooldown pool.provider.id secs
    | none      => .noAvailableKeys pool.provider.id

-- The key with the largest current weight, the first of several.
def heaviest (first : KeyEntry × Nat) (rest : List (KeyEntry × Nat)) : KeyEntry × Nat :=
  rest.foldl (fun best e => if best.1.currentWeight < e.1.currentWeight then e else best) first

-- Selects the next eligible key by smooth weighted round-robin.
def selectKeyForModel (now : Nat) (exclude : List String) (model : Option String) :
    Except GovernanceError ProviderKey × ProviderKeyPool :=
  if !pool.provider.enabled || pool.keys.isEmpty then
    (.error (.noAvailableKeys pool.provider.id), pool)
  else
    let raised := pool.keys.map fun entry =>
      if entry.eligible now exclude model then entry.raise else entry
    match raised.zipIdx.filter (·.1.eligible now exclude model) with
    | [] => (.error (pool.selectionError now exclude model), pool)
    | first :: rest =>
      let best := heaviest first rest
      let total := ((first :: rest).map (·.1.weight)).sum
      let lowered (entry : KeyEntry) :=
        { entry with currentWeight := entry.currentWeight - total }
      (.ok best.1.key, { pool with keys := raised.modify best.2 lowered })

variable {pool} {now : Nat} {exclude : List String} {model : Option String}

theorem heaviest_mem (first : KeyEntry × Nat) (rest : List (KeyEntry × Nat)) :
    heaviest first rest ∈ first :: rest := by
  induction rest generalizing first
  case nil => simp [heaviest]
  case cons e rest ih =>
    rw [heaviest, List.foldl_cons]
    split
    case isTrue => exact List.mem_cons_of_mem _ (ih e)
    case isFalse =>
      cases List.mem_cons.mp (ih first)
      case inl h => exact List.mem_cons.mpr (.inl h)
      case inr h => exact List.mem_cons_of_mem _ (List.mem_cons_of_mem _ h)

-- A selected key is not one of those excluded.
theorem not_mem_of_selected {key : ProviderKey}
    (h : (pool.selectKeyForModel now exclude model).1 = .ok key) : key.id ∉ exclude := by
  simp only [selectKeyForModel] at h
  split at h
  case isTrue => cases h
  case isFalse =>
    split at h
    case h_1 => cases h
    case h_2 first rest hp =>
      injection h with h
      have hm := List.mem_filter.mp (hp ▸ heaviest_mem first rest)
      have he : (heaviest first rest).1.eligible now exclude model := hm.right
      subst h
      simp [KeyEntry.eligible, KeyEntry.usable] at he
      exact he.left.left.left.right

-- No key is selected only if none is eligible.
theorem not_eligible_of_unselected {error : GovernanceError}
    (h : (pool.selectKeyForModel now exclude model).1 = .error error) :
    (pool.selectKeyForModel now exclude model).2 = pool ∧
      pool.hasEligibleKey now exclude model = false := by
  simp only [selectKeyForModel] at h ⊢
  split at h
  case isTrue hd =>
    rw [if_pos hd]
    refine ⟨rfl, ?_⟩
    cases he : pool.provider.enabled
    case false => simp [hasEligibleKey, he]
    case true => simp_all [hasEligibleKey]
  case isFalse hd =>
    rw [if_neg hd]
    split at h
    case h_2 => cases h
    case h_1 hn =>
      refine ⟨rfl, ?_⟩
      rw [hasEligibleKey, Bool.and_eq_false_iff]
      right
      rw [List.any_eq_false]
      intro entry hm he
      have ⟨i, hi, hg⟩ := List.getElem_of_mem hm
      have hr : (entry.raise, i) ∈ (pool.keys.map fun e =>
          if e.eligible now exclude model then e.raise else e).zipIdx := by
        rw [List.mem_zipIdx_iff_getElem?]
        simp [List.getElem?_eq_getElem hi, hg, he]
      have := hn ▸ List.mem_filter.mpr ⟨hr, show entry.raise.eligible now exclude model from he⟩
      cases this

theorem selectionError_ne {error : ProviderError} :
    pool.selectionError now exclude model ≠ .nonRetryable error := by
  rw [selectionError]
  split
  case isTrue => exact GovernanceError.noConfusion
  case isFalse => split <;> exact GovernanceError.noConfusion

theorem unselected_ne {error : GovernanceError} {e : ProviderError}
    (h : (pool.selectKeyForModel now exclude model).1 = .error error) :
    error ≠ .nonRetryable e := by
  simp only [selectKeyForModel] at h
  split at h
  case isTrue => injection h with h; exact h ▸ GovernanceError.noConfusion
  case isFalse =>
    split at h
    case h_1 => injection h with h; exact h ▸ selectionError_ne
    case h_2 => cases h

variable (pool)

-- The first key with an ID.
def updateKey (id : String) (f : KeyEntry → KeyEntry) : ProviderKeyPool :=
  match pool.keys.findIdx? (·.key.id == id) with
  | some i => { pool with keys := pool.keys.modify i f }
  | none   => pool

def markKeyFailure (id : String) (now cooldown : Nat) : ProviderKeyPool :=
  pool.updateKey id fun entry =>
    let failures := min (entry.consecutiveFailures + 1) 4294967295
    let doublings := min (failures - 4) 10
    let backoff := min (min (cooldown * 2 ^ doublings) durationMax) (max maxKeyBackoff cooldown)
    { entry with
      consecutiveFailures := failures
      key                 := entry.key.markFailure now (backoff / second) }

def markKeyUnhealthy (id : String) : ProviderKeyPool :=
  pool.updateKey id fun entry =>
    { entry with key := { entry.key with healthState := .unhealthy, enabled := false } }

def markKeySuccess (id : String) : ProviderKeyPool :=
  pool.updateKey id fun entry =>
    { entry with consecutiveFailures := 0, key := entry.key.markSuccess }

def noteKeyError (id : String) (error : ProviderError) (at_ : Nat) : ProviderKeyPool :=
  pool.updateKey id fun entry => { entry with lastError := some (error.failureClass, at_) }

-- What the outcome of an attempt with a key records on it.
def recordOutcome (id : String) (outcome : Except ProviderError Unit) (failedAt cooldown : Nat) :
    ProviderKeyPool :=
  match outcome with
  | .ok _                  => pool.markKeySuccess id
  | .error .emptyCompletion => pool
  | .error error           =>
    if error.status = 401 then (pool.markKeyUnhealthy id).noteKeyError id error failedAt
    else if error.isCooldownError then
      (pool.markKeyFailure id failedAt cooldown).noteKeyError id error failedAt
    else pool

end ProviderKeyPool

end Gateway
