import Superkiro.Gateway.KeyPool

namespace Gateway

-- A candidate of a chain: a provider's pool of keys and the model asked of it. Candidates may
-- share a pool, as clones of it do.
structure Target where
  pool  : Nat
  model : String
  deriving DecidableEq

-- What a chain meets outside of itself, at each time it reaches out: the clock, what other
-- requests made of the pools they share with it, the outcome of an attempt, and whether the
-- request has by then waited too long for a model to start.
structure Upstreams where
  statusText : Nat → String
  clock      : Nat → Nat
  others     : Nat → (Nat → ProviderKeyPool) → Nat → ProviderKeyPool
  outcome    : Nat → Except ProviderError Unit
  late       : Nat → Bool

structure Attempt where
  target  : Nat
  key     : String
  outcome : Except ProviderError Unit
  late    : Bool

-- What a chain did, and the targets it passed over because no key of theirs was eligible.
inductive Event
  | attempt (a : Attempt)
  | passedOver (target : Nat) (pool : ProviderKeyPool) (now : Nat)

structure ModelFallbackResult where
  provider       : Provider
  key            : ProviderKey
  targetModel    : String
  candidateIndex : Nat
  wasFallback    : Bool
  deriving DecidableEq

abbrev ChainResult := Except GovernanceError ModelFallbackResult

-- The variables of a chain's loops, apart from `attempts_left`.
structure Progress where
  pools       : Nat → ProviderKeyPool
  ticks       : Nat
  tried       : Nat → List String
  -- Targets that refused this request.
  refused     : Nat → Bool
  failures    : List (String × String)
  errors      : List ProviderError
  unavailable : Option GovernanceError
  firstPass   : Bool
  attempted   : Bool
  log         : List Event

-- A loop goes on with so many attempts left, or has returned.
inductive Flow
  | next (attemptsLeft : Nat) (p : Progress)
  | done (p : Progress) (result : ChainResult)

def Flow.bind (f : Flow) (g : Nat → Progress → Flow) : Flow :=
  match f with
  | next left p => g left p
  | done p r    => done p r

section

variable (u : Upstreams) (cooldown nowSecs : Nat)

namespace Progress

def arrive (p : Progress) : Progress :=
  { p with pools := u.others p.ticks p.pools, ticks := p.ticks + 1 }

def now (p : Progress) : Nat := max (u.clock p.ticks) nowSecs

def setPool (p : Progress) (i : Nat) (pool : ProviderKeyPool) : Progress :=
  { p with pools := Function.update p.pools i pool }

-- Selects a key of a target that has not been tried.
def select (p : Progress) (target : Target) (i : Nat) :
    Except GovernanceError ProviderKey × Progress :=
  let p := p.arrive u
  let (key, pool) :=
    (p.pools target.pool).selectKeyForModel (p.now u nowSecs) (p.tried i) (some target.model)
  (key, p.setPool target.pool pool)

-- The target has no key to try.
def passOver (p : Progress) (target : Target) (i : Nat) (error : GovernanceError) : Progress :=
  { p with
    unavailable := if p.firstPass && (p.tried i).isEmpty then some error else p.unavailable
    log         := p.log ++ [.passedOver i (p.pools target.pool) (p.now u nowSecs)] }

def begin (p : Progress) (i : Nat) (key : ProviderKey) : Progress :=
  { p with tried := Function.update p.tried i (p.tried i ++ [key.id]), attempted := true }

-- One attempt with a key, which records its outcome on the key.
def attemptWithKey (p : Progress) (target : Target) (i : Nat) (key : ProviderKey) :
    Attempt × Progress :=
  let p := p.arrive u
  let a : Attempt := ⟨i, key.id, u.outcome p.ticks, u.late p.ticks⟩
  let pool := p.pools target.pool
  let p := p.setPool target.pool (pool.recordOutcome key.id a.outcome (p.now u nowSecs) cooldown)
  (a, { p with log := p.log ++ [.attempt a] })

-- The failure is noted, and the chain goes on.
def failed (p : Progress) (i : Nat) (key : ProviderKey) (error : ProviderError) : Progress :=
  { p with
    refused     := Function.update p.refused i error.targetRefusal
    failures    := p.failures ++ [(key.id, error.toString u.statusText)]
    errors      := p.errors ++ [error]
    unavailable := if p.firstPass then none else p.unavailable }

end Progress

-- The keys of one target, as long as they have problems of their own.
def tryTarget (target : Target) (i : Nat) : Nat → Progress → Flow
  | 0, p => .next 0 p
  | left + 1, p =>
    if p.refused i then .next (left + 1) p
    else
      match p.select u nowSecs target i with
      | (.error error, p) => .next (left + 1) (p.passOver u nowSecs target i error)
      | (.ok key, p) =>
        let provider := (p.pools target.pool).provider
        let made := (p.begin i key).attemptWithKey u cooldown nowSecs target i key
        match made.1.outcome with
        | .ok _ => .done made.2 (.ok ⟨provider, key, target.model, i, 0 < i⟩)
        | .error error =>
          if (error.worthAnotherAttempt || error.targetRefusal) && !made.1.late then
            let p := made.2.failed u i key error
            -- Anything but a problem of the key may be the provider failing, so the next
            -- target goes first.
            if error.ownKeyProblem then tryTarget target i left p else .next left p
          else .done made.2 (.error (.nonRetryable error))

def pass : List (Target × Nat) → Nat → Progress → Flow
  | [], left, p => .next left p
  | (target, i) :: rest, left, p =>
    (tryTarget u cooldown nowSecs target i left p).bind (pass rest)

-- Every pass that goes on has spent an attempt, so as many passes as attempts are enough.
def passes (chain : List Target) : Nat → Nat → Progress → Flow
  | 0, left, p => .next left p
  | fuel + 1, left, p =>
    if left = 0 then .next left p
    else
      (pass u cooldown nowSecs chain.zipIdx left { p with attempted := false }).bind fun left p =>
        let p := { p with firstPass := false }
        if p.attempted then passes chain fuel left p else .next left p

-- Whether a target that has not refused has an eligible key left.
def Progress.untried (p : Progress) (chain : List Target) : Bool :=
  chain.zipIdx.any fun (target, i) =>
    !p.refused i &&
      (p.pools target.pool).hasEligibleKey (p.now u nowSecs) (p.tried i) (some target.model)

-- What a chain that was not served reports.
def Progress.report (p : Progress) (chain : List Target) : GovernanceError :=
  let final := if p.untried u nowSecs chain then none else finalRefusal p.errors
  match final with
  | some error => .nonRetryable error
  | none =>
    match p.unavailable with
    | some error => error
    | none => if p.failures.isEmpty then .allCandidatesExhausted else .allCandidatesFailed p.failures

def Progress.start (pools : Nat → ProviderKeyPool) : Progress where
  pools       := pools
  ticks       := 0
  tried _     := []
  refused _   := false
  failures    := []
  errors      := []
  unavailable := none
  firstPass   := true
  attempted   := false
  log         := []

def attemptLimit (maxAttempts : Nat) : Nat := max 1 (min maxAttempts 3)

def executeChain (chain : List Target) (maxAttempts : Nat) (pools : Nat → ProviderKeyPool) :
    Progress × ChainResult :=
  let limit := attemptLimit maxAttempts
  match passes u cooldown nowSecs chain (limit + 1) limit (.start pools) with
  | .done p r => (p, r)
  | .next _ p =>
    let p := p.arrive u
    (p, .error (p.report u nowSecs chain))

end

end Gateway
