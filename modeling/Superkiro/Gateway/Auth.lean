import Superkiro.Billing.System

namespace Gateway

open Billing Except Host

inductive AuthError
  | malformedToken
  | invalidSignature (message : String)
  | expired
  | cardNotFound (cardId : String)
  | cardInactive (message : String)
  | tokenRevoked (tokenVersion cardVersion : Nat)
  | unavailable (message : String)
  | throttled (waitSecs : Nat)
  deriving DecidableEq

-- What an access token says of the card it's for.
structure AuthClaims where
  cardId       : String
  groupId      : String
  tokenVersion : Nat
  exp          : Nat
  iat          : Nat
  deriving DecidableEq

structure AccessClaims extends AuthClaims where
  kind : String := "access"
  iss  : String := "kiro-byok"
  aud  : String := "kiro-gateway"
  deriving DecidableEq

-- A refresh token is what is signed in it. A signature that isn't the gateway's own makes no token.
structure RefreshClaims where
  cardId         : String
  groupId        : String
  tokenVersion   : Nat
  refreshVersion : Nat := 1
  exp            : Nat
  iat            : Nat
  jti            : String
  kind           : String := "refresh"
  iss            : String := "kiro-byok"
  aud            : String := "kiro-gateway"
  deriving DecidableEq

-- Sign-ins and refreshes a card may complete in a rolling window.
def cardTokenBudget : Nat := 20

def cardTokenWindowSecs : Nat := 3600

-- How long a replaced refresh token is still taken as a retry.
def refreshReuseGraceSecs : Nat := 120

def accessTtlSecs : Nat := 3600

def refreshTtlSecs : Nat := 30 * 86400

structure AuthState (F : Type) where
  billing          : Engine F
  tokenIssues      : Table String (List Nat) := ∅
  refreshGraceSecs : Nat := refreshReuseGraceSecs

-- The clock when a request is checked, when it's answered and when its tokens are issued, and the
-- random identifier of its refresh token where there is randomness.
structure Moment where
  verified : Nat
  answered : Nat
  issued   : Nat
  nonce    : Option String

namespace AuthState

variable (s : AuthState F)

-- How long a card that used up its sign-ins and refreshes has to wait.
def tokenBudgetRetryAfter (cardId : String) (now : Nat) : Option Nat × AuthState F :=
  match s.tokenIssues.lookup cardId with
  | none        => (none, s)
  | some window =>
    let window := window.dropWhile fun issued => cardTokenWindowSecs ≤ now - issued
    let wait := max (cardTokenWindowSecs - (now - window.headD now)) 1
    (if cardTokenBudget ≤ window.length then some wait else none,
      { s with tokenIssues := s.tokenIssues.insert cardId window })

def recordTokenIssued (cardId : String) (now : Nat) : AuthState F :=
  let issues := s.tokenIssues.retain fun _ window =>
    window.getLast?.any fun issued => now - issued < cardTokenWindowSecs
  let window := (issues.lookup cardId).getD [] ++ [now]
  { s with tokenIssues := issues.insert cardId (window.drop (window.length - cardTokenBudget)) }

def issueToken (cardId groupId : String) (tokenVersion ttl : Nat) (m : Moment) : AccessClaims where
  cardId       := cardId
  groupId      := groupId
  tokenVersion := tokenVersion
  exp          := satAddU64 m.issued ttl
  iat          := m.issued

def issueRefreshToken (cardId groupId : String) (tokenVersion refreshVersion ttl : Nat) (m : Moment) :
    Except AuthError RefreshClaims :=
  match m.nonce with
  | none       => .error (.invalidSignature "refresh randomness unavailable")
  | some nonce => .ok {
      cardId         := cardId
      groupId        := groupId
      tokenVersion   := tokenVersion
      refreshVersion := refreshVersion
      exp            := satAddU64 m.issued ttl
      iat            := m.issued
      jti            := nonce }

def verifyTokenForCard (cardId : String) (tokenVersion now : Nat) : Except AuthError AuthClaims := do
  let card ← ofOption (s.billing.tables.cards.lookup cardId) (.cardNotFound cardId)
  card.checkDevicePolicy.mapError fun e => AuthError.cardInactive (cardErrorMessage e)
  ensure (card.status = .active) (AuthError.cardInactive cardId)
  ensure (!Card.isPast card.validUntil now) (AuthError.cardInactive cardId)
  ensure (card.tokenVersion = tokenVersion)
    (AuthError.tokenRevoked tokenVersion card.tokenVersion)
  return ⟨card.id, card.groupId, tokenVersion, u64Max, 0⟩

-- What a refresh token has to be before anything is committed for it.
def verifyRefresh (refresh : RefreshClaims) (m : Moment) : Except AuthError AuthClaims := do
  ensure (refresh.kind = "refresh") .malformedToken
  let claims ← s.verifyTokenForCard refresh.cardId refresh.tokenVersion m.verified
  ensure (claims.groupId = refresh.groupId) (.invalidSignature "refresh token tenant mismatch")
  ensure (m.answered < refresh.exp) .expired
  return claims

-- Nothing was consumed where the write failed, so the same token works again later.
def refreshError : BillingError → AuthError
  | .persistence message => .unavailable message
  | e                    => .invalidSignature e.message

variable [F64 F] [Host F] (io : Io)

-- Consumes a refresh token for a new pair.
def rotateRefreshToken (refresh : RefreshClaims) (m : Moment) :
    Except AuthError (AuthClaims × AccessClaims × RefreshClaims) × AuthState F :=
  match s.verifyRefresh refresh m with
  | .error err => (.error err, s)
  | .ok claims =>
    match s.tokenBudgetRetryAfter refresh.cardId m.answered with
    | (some wait, s) => (.error (.throttled wait), s)
    | (none, s)      =>
      match s.billing.rotateRefresh io refresh.cardId refresh.refreshVersion refresh.jti refresh.exp
        m.answered s.refreshGraceSecs with
      | (.error err, e) => (.error (refreshError err), { s with billing := e })
      | (.ok r, e)      =>
        let s := { s with billing := e }
        let access := issueToken claims.cardId claims.groupId claims.tokenVersion accessTtlSecs m
        match issueRefreshToken claims.cardId claims.groupId claims.tokenVersion r.version
          refreshTtlSecs m with
        | .error err => (.error err, s)
        | .ok token  => (.ok (claims, access, token), s.recordTokenIssued claims.cardId m.answered)

-- A sign-in whose code was found: it activates the card with its device, and starts a new family of
-- refresh tokens. No tokens are answered where it's refused.
def signIn (cardId : String) (duration : Nat) (device : String) (m : Moment) :
    Option (AccessClaims × RefreshClaims) × AuthState F :=
  match s.tokenBudgetRetryAfter cardId m.answered with
  | (some _, s) => (none, s)
  | (none, s)   =>
    match s.billing.activateCardWithDevice io cardId m.answered duration (some device) with
    | (.error _, e) => (none, { s with billing := e })
    | (.ok card, e) =>
      let s := { s with billing := e }
      let access := issueToken card.id card.groupId card.tokenVersion accessTtlSecs m
      match issueRefreshToken card.id card.groupId card.tokenVersion card.refreshVersion
        refreshTtlSecs m with
      | .error _  => (none, s)
      | .ok token => (some (access, token), s.recordTokenIssued card.id m.answered)

end AuthState

-- What a gateway is asked: to sign a card in, to refresh its session, or anything of the billing.
inductive Request (F : Type)
  | signIn (cardId : String) (duration : Nat) (device : String) (m : Moment)
  | refresh (token : RefreshClaims) (m : Moment)
  | billing (op : Op F)

structure Label (F : Type) where
  request : Request F
  io      : Io := {}

namespace AuthState

variable [F64 F] [Host F] (s : AuthState F)

-- The refresh token that a request is answered with, and the state after it.
def step (l : Label F) : Option RefreshClaims × AuthState F :=
  match l.request with
  | .signIn cardId duration device m =>
    let (tokens, s) := s.signIn l.io cardId duration device m
    (tokens.map (·.2), s)
  | .refresh token m                 =>
    let (tokens, s) := s.rotateRefreshToken l.io token m
    (tokens.toOption.map (·.2.2), s)
  | .billing op                      => (none, { s with billing := s.billing.exec l.io op })

def run (s : AuthState F) : List (Label F) → AuthState F
  | []      => s
  | l :: ls => (s.step l).2.run ls

-- The refresh tokens that were issued.
def issued (s : AuthState F) : List (Label F) → List RefreshClaims
  | []      => []
  | l :: ls => (s.step l).1.toList ++ (s.step l).2.issued ls

-- What the billing is asked for a request.
def asks (l : Label F) : List (Engine.Label F) :=
  match l.request with
  | .signIn cardId duration device m =>
    if (s.tokenBudgetRetryAfter cardId m.answered).1.isNone then
      [⟨.activateCardWithDevice cardId m.answered duration (some device), l.io⟩]
    else []
  | .refresh token m                 =>
    if (s.verifyRefresh token m).isOk ∧ (s.tokenBudgetRetryAfter token.cardId m.answered).1.isNone then
      [⟨.rotateRefresh token.cardId token.refreshVersion token.jti token.exp m.answered
        s.refreshGraceSecs, l.io⟩]
    else []
  | .billing op                      => [⟨op, l.io⟩]

def asked (s : AuthState F) : List (Label F) → List (Engine.Label F)
  | []      => []
  | l :: ls => s.asks l ++ (s.step l).2.asked ls

end AuthState
end Gateway
