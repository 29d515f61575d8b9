import Superkiro.Billing.CardEvents

namespace Billing

open F64 Except Host

-- A balance adjustment an operator makes, and the requests it makes up for.
structure BalanceAdjustment where
  cardId            : String
  deltaMicroCredits : I64
  operatorId        : String
  reason            : String
  nowSecs           : Nat
  idempotencyKey    : Option String := none
  requests          : List String := []
  allowRepeat       : Bool := false
  kind              : Option AdjustmentKind := none
  cashMicroCny      : Option I64 := none

-- An upgrade or a renewal an operator records for a card.
structure CardUpgrade where
  cardId         : String
  planId         : String
  creditsDelta   : I64
  cashMicroCny   : I64
  groupId        : Option String := none
  extendDays     : Nat := 0
  operatorId     : String
  reason         : String
  nowSecs        : Nat
  idempotencyKey : Option String := none

-- Where a request was charged.
structure ChargedRequest where
  cardId  : String
  credits : I64
  tsSecs  : Nat
  deriving DecidableEq

def ChargedRequest.ofEntry (e : LedgerEntry F) : ChargedRequest :=
  ⟨e.cardId, e.creditsCharged, e.tsSecs⟩

def ChargedRequest.ofTrace (tr : RequestTrace F) : ChargedRequest :=
  ⟨tr.cardId, tr.creditsCharged, tr.ts⟩

section

variable (parse : String → Option Json)

-- A kept balance adjustment's kind and the money it records.
def adjustmentKind (e : LedgerEntry F) : Option (AdjustmentKind × Option I64) :=
  if e.kind ≠ .adjustment ∨ e.creditsCharged = 0 ∨ e.exposedModel = upgradeEvent then none
  else
    let detail := e.eventDetail parse
    let cash := (detail.bind (·.get? "cashMicroCny")).bind Json.asI64?
    let named := (detail.bind (·.get? "kind")).bind Json.asStr?
    let kind := (named.bind fun n =>
      [AdjustmentKind.compensation, .gift, .refund, .correction].find? (·.asStr = n)).getD
        (.defaultFor e.creditsCharged !(linkedRequests detail).isEmpty)
    some (kind, cash)

end

namespace Tables

variable (t : Tables F)

-- The trace of an invocation that charged the most, the earliest of several.
def dearestTrace (id : String) : Option (RequestTrace F) :=
  (t.traces.filter (·.invocationId = id)).foldl (fun best tr =>
    match best with
    | some b => if b.creditsCharged < tr.creditsCharged then some tr else some b
    | none   => some tr) none

-- Where a request was charged: in the ledger, a settlement in flight, a trace, or an archive.
def chargedRequest (archives : List (List (LedgerEntry F))) (id : String) :
    Option ChargedRequest :=
  ((((t.ledger.find? (·.isUsageOf id)).map ChargedRequest.ofEntry).orElse fun _ =>
    (t.pendingSettlements.lookup id).map fun p => .ofEntry p.entry).orElse fun _ =>
    (t.dearestTrace id).map .ofTrace).orElse fun _ =>
    (archives.flatten.find? (·.isUsageOf id)).map .ofEntry

-- The adjustment already made under a key.
def adjustmentUnder (key : String) : Option (LedgerEntry F) :=
  (t.ledger.find? fun e => e.kind = .adjustment && e.invocationId = some key).orElse fun _ =>
    t.archivedLedgerSummary.adjustments.lookup key

end Tables

def conflict (key : String) : BillingError := .invalidAdjustment <|
  "Idempotency conflict: key '" ++ key ++ "' already used with different parameters"

-- Refused requests and what was found for them.
def refusedRequest (id : String) (found : ChargedRequest) : RefusedRequest where
  invocationId        := id
  cardId              := some found.cardId
  chargedMicroCredits := some found.credits
  chargedAtSecs       := some found.tsSecs

def chargedText (id : String) (found : ChargedRequest) : String :=
  "Request " ++ id ++ " was charged " ++ Text.microDecimal found.credits.val ++ " credits at " ++
  Text.isoUtc found.tsSecs

def unknownMessage (requests : List String) (unknown : Nat) : String :=
  match requests with
  | [id] => "Request " ++ id ++ " was not found"
  | _    => toString unknown ++ " of the requests were not found"

def otherCardMessage (cardId : String) (found : List (String × ChargedRequest)) (other : Nat) :
    String :=
  match found with
  | [(id, f)] => "Request " ++ id ++ " was made by card " ++ f.cardId ++ ", not " ++ cardId
  | _         => toString other ++ " of the requests were made by another card"

def repeatMessage (found : List (String × ChargedRequest)) (repeated : List RefusedRequest) :
    String :=
  match found, repeated with
  | [(id, f)], [r] =>
    chargedText id f ++ ", and was already compensated " ++
    Text.microDecimal (r.compensatedMicroCredits.getD 0).val ++ " credits at " ++
    Text.isoUtc (r.compensatedAtSecs.getD 0) ++ " by " ++ r.operator.getD "unknown" ++ " (" ++
    r.reason.getD "no reason" ++ "); send allowRepeat with a reason to compensate it again"
  | _, _ =>
    toString repeated.length ++ " of the requests were already compensated; " ++
    "send allowRepeat with a reason to compensate them again"

def overMessage (delta total : I64) (found : List (String × ChargedRequest)) : String :=
  match found with
  | [(id, f)] =>
    chargedText id f ++ "; a compensation of " ++ Text.microDecimal delta.val ++
    " credits is more than that; send allowRepeat with a reason to compensate more"
  | _ =>
    "A compensation of " ++ Text.microDecimal delta.val ++ " credits is more than the " ++
    Text.microDecimal total.val ++ " credits these " ++ toString found.length ++
    " requests were charged; send allowRepeat with a reason to compensate more"

-- Each request must be the card's. A positive compensation must neither repeat one already made nor
-- exceed what the requests were charged together, unless that is explicitly allowed.
def checkCompensation (index : CompensationIndex) (a : BalanceAdjustment) (requests : List String)
    (charged : List (Option ChargedRequest)) : Result Unit := do
  let unknown := ((requests.zip charged).filter (·.2.isNone)).map (·.1)
  ensure unknown.isEmpty (.compensation {
    message  := unknownMessage requests unknown.length
    kind     := .unknown
    requests := unknown.map fun id => { invocationId := id } })
  let found := (requests.zip charged).filterMap fun (id, f) => f.map (id, ·)
  let other := found.filter (·.2.cardId ≠ a.cardId)
  ensure other.isEmpty (.compensation {
    message  := otherCardMessage a.cardId found other.length
    kind     := .otherCard
    requests := other.map fun (id, f) => refusedRequest id f })
  if a.deltaMicroCredits ≤ 0 ∨ a.allowRepeat then pure ()
  else
    let repeated := found.filterMap fun (id, f) => (index.get a.cardId id).map fun c =>
      { refusedRequest id f with
        compensatedMicroCredits := some c.latest.microCredits
        compensatedAtSecs       := some c.latest.atSecs
        operator                := c.latest.operator
        reason                  := c.latest.reason }
    ensure repeated.isEmpty (.compensation {
      message  := repeatMessage found repeated
      kind     := .repeat
      requests := repeated })
    let total := I64.satSum 0 (found.map (·.2.credits))
    ensure (a.deltaMicroCredits ≤ total) (.compensation {
      message                  := overMessage a.deltaMicroCredits total found
      kind                     := .over
      requests                 := found.map fun (id, f) => refusedRequest id f
      askedMicroCredits        := some a.deltaMicroCredits
      chargedTotalMicroCredits := some total })

-- A card with its balance adjusted.
def Card.adjusted (card : Card) (delta : I64) : Result Card :=
  if 0 < delta then pure { card with creditTotal := card.creditTotal.satAdd delta }
  else do
    let deduct := delta.satNeg
    ensure (deduct ≤ card.availableCredits)
      (.card (.insufficientCredit card.availableCredits deduct))
    return { card with creditUsed := card.creditUsed.satAdd deduct }

def adjustmentEntry (a : BalanceAdjustment) (id operator reason : String) (detail : Json) :
    LedgerEntry F where
  id             := "ledger-" ++ id
  cardId         := a.cardId
  kind           := .adjustment
  invocationId   := some id
  exposedModel   := "adjustment"
  providerId     := "system"
  targetModel    := "adjustment"
  creditsCharged := a.deltaMicroCredits
  tsSecs         := a.nowSecs
  operatorId     := some operator
  reason         := some reason
  detail         := some detail

section

variable (parse : String → Option Json)

-- Whether a kept adjustment is the one asked for.
def isSameAdjustment (existing : LedgerEntry F) (a : BalanceAdjustment) (requests : List String)
    (operator reason : String) (kind : AdjustmentKind) : Bool :=
  existing.cardId = a.cardId && existing.creditsCharged = a.deltaMicroCredits &&
  existing.operatorId = some operator && existing.reason = some reason &&
  (linkedRequests (existing.eventDetail parse)).insertionSort (· ≤ ·) =
    requests.insertionSort (· ≤ ·) &&
  adjustmentKind parse existing = some (kind, a.cashMicroCny)

def replayAdjustment (existing : LedgerEntry F) (a : BalanceAdjustment) (key : String)
    (requests : List String) (operator reason : String) (kind : AdjustmentKind) :
    Result (Txn F (LedgerEntry F)) := do
  ensure (isSameAdjustment parse existing a requests operator reason kind) (conflict key)
  return .answer existing

def checkRequests (t : Tables F) (index : CompensationIndex) (a : BalanceAdjustment)
    (requests : List String) (charged : List (Option ChargedRequest)) : Result Unit :=
  if requests.isEmpty then pure ()
  else do
    ensure (decide (a.cardId ∈ t.cards)) (.cardNotFound a.cardId)
    checkCompensation index a requests charged

def Tables.newAdjustment (t : Tables F) (index : CompensationIndex) (a : BalanceAdjustment)
    (requests : List String) (charged : List (Option ChargedRequest)) (operator reason : String)
    (kind : AdjustmentKind) : Result (Txn F (LedgerEntry F)) := do
  checkRequests t index a requests charged
  let card ← t.getCard a.cardId
  ensure (card.status ≠ .voided) (.invalidState "cannot adjust a voided card")
  let card ← card.adjusted a.deltaMicroCredits
  let id := a.idempotencyKey.getD (eventId "adj" a.cardId a.nowSecs t.ledger.length)
  let detail := adjustmentDetail kind a.cashMicroCny requests
    (charged.map fun f => (f.map (·.credits)).getD 0)
  let entry := adjustmentEntry a id operator reason detail
  return .write (t.withCard a.cardId card [entry]) (·.withCard a.cardId card [entry]) entry

def Tables.adjustCardBalance (t : Tables F) (index : CompensationIndex)
    (archives : List (List (LedgerEntry F))) (a : BalanceAdjustment) :
    Result (Txn F (LedgerEntry F)) := do
  let requests := a.requests.foldl pushNew []
  let charged := requests.map (t.chargedRequest archives)
  let operator := Text.trim a.operatorId
  ensure (!operator.isEmpty) (.invalidAdjustment "Operator ID is required for audit trail")
  let reason := Text.trim a.reason
  ensure (!reason.isEmpty) (.invalidAdjustment "Reason is required for audit trail")
  ensure (a.deltaMicroCredits ≠ 0) (.invalidAdjustment "Adjustment delta cannot be zero")
  let kind := a.kind.getD (.defaultFor a.deltaMicroCredits !requests.isEmpty)
  refuse (kind.cashProblem a.cashMicroCny) .invalidAdjustment
  match a.idempotencyKey.bind t.adjustmentUnder with
  | some existing =>
    replayAdjustment parse existing a (a.idempotencyKey.getD "") requests operator reason kind
  | none => t.newAdjustment index a requests charged operator reason kind

end

-- The record of a plan in a card's history.
def IssuedPlan.record (p : IssuedPlan) : Json :=
  .obj <| [
    ("id", .str p.id), ("name", .str p.name), ("points", .num p.points.val),
    ("priceMicroCny", .num p.priceMicroCny.val)
  ] ++ (match p.paidMicroCny with
    | some paid => [("paidMicroCny", .num paid.val)]
    | none      => []) ++ [
    ("validityDays", .num p.validityDays), ("maxDevices", .num p.maxDevices),
    ("concurrency", .num p.concurrency), ("kiroPlanType", .str p.kiroPlanType)
  ]

section

variable (parse : String → Option Json)

-- Whether a kept adjustment is the upgrade asked for.
def isSameUpgrade (existing : LedgerEntry F) (u : CardUpgrade) (operator reason : String) : Bool :=
  let detail := (existing.eventDetail parse).getD .null
  existing.cardId = u.cardId && existing.exposedModel = upgradeEvent &&
  existing.creditsCharged = u.creditsDelta && existing.operatorId = some operator &&
  existing.reason = some reason &&
  (detail.get? "planId").bind Json.asStr? = some u.planId &&
  (detail.get? "cashMicroCny").any (fun | .num n => n = u.cashMicroCny.val | _ => false) &&
  (detail.get? "extendDays").any (fun | .num n => n = u.extendDays | _ => false) &&
  u.groupId.all fun g => (detail.get? "groupId").bind Json.asStr? = some g

variable [F64 F]

-- The catalog in force: the plans stored or, while none are, the seed.
def Tables.planCatalog (t : Tables F) : List (Plan F) := t.plans.getD (seedPlans t.groups)

def cardExtension (u : CardUpgrade) (card : Card) : Result (Card × List (String × Json)) :=
  let perpetual : BillingError :=
    .invalidState ("Cards that never expire cannot be extended: " ++ u.cardId)
  if u.extendDays = 0 then pure (card, [])
  else if awaitsActivation card then do
    ensure (card.activationDurationSecs ≠ some 0) perpetual
    let previous := card.activationDurationSecs.getD legacyActivationSecs
    let duration := satAddU64 previous (daySecs u.extendDays)
    return (card.extendedActivation duration, [
      ("activationDurationSecs", .num duration),
      ("previousActivationDurationSecs", .num previous)])
  else do
    let current ← ofOption card.validUntil perpetual
    let until_ := satAddU64 (max current u.nowSecs) (daySecs u.extendDays)
    return (card.extendedTo until_, [])

-- What the history keeps of an upgrade: the plan, group, credits and expiry before and after.
def upgradeDetail (u : CardUpgrade) (plan : Plan F) (groupId : String) (before after : Card)
    (extension : List (String × Json)) (snapshot : IssuedPlan) : Json :=
  .obj <| [
    ("planId", .str plan.id),
    ("previousPlanId", optStr before.planId),
    ("previousPlanName", optStr before.planName),
    ("previousPlan", (before.plan.map IssuedPlan.record).getD .null),
    ("renewal", .bool (before.planId = some plan.id)),
    ("groupId", .str groupId),
    ("previousGroupId", .str before.groupId),
    ("creditsDelta", .num u.creditsDelta.val),
    ("creditTotal", .num (before.creditTotal.satAdd u.creditsDelta).val),
    ("previousCreditTotal", .num before.creditTotal.val),
    ("cashMicroCny", .num u.cashMicroCny.val),
    ("extendDays", .num u.extendDays),
    ("validUntil", optNat after.validUntil),
    ("previousValidUntil", optNat before.validUntil)
  ] ++ extension ++ [("plan", snapshot.record)]

-- A card on the plan and in the group it was sold, with the credits added.
def Card.upgraded (card : Card) (u : CardUpgrade) (groupId : String) (snapshot : IssuedPlan) :
    Card :=
  { card with
    creditTotal  := card.creditTotal.satAdd u.creditsDelta
    groupId      := groupId
    tokenVersion :=
      if card.groupId = groupId then card.tokenVersion else satAddU64 card.tokenVersion 1
    plan         := some snapshot }

def upgradeEntry (ledgerLen : Nat) (u : CardUpgrade) (operator reason : String) (detail : Json) :
    LedgerEntry F :=
  let e : LedgerEntry F := cardEventEntry ledgerLen u.cardId upgradeEvent operator reason u.nowSecs
  let e := { e with creditsCharged := u.creditsDelta, detail := some detail }
  match u.idempotencyKey with
  | some key => { e with id := "ledger-" ++ key, invocationId := some key }
  | none     => e

def Tables.newUpgrade (t : Tables F) (u : CardUpgrade) (operator reason : String) :
    Result (Txn F Card) := do
  let before ← t.getCard u.cardId
  ensure (before.status ≠ .voided)
    (.invalidState ("Voided cards cannot be upgraded: " ++ u.cardId))
  ensure before.archivedAt.isNone
    (.invalidState ("Archived cards must be unarchived before they are upgraded: " ++ u.cardId))
  let plan ← ofOption (t.planCatalog.find? (·.id = u.planId))
    (.invalidState ("Unknown plan: " ++ u.planId))
  let groupId := u.groupId.getD plan.defaultGroupId
  let group ← ofOption (t.groups.lookup groupId) (.invalidState ("Unknown group: " ++ groupId))
  ensure group.issuanceEnabled (.invalidState ("Group does not take cards: " ++ groupId))
  let (extended, extension) ← cardExtension u before
  let snapshot := { plan.snapshot with paidMicroCny := some u.cashMicroCny }
  let card := extended.upgraded u groupId snapshot
  return t.writeCard u.cardId card <| upgradeEntry t.ledger.length u operator reason <|
    upgradeDetail u plan groupId before extended extension snapshot

def Tables.upgradeCard (t : Tables F) (u : CardUpgrade) : Result (Txn F Card) := do
  let operator ← namedOperator u.operatorId "upgrade card"
  let reason := Text.trim u.reason
  ensure (!reason.isEmpty) (.invalidAdjustment "Reason is required to upgrade a card")
  ensure (0 ≤ u.creditsDelta && 0 ≤ u.cashMicroCny)
    (.invalidAdjustment "creditsDelta and cashMicroCny cannot be negative")
  match u.idempotencyKey.bind t.adjustmentUnder with
  | some existing => do
    ensure (isSameUpgrade parse existing u operator reason) (conflict (u.idempotencyKey.getD ""))
    let card ← t.getCard u.cardId
    return .answer card
  | none => t.newUpgrade u operator reason

end

def renewalEntry (source : Card) (cardId : String) (now : Nat) : LedgerEntry F where
  id             := "renew-" ++ source.id
  cardId         := cardId
  kind           := .topup
  invocationId   := some ("renew-" ++ source.id)
  exposedModel   := "card_renewal"
  providerId     := "system"
  targetModel    := "card_renewal"
  creditsCharged := source.creditTotal
  tsSecs         := now
  operatorId     := some "card-holder"
  reason         := some ("Renewed using card " ++ source.id)

def renewalDebit (source : Card) (cardId : String) (now : Nat) : LedgerEntry F :=
  { renewalEntry source cardId now with
    id             := "renew-debit-" ++ source.id
    cardId         := source.id
    kind           := .adjustment
    creditsCharged := source.creditTotal.satNeg
    reason         := some ("Transferred to card " ++ cardId) }

-- A card with a renewed expiry and the credits of the card it was renewed with.
def Card.renewed (card : Card) (total : I64) (now : Nat) : Card :=
  { card with
    creditTotal := total
    validUntil  := card.validUntil.map fun u => max u (satAddU64 now (30 * 86400))
    status      := .active }

def Card.consumed (card : Card) : Card :=
  { card with status := .voided, creditUsed := card.creditTotal }

namespace Tables

variable (t : Tables F)

def withRenewal (cardId : String) (target source : Card) (entries : List (LedgerEntry F)) :
    Tables F :=
  { t with
    cards  := (t.cards.insert cardId target).insert source.id source
    ledger := t.ledger ++ entries }

-- Transfers an unused card's balance and consumes that card.
def renewWithCard (hash : String → String) (cardId code : String) (now : Nat) :
    Result (Txn F (LedgerEntry F)) := do
  let source ← ofOption (t.cards.values.find? (·.codeHash = hash (Text.trim code)))
    .invalidOrRedeemedTopupCode
  ensure (source.id ≠ cardId && isUntouched source && 0 < source.creditTotal)
    .invalidOrRedeemedTopupCode
  let target ← t.getCard cardId
  ensure ((target.status = .active || target.status = .expired) && target.activatedAt.isSome)
    (.card (.notActive target.status))
  let total ← ofOption (target.creditTotal.checkedAdd source.creditTotal)
    (.invalidState "Credit overflow")
  let entry := renewalEntry source cardId now
  let entries := [entry, renewalDebit source cardId now]
  let target := target.renewed total now
  return .write (t.withRenewal cardId target source.consumed entries)
    (·.withRenewal cardId target source.consumed entries) entry

def topupEntry (code : TopupCode) (cardId operator : String) (now : Nat) : LedgerEntry F where
  id             := "ledger-" ++ code.id
  cardId         := cardId
  kind           := .topup
  invocationId   := some ("topup-" ++ code.id)
  exposedModel   := "topup"
  providerId     := "system"
  targetModel    := "topup"
  creditsCharged := code.creditAmount
  tsSecs         := now
  operatorId     := some operator
  reason         := some ("Redeemed top-up code " ++ code.id)

def checkTopupExtension (code : TopupCode) (card : Card) : Result Unit :=
  if code.durationExtensionSecs = 0 then pure ()
  else do
    ensure (card.status ≠ .unactivated) (.invalidState <|
      "activate the card before redeeming a duration top-up; the top-up code has not been used")
    ensure card.validUntil.isSome (.invalidState <|
      "duration top-ups are not supported for perpetual cards; " ++
      "the top-up code has not been used")

-- A card with a top-up's credits and validity.
def toppedUp (code : TopupCode) (card : Card) (now : Nat) : Card :=
  { card with
    creditTotal := card.creditTotal.satAdd code.creditAmount
    validUntil  :=
      if code.durationExtensionSecs = 0 then card.validUntil
      else some (satAddU64 (max (card.validUntil.getD now) now) code.durationExtensionSecs)
    status      := if card.status = .expired then .active else card.status }

def withTopup (codeKey : String) (code : TopupCode) (cardId : String) (card : Card)
    (entry : LedgerEntry F) : Tables F :=
  { t with
    topupCodes := t.topupCodes.insert codeKey code
    cards      := t.cards.insert cardId card
    ledger     := t.ledger ++ [entry] }

def redeemTopup (hash : String → String) (cardId code : String) (now : Nat) (operator : String) :
    Result (Txn F (LedgerEntry F)) := do
  let ⟨key, code⟩ ← ofOption
    (t.topupCodes.entries.find? fun e => e.2.codeHash = hash code && !e.2.isUsed)
    .invalidOrRedeemedTopupCode
  let card ← t.getCard cardId
  ensure (card.status ≠ .frozen && card.status ≠ .banned && card.status ≠ .voided)
    (.card (.notActive card.status))
  checkTopupExtension code card
  let code := { code with isUsed := true, usedByCardId := some cardId, usedAt := some now }
  let card := toppedUp code card now
  let entry := topupEntry code cardId operator now
  return .write (t.withTopup key code cardId card entry)
    (·.withTopup code.id code cardId card entry) entry

-- The ledger before a cutoff, which is archived, and what is kept.
def archived (before : Nat) : List (LedgerEntry F) := t.ledger.filter (·.tsSecs < before)

def kept (before : Nat) : List (LedgerEntry F) := t.ledger.filter (before ≤ ·.tsSecs)

def withArchive (before : Nat) (receipt : ArchivedLedgerReceipt) : Tables F :=
  { t with
    ledger                 := t.kept before
    archivedLedgerSummary  :=
      (t.archived before).foldl ArchivedLedgerSummary.includeEntry t.archivedLedgerSummary
    archivedLedgerReceipts := t.archivedLedgerReceipts ++ [receipt] }

def publishArchive (candidate : Tables F) (receipt : ArchivedLedgerReceipt) (live : Tables F) :
    Tables F :=
  { live with
    ledger                 := candidate.ledger
    archivedLedgerSummary  := candidate.archivedLedgerSummary
    archivedLedgerReceipts := live.archivedLedgerReceipts ++ [receipt] }

def archiveLedger (before : Nat) (receipt : ArchivedLedgerReceipt) :
    Result (Txn F ArchivedLedgerReceipt) := do
  ensure (!(t.archived before).isEmpty)
    (.invalidAdjustment "No ledger entries match the archival cutoff timestamp")
  let candidate := t.withArchive before receipt
  return .write candidate (publishArchive candidate receipt) receipt

end Tables

-- Card balance reconciliation details against the ledger.
structure CardReconciliation where
  cardId                   : String
  initialCredits           : I64
  totalTopupCredits        : I64
  totalPositiveAdjustments : I64
  totalNegativeAdjustments : I64
  totalUsageCharges        : I64
  expectedCreditTotal      : I64
  actualCreditTotal        : I64
  expectedCreditUsed       : I64
  actualCreditUsed         : I64
  availableCredits         : I64
  isBalanced               : Bool
  deriving DecidableEq

def LedgerEntry.topup? (e : LedgerEntry F) : Option I64 :=
  if e.kind = .topup then some e.creditsCharged else none

def LedgerEntry.usage? (e : LedgerEntry F) : Option I64 :=
  if e.kind = .usage then some e.creditsCharged else none

def LedgerEntry.positiveAdjustment? (e : LedgerEntry F) : Option I64 :=
  if e.kind = .adjustment ∧ 0 < e.creditsCharged then some e.creditsCharged else none

def LedgerEntry.negativeAdjustment? (e : LedgerEntry F) : Option I64 :=
  if e.kind = .adjustment ∧ e.creditsCharged < 0 then some e.creditsCharged.satNeg else none

namespace Tables

variable (t : Tables F)

-- Adds up what some quantity comes to in a card's live ledger, from what it is archived at.
def addUp (cardId : String) (quantity : LedgerEntry F → Option I64) (archived : I64) : I64 :=
  .satSum archived ((t.ledger.filter (·.cardId = cardId)).filterMap quantity)

def reconcileCardBalance (cardId : String) (initial : I64) : Result CardReconciliation := do
  let card ← t.getCard cardId
  let archived := t.archivedLedgerSummary.card cardId
  let topups := t.addUp cardId LedgerEntry.topup? archived.topups
  let positive := t.addUp cardId LedgerEntry.positiveAdjustment? archived.positiveAdjustments
  let negative := t.addUp cardId LedgerEntry.negativeAdjustment? archived.negativeAdjustments
  let usage := t.addUp cardId LedgerEntry.usage? archived.usage
  let expectedTotal := (initial.satAdd topups).satAdd positive
  let expectedUsed := usage.satAdd negative
  return {
    cardId                   := cardId
    initialCredits           := initial
    totalTopupCredits        := topups
    totalPositiveAdjustments := positive
    totalNegativeAdjustments := negative
    totalUsageCharges        := usage
    expectedCreditTotal      := expectedTotal
    actualCreditTotal        := card.creditTotal
    expectedCreditUsed       := expectedUsed
    actualCreditUsed         := card.creditUsed
    availableCredits         := card.availableCredits
    isBalanced               := expectedTotal = card.creditTotal && expectedUsed = card.creditUsed
  }

end Tables
end Billing
