import Superkiro.Billing.Reservation
import Superkiro.Billing.Settings

namespace Billing

open F64 Except

def terminalReservationRetentionSecs : Nat := 24 * 60 * 60

def maxSnapshotBytes : Nat := 256 * 1024 * 1024

def maxRetainedTraces : Nat := 10000

def maxSettlementMicroCredits : I64 := 10000000000000

def maxTemplateInvocations : Nat := 65536

def maxTemplateInvocationBytes : Nat := 4 * 1024 * 1024

-- The prefix of the provider of a template charge.
def templateProvider : String := "response-template:"

structure RateCardAuditLog where
  id                : String
  rateCardId        : String
  versionId         : String
  operatorId        : String
  reason            : String
  createdAtSecs     : Nat
  previousVersionId : Option String
  deriving DecidableEq

structure CommercialAudit where
  previousRevision : String
  revision         : String
  reason           : String
  operator         : String
  createdAtSecs    : Nat
  deriving DecidableEq

structure IssuanceOrder where
  fingerprint  : String
  responseJson : String
  deriving DecidableEq

inductive AnnouncementLevel
  | info
  | warning
  | critical
  deriving DecidableEq

-- Who changed a published announcement, when, and which of its fields.
structure AnnouncementEdit where
  operator : String
  atSecs   : Nat
  changed  : List String
  deriving DecidableEq

structure Announcement where
  id        : String
  title     : String
  content   : String
  level     : AnnouncementLevel
  enabled   : Bool := true
  createdAt : Nat
  expiresAt : Option Nat := none
  startsAt  : Option Nat := none
  audience  : List String := []
  edits     : List AnnouncementEdit := []
  deriving DecidableEq

structure ArchivedLedgerReceipt where
  archiveId           : String
  archiveFile         : String
  drainedEntriesCount : Nat
  sha256Checksum      : String
  beforeTsSecs        : Nat
  createdAtSecs       : Nat
  deriving DecidableEq

-- Financial facts that must outlive ledger detail retention.
structure ArchivedCardSummary where
  topups               : I64 := 0
  positiveAdjustments  : I64 := 0
  negativeAdjustments  : I64 := 0
  usage                : I64 := 0
  providerCostMicroCny : I64 := 0
  usageBySecond        : Table Nat I64 := ∅

structure ArchivedLedgerSummary (F : Type) where
  cards                       : Table String ArchivedCardSummary := ∅
  adjustments                 : Table String (LedgerEntry F) := ∅
  entriesCount                : Nat := 0
  usageInvocationIds          : Finset String := ∅
  templateInvocationsComplete : Bool := false

def LedgerEntry.isTemplateUsage (e : LedgerEntry F) : Bool :=
  e.kind = .usage && Text.startsWith e.providerId templateProvider

-- What one entry adds to its card's summary.
def ArchivedCardSummary.includeEntry (c : ArchivedCardSummary) (e : LedgerEntry F) :
    ArchivedCardSummary :=
  match e.kind with
  | .usage => { c with
      usage                := c.usage.satAdd e.creditsCharged
      providerCostMicroCny := c.providerCostMicroCny.satAdd e.providerCostMicroCny
      usageBySecond        := c.usageBySecond.insert e.tsSecs
        (((c.usageBySecond.lookup e.tsSecs).getD 0).satAdd e.creditsCharged)
    }
  | .topup => { c with topups := c.topups.satAdd e.creditsCharged }
  | .adjustment =>
    if 0 ≤ e.creditsCharged then
      { c with positiveAdjustments := c.positiveAdjustments.satAdd e.creditsCharged }
    else
      { c with negativeAdjustments := c.negativeAdjustments.satAdd e.creditsCharged.satNeg }

namespace ArchivedLedgerSummary

variable (s : ArchivedLedgerSummary F)

def card (cardId : String) : ArchivedCardSummary := (s.cards.lookup cardId).getD {}

def includeEntry (e : LedgerEntry F) : ArchivedLedgerSummary F where
  cards := s.cards.insert e.cardId ((s.card e.cardId).includeEntry e)
  adjustments :=
    match e.kind, e.invocationId with
    | .adjustment, some key => s.adjustments.insert key e
    | _, _                  => s.adjustments
  entriesCount := s.entriesCount + 1
  usageInvocationIds :=
    match e.isTemplateUsage, e.invocationId with
    | true, some id => insert id s.usageInvocationIds
    | _, _          => s.usageInvocationIds
  templateInvocationsComplete := s.templateInvocationsComplete

def usageSince (cardId : String) (since : Nat) : I64 :=
  .satSum 0 (((s.card cardId).usageBySecond.ascending.filter fun e => since ≤ e.1).map (·.2))

end ArchivedLedgerSummary

-- Everything that is saved.
structure Tables (F : Type) where
  cards                    : Table String Card := ∅
  consumedRefreshTokens    : Table String Nat := ∅
  reservations             : Table String (CreditReservation F) := ∅
  ledger                   : List (LedgerEntry F) := []
  rates                    : Table String (PricingRates F) := ∅
  topupCodes               : Table String TopupCode := ∅
  groups                   : Table String (Group F) := ∅
  plans                    : Option (List (Plan F)) := none
  modelMaps                : List (ModelMap F) := []
  rateCards                : Table String RateCard := ∅
  rateCardVersions         : List (RateCardVersion F) := []
  rateCardAuditLogs        : List RateCardAuditLog := []
  commercialAuditLogs      : List CommercialAudit := []
  runtimeSettings          : RuntimeSettingsConfig := {}
  complexityRouting        : ComplexityRoutingState := {}
  responseTemplates        : ResponseTemplateConfig := {}
  responseTemplateReceipts : List ResponseTemplateReceipt := []
  settings                 : BillingSettings F
  traces                   : List (RequestTrace F) := []
  announcements            : List Announcement := []
  providers                : Table String Provider := ∅
  providerKeys             : Table String ProviderKey := ∅
  archivedLedgerReceipts   : List ArchivedLedgerReceipt := []
  archivedLedgerSummary    : ArchivedLedgerSummary F := {}
  issuanceOrders           : Table String IssuanceOrder := ∅
  unpaidLedger             : List UnpaidCharge := []
  pendingSettlements       : Table String (PendingSettlement F) := ∅

structure BillingSnapshot (F : Type) where
  version          : Nat
  timestamp        : Nat
  sequence         : Nat
  previousChecksum : Option String
  tables           : Tables F

-- What a publication's revision is a digest of: the sorted configuration.
structure CommercialView (F : Type) where
  groups           : List (Group F)
  modelMaps        : List (ModelMap F)
  rateCards        : List RateCard
  rateCardVersions : List (RateCardVersion F)
  settings         : BillingSettings F
  plans            : Option (List (Plan F))

-- What billing takes from its libraries: parsing, hashing, encryption and the lengths of what is
-- encoded. An entry of the ledger takes some bytes of the saved file.
class Host (F : Type) extends TemplateHost where
  parseJson          : String → Option Json
  hashCardCode       : String → String
  decrypt            : String → Option String
  templateDigest     : ResponseTemplateUpdate → Nat → String
  commercialDigest   : CommercialView F → String
  idsBytes           : Finset String → Nat
  fileBytes          : BillingSnapshot F → Nat
  checksum           : BillingSnapshot F → String
  archiveChecksum    : List (LedgerEntry F) → String
  ledger_le_fileBytes (s : BillingSnapshot F) : 6 * s.tables.ledger.length ≤ fileBytes s

open Host

namespace Tables

variable (t : Tables F)

-- The ledger entries of a card of a kind.
def entriesOf (cardId : String) (kind : LedgerKind) : List (LedgerEntry F) :=
  t.ledger.filter fun e => e.cardId = cardId && e.kind = kind

def heldBy (cardId : String) : List (CreditReservation F) :=
  t.reservations.values.filter fun r => r.cardId = cardId && r.state = .held

def held (cardId : String) : I64 := .satSum 0 ((t.heldBy cardId).map (·.reservedMicroCredits))

def usageSince (cardId : String) (since : Nat) : I64 :=
  .satSum (t.archivedLedgerSummary.usageSince cardId since)
    (((t.entriesOf cardId .usage).filter (since ≤ ·.tsSecs)).map (·.creditsCharged))

def checkLimit (limit : Option I64) (current held additional : I64)
    (e : I64 → I64 → I64 → I64 → BillingError) : Result Unit :=
  match limit with
  | some limit => ensure (additional ≤ limit.satSub current) (e limit current held additional)
  | none       => pure ()

-- A card's fair-use limits, for more credit held.
def checkQuota (card : Card) (additional : I64) (now : Nat) : Result Unit := do
  ensure (!t.pendingSettlements.values.any (·.entry.cardId = card.id))
    (.invalidState "card has a pending settlement")
  let held := t.held card.id
  checkLimit card.dailyCreditLimit ((t.usageSince card.id (now / 86400 * 86400)).satAdd held) held
    additional .dailyLimitExceeded
  checkLimit card.monthlyCreditLimit ((t.usageSince card.id (now - 30 * 86400)).satAdd held) held
    additional .monthlyLimitExceeded

-- Of the versions for a rate card's model in force at a time, the last of the latest.
def latest (rateCardId model : String) (at_ : Nat) : Option (RateCardVersion F) :=
  (t.rateCardVersions.filter fun v =>
    v.rateCardId = rateCardId && v.model = model && v.effectiveFromSecs ≤ at_).foldl (fun best v =>
      match best with
      | some b => if b.effectiveFromSecs ≤ v.effectiveFromSecs then some v else some b
      | none   => some v) none

-- An exact price for any of the names, most specific first, then the catch-all.
def resolvePrice (rateCardId : String) (models : List String) (at_ : Nat) :
    Option (RateCardVersion F) :=
  ((models.filter (· ≠ "*")).findSome? fun m => t.latest rateCardId m at_).orElse fun _ =>
    t.latest rateCardId "*" at_

def getRateCardVersion (id : String) : Option (RateCardVersion F) :=
  t.rateCardVersions.find? (·.id = id)

def findModelMap (groupId model : String) : Option (ModelMap F) :=
  t.modelMaps.find? fun m => m.groupId = groupId && m.matchesModel model

end Tables

def pushNew (names : List String) (name : String) : List String :=
  if names.contains name then names else names ++ [name]

-- The names a request's price is looked up under, most specific first.
def priceNames (requested : String) (map : Option (ModelMap F)) : List String :=
  match map with
  | some m => pushNew (pushNew [requested] m.exposedModelId) m.targetModel
  | none   => [requested]

section

variable [F64 F] [Host F]

def templateCapacityExhausted : BillingError := .invalidState <|
  "template invocation capacity exhausted (maximum 65536 IDs / 4194304 serialized bytes); " ++
  "new template charges refused; administrator action required, do not clear history"

def validateTemplateInvocationCapacity (s : ArchivedLedgerSummary F) : Result Unit :=
  ensure (s.usageInvocationIds.card ≤ maxTemplateInvocations &&
    idsBytes F s.usageInvocationIds ≤ maxTemplateInvocationBytes) templateCapacityExhausted

-- Whether a ledger entry is the charge a receipt was issued for.
def matchesReceipt (e : LedgerEntry F) (r : ResponseTemplateReceipt) : Bool :=
  e.kind = .usage && e.cardId = r.cardId && e.exposedModel = r.modelId &&
  e.tsSecs = r.createdAtSecs && Text.startsWith e.providerId templateProvider &&
  e.inputTokens = 0 && e.outputTokens = 0 && e.cacheCreationTokens = 0 && e.cacheReadTokens = 0 &&
  e.providerCostMicroCny = 0 && e.creditsCharged = r.priceMicrocredits

-- The last ledger entry of an invocation.
def lastEntryOf (ledger : List (LedgerEntry F)) (id : String) : Option (LedgerEntry F) :=
  (ledger.filter (·.invocationId = some id)).getLast?

namespace Template

def validateConfig (c : ResponseTemplateConfig) (receipts : List ResponseTemplateReceipt) :
    Result Unit := do
  ensure (Text.validId c.revision 128 && Text.startsWith c.revision "response-template:v1:" &&
    c.audit.length ≤ maxAudit && receipts.length ≤ maxReceipts)
    (invalid "invalid snapshot bounds or revision")
  match c.audit.getLast? with
  | none   => ensure (c = {}) (invalid "missing config audit")
  | some a => ensure (a.revision = c.revision) (invalid "config audit revision mismatch")
  ensure (c.audit.all (fun a => Text.validId a.reason 1024 && Text.validId a.revision 128 &&
    Text.validId a.previousRevision 128) && chained c.audit) (invalid "invalid config audit")

def validateReceipts (t : Tables F) (seen : List ResponseTemplateReceipt) :
    List ResponseTemplateReceipt → Result Unit
  | []      => .ok ()
  | r :: rs => do
    validateReceipt r
    ensure (!(seen.any fun s => s.cardId = r.cardId && s.conversationId = r.conversationId &&
        s.toolUseId = r.toolUseId) && !(seen.any (·.invocationId = r.invocationId)) &&
      decide (r.cardId ∈ t.cards)) (invalid "duplicate or orphan receipt")
    match lastEntryOf t.ledger r.invocationId with
    | some e => ensure (matchesReceipt e r) (invalid "receipt does not match service charge")
    | none   =>
      ensure (decide (r.invocationId ∈ t.archivedLedgerSummary.usageInvocationIds))
        (invalid "receipt missing durable charge")
    validateReceipts t (seen ++ [r]) rs

def validateSnapshotState (t : Tables F) : Result Unit := do
  validateReceiptBudget t.responseTemplateReceipts
  validateResponseTemplateRules t.responseTemplates.rules
  validateConfig t.responseTemplates t.responseTemplateReceipts
  validateReceipts t [] t.responseTemplateReceipts

end Template

-- The sum of values that aren't negative, unless it overflows.
def checkedTotal (xs : List I64) : Option I64 :=
  xs.foldlM (fun sum x => if x < 0 then none else sum.checkedAdd x) 0

def validArchivedCard (t : Tables F) (id : String) (c : ArchivedCardSummary) : Bool :=
  decide (id ∈ t.cards) &&
  checkedTotal (c.usageBySecond.ascending.map (·.2)) = some c.usage &&
  0 ≤ c.topups && 0 ≤ c.positiveAdjustments && 0 ≤ c.negativeAdjustments

def validPending (t : Tables F) (id : String) (r : CreditReservation F) (e : LedgerEntry F) :
    Bool :=
  r.state = .held && r.cardId = e.cardId && e.invocationId = some id && e.kind = .usage &&
  0 ≤ e.creditsCharged && decide (e.cardId ∈ t.cards) && !t.ledger.any (·.isUsageOf id)

-- What usage and negative adjustments of a card come to.
def usedByLedger (t : Tables F) (cardId : String) : I64 :=
  let archived := t.archivedLedgerSummary.card cardId
  .satSum (archived.usage.satAdd archived.negativeAdjustments)
    ((t.ledger.filter (·.cardId = cardId)).filterMap fun e =>
      match e.kind with
      | .usage      => some e.creditsCharged
      | .adjustment => if e.creditsCharged < 0 then some e.creditsCharged.satNeg else none
      | .topup      => none)

def validateCard (t : Tables F) (card : Card) : Result Unit := do
  ensure (0 ≤ card.creditTotal && 0 ≤ card.creditUsed && 0 ≤ card.creditReserved)
    (.invalidState ("invalid balance invariant for card " ++ card.id))
  ensure (t.ledger.all fun e =>
    !(e.cardId = card.id && e.kind = .usage && decide (e.creditsCharged < 0)))
    (.invalidState "negative usage charge")
  ensure (card.creditUsed = usedByLedger t card.id)
    (.invalidState ("Card '" ++ card.id ++ "' failed ledger reconciliation"))

def validSettings (s : BillingSettings F) : Bool :=
  isFinite s.creditFaceValueCny && isFinite s.usdCnyRate &&
  !lt s.creditFaceValueCny (lit 0) && !lt s.usdCnyRate (lit 0) &&
  s.legacyCreditFaceValueCny.all fun v => isFinite v && !le v (lit 0)

def validRates (r : PricingRates F) : Bool :=
  isFinite r.creditMultiplier && isFinite r.marginMultiplier &&
  !lt r.creditMultiplier (lit 0) && !lt r.marginMultiplier (lit 0)

def validVersion (v : RateCardVersion F) : Bool :=
  v.pricePerM.toList.all isFinite && isFinite v.marginMultiplier && !lt v.marginMultiplier (lit 0)

-- The tables of the configuration a loader accepts.
def validateConfiguration (t : Tables F) : Result Unit := do
  ensure (t.consumedRefreshTokens.entries.all fun e =>
    !e.1.isEmpty && Text.len e.1 ≤ 256 && e.2 ≠ 0)
    (.invalidState "billing snapshot contains invalid consumed refresh tokens")
  ensure (validSettings t.settings)
    (.invalidState "billing snapshot contains invalid billing settings")
  ensure (t.rates.values.all validRates)
    (.invalidState "billing snapshot contains invalid pricing multipliers")
  ensure (t.rateCardVersions.all validVersion)
    (.invalidState "billing snapshot contains invalid rate card values")

-- What of the archive a loader accepts.
def validateArchive (t : Tables F) : Result Unit := do
  ensure ((t.archivedLedgerReceipts.map (·.drainedEntriesCount)).sum ≤ u64Max)
    (.invalidState "archive count overflow")
  ensure ((t.archivedLedgerReceipts.map (·.drainedEntriesCount)).sum =
    t.archivedLedgerSummary.entriesCount) (.invalidState <|
      "archive summary missing or inconsistent; " ++
      "restore/rebuild from verified archives before loading")
  ensure (t.archivedLedgerSummary.cards.entries.all fun e => validArchivedCard t e.1 e.2)
    (.invalidState "invalid archived card summary")
  ensure (t.archivedLedgerSummary.adjustments.entries.all fun e =>
    e.2.kind = .adjustment && e.2.invocationId = some e.1 && decide (e.2.cardId ∈ t.cards))
    (.invalidState "invalid archived idempotency entry")

-- What of the settlements in flight a loader accepts.
def validatePendings (t : Tables F) : Result Unit :=
  checkAll t.pendingSettlements.entries fun ⟨id, p⟩ => do
    let r ← ofOption (t.reservations.lookup id)
      (.invalidState "pending settlement missing reservation")
    ensure (validPending t id r p.entry) (.invalidState "invalid pending settlement")

def validateSnapshot (s : BillingSnapshot F) : Result Unit := do
  let t := s.tables
  Routing.validateSnapshotState t.complexityRouting
  t.runtimeSettings.settings.validate
  validateTemplateInvocationCapacity t.archivedLedgerSummary
  Template.validateSnapshotState t
  ensure (s.version ≠ 0 && t.cards.entries.length ≤ 10000000 && t.ledger.length ≤ 50000000 &&
    t.providers.entries.length ≤ 100000 && t.providerKeys.entries.length ≤ 1000000 &&
    t.consumedRefreshTokens.entries.length ≤ 10000000)
    (.invalidState "billing snapshot contains invalid or excessive state")
  validateConfiguration t
  validateArchive t
  validatePendings t
  checkAll t.cards.values (validateCard t)

end
end Billing
