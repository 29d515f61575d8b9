import Superkiro.Billing.Balance

namespace Billing

open F64 Except Host Template

namespace Tables

variable (t : Tables F)

-- Whether an invocation was used, for a request, a template or an adjustment.
def isKnownInvocation (id : String) : Bool :=
  (t.reservations.lookup id).any (·.state ≠ .released) || decide (id ∈ t.pendingSettlements) ||
  t.ledger.any (·.invocationId = some id) ||
  decide (id ∈ t.archivedLedgerSummary.usageInvocationIds) ||
  decide (id ∈ t.archivedLedgerSummary.adjustments)

-- Whether a receipt is for the same invocation, or for a call of the same conversation that isn't
-- forgotten yet.
def isSameCall (r : ResponseTemplateReceipt) (now : Nat) (s : ResponseTemplateReceipt) : Bool :=
  s.invocationId = r.invocationId || (s.cardId = r.cardId && s.conversationId = r.conversationId &&
    s.toolUseId = r.toolUseId && retained now s)

def agrees (r : ResponseTemplateReceipt) (modelId : String) (v : ResponseTemplateVariant) : Bool :=
  r.modelId = modelId && r.delivery = v.delivery && r.completion = v.completion &&
  variantContainsContent v r.filePath r.content && r.priceMicrocredits = v.priceMicrocredits

def checkTemplateCard (card : Card) (modelId : String) (price : I64) (now : Nat) :
    Result Unit := do
  liftCard (card.checkCanReserve price now)
  ensure (card.outstandingDebt ≤ 0) (invalid "card has outstanding debt")
  ensure (decide (card.groupId ∈ t.groups) && t.modelMaps.any fun m =>
    m.groupId = card.groupId && !m.retired && m.matchesModel modelId)
    (invalid "model is not allowed for the card group")

def templateEntry (r : ResponseTemplateReceipt) (revision ruleId modelId : String) (price : I64)
    (card : Card) (now : Nat) : LedgerEntry F where
  id                 := templateProvider ++ r.invocationId
  cardId             := card.id
  kind               := .usage
  invocationId       := some r.invocationId
  exposedModel       := modelId
  providerId         := templateProvider ++ ruleId
  targetModel        := modelId
  creditsCharged     := price
  rateCardVersion    := some revision
  tsSecs             := now
  reason             := some "fixed local response service"
  creditFaceValueCny := some t.settings.creditFaceValueCny
  detail             := some <| .obj [
    ("response_template_rule_id", .str ruleId), ("file_path", .str r.filePath),
    ("conversation_id", .str r.conversationId), ("tool_use_id", .str r.toolUseId)
  ]

def retainReceipts (now : Nat) : List ResponseTemplateReceipt :=
  t.responseTemplateReceipts.filter (retained now)

def withCharge (card : Card) (entry : LedgerEntry F) (receipts : List ResponseTemplateReceipt) :
    Tables F :=
  { t with
    cards                    := t.cards.insert card.id card
    ledger                   := t.ledger ++ [entry]
    responseTemplateReceipts := receipts }

def checkReceiptCapacity (cardId : String) (now : Nat) : Result Unit :=
  ensure ((t.retainReceipts now).length < maxReceipts &&
    (cardReceipts (t.retainReceipts now) cardId).length < maxReceiptsPerCard)
    receiptCapacityExhausted

end Tables

namespace Engine

variable [F64 F] [Host F] (e : Engine F) (io : Io)

-- Debits the price of a template's answer and issues the receipt for it.
def templateCharge (revision ruleId modelId : String) (r : ResponseTemplateReceipt) (now : Nat) :
    Result (Txn F (LedgerEntry F)) := do
  let t := e.tables
  validateReceipt r
  ensure (t.responseTemplates.revision = revision)
    (invalid "configuration changed; reload before charging")
  let v ← ofOption (findVariant t.responseTemplates.rules ruleId modelId)
    (invalid "enabled rule or exact model variant not found")
  ensure (!isEmptyVariant v) (invalid "empty template cannot be executed")
  ensure (Tables.agrees r modelId v) (invalid "receipt disagrees with the configured variant")
  ensure (!(t.isKnownInvocation r.invocationId ||
    t.responseTemplateReceipts.any (Tables.isSameCall r now))) (.duplicateInvocation r.invocationId)
  t.checkReceiptCapacity r.cardId now
  let card ← t.getCard r.cardId
  t.checkTemplateCard card modelId v.priceMicrocredits now
  checkConcurrency (e.activeCardConcurrency card.id (some r.invocationId)) card.maxConcurrency
  t.checkQuota card v.priceMicrocredits now
  let used ← ofOption (card.creditUsed.checkedAdd v.priceMicrocredits)
    (invalid "credit usage overflow")
  let card := { card with creditUsed := used }
  let r := { r with createdAtSecs := now }
  let entry := t.templateEntry r revision ruleId modelId v.priceMicrocredits card now
  let receipts := t.retainReceipts now ++ [r]
  validateReceiptBudget receipts
  return .write (t.withCharge card entry receipts) (·.withCharge card entry receipts) entry

def chargeResponseTemplate (revision ruleId modelId : String) (r : ResponseTemplateReceipt)
    (now : Nat) : Result (LedgerEntry F) × Engine F :=
  e.transact io (e.templateCharge revision ruleId modelId r now)

-- Replaces the rules. The revision chain prevents an update made against rules that changed since.
def publishTemplates (u : ResponseTemplateUpdate) (now : Nat) :
    Result (Txn F ResponseTemplateConfig) := do
  let t := e.tables
  validateResponseTemplateRules u.rules
  ensure (!u.rules.any fun r => r.enabled && r.variants.any (Text.isBlank ·.content))
    (invalid "enabled templates require nonempty HTML")
  ensure (Text.validId u.expectedRevision 128 && Text.validId u.reason 1024)
    (invalid "revision and reason are required and bounded")
  ensure (t.responseTemplates.revision = u.expectedRevision)
    (invalid "configuration changed; reload before publishing")
  let revision := "response-template:v1:" ++ templateDigest F u now
  let audit := t.responseTemplates.audit ++ [⟨u.expectedRevision, revision, u.reason, now⟩]
  let config : ResponseTemplateConfig := {
    revision := revision
    rules    := u.rules
    audit    := if audit.length > maxAudit then audit.tail else audit
  }
  return .write { t with responseTemplates := config }
    (fun live => { live with responseTemplates := config }) config

def publishResponseTemplates (u : ResponseTemplateUpdate) (now : Nat) :
    Result ResponseTemplateConfig × Engine F :=
  e.transact io (e.publishTemplates u now)

end Engine
end Billing
