import Superkiro.Billing.TemplateCharge

namespace Billing

open F64 Except Host Template

namespace Engine

variable [F64 F] [Host F] (e : Engine F)

-- Whether an invocation is in flight for a request or a template.
def isInFlight (cardId id : String) : Bool :=
  decide ((cardId, id) ∈ e.templateWaits) ||
  (e.tables.reservations.lookup id).any (·.state ≠ .released) ||
  decide (id ∈ e.tables.pendingSettlements)

-- Takes an execution slot of a card for a template's delay, without holding credit.
def beginResponseTemplateWait (revision ruleId modelId cardId id : String) (now : Nat) :
    Result Unit × Engine F :=
  let admission : Result Unit := do
    let t := e.tables
    ensure (t.responseTemplates.revision = revision)
      (invalid "configuration changed; reload before waiting")
    let v ← ofOption (findVariant t.responseTemplates.rules ruleId modelId)
      (invalid "enabled rule or exact model variant not found")
    ensure (!isEmptyVariant v) (invalid "empty template cannot be executed")
    let card ← t.getCard cardId
    t.checkTemplateCard card modelId v.priceMicrocredits now
    ensure (!e.isInFlight cardId id) (.duplicateInvocation id)
    checkConcurrency (e.activeCardConcurrency cardId none) card.maxConcurrency
    t.checkQuota card v.priceMicrocredits now
  match admission with
  | .ok _      => (.ok (), { e with templateWaits := insert (cardId, id) e.templateWaits })
  | .error err => (.error err, e)

-- The slot is released when the wait ends, also when it is cancelled.
def dropWaitSlot (cardId id : String) : Engine F :=
  { e with templateWaits := e.templateWaits.erase (cardId, id) }

end Engine
end Billing
