import Superkiro.Billing.Commit
import Superkiro.Billing.Lifecycle
import Superkiro.Billing.Records

namespace Billing

open F64 Except Host

-- What the operations do to the tables, each at most a few of these.
inductive Change (F : Type)
  | hold (card : Card) (r : CreditReservation F)
  | extend (id : String) (card : Card) (reserved : I64) (r : CreditReservation F)
  | pend (id : String) (p : PendingSettlement F)
  | debit (id : String) (r : CreditReservation F) (card : Card) (entry : LedgerEntry F)
  | release (id : String) (r : CreditReservation F)
  | clean (active : Table String Nat) (now : Nat)
  | post (turns : List Turn) (key : String) (card : Card) (entry : LedgerEntry F)
  | replace (turns : List Turn) (key : String) (card : Card)
  | consume (tokens : Table String Nat)
  | use (codes : Table String TopupCode)
  | charge (card : Card) (entry : LedgerEntry F) (r : ResponseTemplateReceipt)
  | archive (before : Nat) (receipt : ArchivedLedgerReceipt)
  | templates (config : ResponseTemplateConfig)
  | publish (u : CommercialUpdate F) (now : Nat)
  | recover (keys : Table String ProviderKey)

section

variable [F64 F] (t : Tables F)

-- When a hold can be taken.
structure Holdable (card : Card) (r : CreditReservation F) : Prop where
  found       : t.cards.lookup r.cardId = some card
  free        : ∀ {r'}, t.reservations.lookup r.invocationId = some r' →
    r'.state = .released ∧ r.invocationId ∉ t.pendingSettlements
  migrated    : t.archivedLedgerSummary.templateInvocationsComplete ∨ t.archivedLedgerReceipts = []
  notTemplate : r.invocationId ∉ t.archivedLedgerSummary.usageInvocationIds
  noPending   : ∀ {k p}, t.pendingSettlements.lookup k = some p → p.entry.cardId ≠ card.id
  held        : r.state = .held
  nonneg      : 0 ≤ r.reservedMicroCredits
  covered     : r.reservedMicroCredits ≤ card.availableCredits
  priced      : ∃ p, t.quote card p r.createdAtSecs =
    .ok ⟨r.reservedMicroCredits, r.rateCardVersion, r.pricing⟩

-- When a hold can be made larger.
structure Extendable (id : String) (card : Card) (reserved : I64) (r : CreditReservation F) :
    Prop where
  found     : t.cards.lookup r.cardId = some card
  noPending : ∀ {k p}, t.pendingSettlements.lookup k = some p → p.entry.cardId ≠ card.id
  grows     : ∃ old, t.reservations.lookup id = some old ∧ old.state = .held ∧
    r = { old with reservedMicroCredits := r.reservedMicroCredits } ∧
    old.reservedMicroCredits ≤ r.reservedMicroCredits ∧
    reserved.val = card.creditReserved.val +
      (r.reservedMicroCredits.satSub old.reservedMicroCredits).val

-- A bill that is due for an invocation: one in flight, or one just made.
def Due (id : String) (p : PendingSettlement F) : Prop :=
  t.pendingSettlements.lookup id = some p ∨
  (t.pendingSettlements.lookup id = none ∧ ∃ tokens exposed provider target now,
    t.priceSettlement id tokens exposed provider target now = .ok p)

-- When a bill can be debited.
structure Debitable (id : String) (r : CreditReservation F) (card : Card) (entry : LedgerEntry F) :
    Prop where
  due         : ∃ p, Due t id p ∧ entry = t.finalEntry id p
  reservation : t.reservations.lookup id = some r
  held        : r.state = .held
  invocation  : entry.invocationId = some id
  owner       : entry.cardId = r.cardId
  usage       : entry.kind = .usage
  charge      : 0 ≤ entry.creditsCharged
  cost        : 0 ≤ entry.providerCostMicroCny
  found       : t.cards.lookup r.cardId = some card

-- What a posted entry gives a card, and what it takes from it.
def LedgerEntry.given (e : LedgerEntry F) : I64 :=
  if e.kind = .topup ∨ (e.kind = .adjustment ∧ 0 ≤ e.creditsCharged) then e.creditsCharged else 0

def LedgerEntry.taken (e : LedgerEntry F) : I64 :=
  if e.kind = .adjustment ∧ e.creditsCharged < 0 then e.creditsCharged.satNeg else 0

-- A card whose status took some turns, under the same terms.
structure Card.Turned (turns : List Turn) (old card : Card) : Prop where
  terms     : card.terms = old.terms
  lifecycle : old.lifecycle.turns turns = some card.lifecycle

-- Such a card with the same balance.
structure Card.Kept (turns : List Turn) (old card : Card) : Prop
    extends Card.Turned turns old card where
  reserved : card.creditReserved = old.creditReserved
  total    : card.creditTotal = old.creditTotal
  used     : card.creditUsed = old.creditUsed

-- When a change of a card is posted with an entry: its balance changes by what the entry says, and its
-- holds and refresh tokens not at all.
structure Postable (turns : List Turn) (key : String) (card : Card) (entry : LedgerEntry F) :
    Prop where
  found    : ∃ old, t.cards.lookup key = some old ∧ card.id = old.id ∧
    card.creditReserved = old.creditReserved ∧
    card.creditTotal = old.creditTotal.satAdd entry.given ∧
    card.creditUsed = old.creditUsed.satAdd entry.taken ∧
    card.family = old.family ∧ Card.Turned turns old card
  owner    : entry.cardId = key
  notUsage : entry.kind ≠ .usage
  topup    : entry.kind = .topup →
    0 ≤ entry.creditsCharged ∨ ∃ k c, t.topupCodes.lookup k = some c ∧
      c.creditAmount = entry.creditsCharged
  covered  : 0 < entry.taken → ∀ {old}, t.cards.lookup key = some old →
    entry.taken ≤ old.availableCredits

-- When a card is replaced by one with the same balance.
structure Replaceable (turns : List Turn) (key : String) (card : Card) : Prop where
  found : ∃ old, t.cards.lookup key = some old ∧ Card.Kept turns old card

-- When a template's answer can be charged.
structure Chargeable [TemplateHost] (card : Card) (entry : LedgerEntry F)
    (r : ResponseTemplateReceipt) : Prop where
  valid       : Template.validateReceipt r = .ok ()
  found       : ∃ old, t.cards.lookup r.cardId = some old ∧
    card = { old with creditUsed := card.creditUsed } ∧
    card.creditUsed.val = old.creditUsed.val + entry.creditsCharged.val
  covered     : ∀ {old}, t.cards.lookup r.cardId = some old →
    entry.creditsCharged ≤ old.availableCredits
  unreserved  : ∀ {r'}, t.reservations.lookup r.invocationId = some r' → r'.state = .released
  notPending  : r.invocationId ∉ t.pendingSettlements
  unbilled    : ∀ e ∈ t.ledger, e.invocationId ≠ some r.invocationId
  notTemplate : r.invocationId ∉ t.archivedLedgerSummary.usageInvocationIds
  notAdjusted : r.invocationId ∉ t.archivedLedgerSummary.adjustments
  newReceipt  : ∀ s ∈ t.responseTemplateReceipts, s.invocationId ≠ r.invocationId ∧
    ¬ (s.cardId = r.cardId ∧ s.conversationId = r.conversationId ∧ s.toolUseId = r.toolUseId ∧
      Template.retained r.createdAtSecs s)
  noPending   : ∀ {k p}, t.pendingSettlements.lookup k = some p → p.entry.cardId ≠ card.id
  capacity    : (t.retainReceipts r.createdAtSecs).length < Template.maxReceipts
  budget      :
    Template.validateReceiptBudget (t.retainReceipts r.createdAtSecs ++ [r]) = .ok ()
  billed      : ∃ revision ruleId, entry =
    t.templateEntry r revision ruleId r.modelId r.priceMicrocredits card r.createdAtSecs

-- The tables after a charge, with the invocation remembered for good.
def Tables.charged (card : Card) (entry : LedgerEntry F) (r : ResponseTemplateReceipt) :
    Tables F :=
  (t.withCharge card entry (t.retainReceipts r.createdAtSecs ++ [r])).withTemplateIds
    (insert r.invocationId t.archivedLedgerSummary.usageInvocationIds)

end

-- How each change goes, and when it can happen.
inductive Change.Step [F64 F] [Host F] (t : Tables F) : Change F → Tables F → Prop
  | hold {card : Card} {r : CreditReservation F} :
    Holdable t card r → Step t (.hold card r) (t.holdWith card r)
  | extend {id : String} {card : Card} {reserved : I64} {r : CreditReservation F} :
    Extendable t id card reserved r →
    Step t (.extend id card reserved r) (t.extendWith id card reserved r)
  | pend {id : String} {p : PendingSettlement F} :
    t.pendingSettlements.lookup id = none →
    t.priceSettlement id tokens exposed provider target now = .ok p →
    Step t (.pend id p) (t.withPending id p)
  | debit {id : String} {r : CreditReservation F} {card : Card} {entry : LedgerEntry F} :
    Debitable t id r card entry →
    Step t (.debit id r card entry) (t.debit id r card entry)
  | release {id : String} {r : CreditReservation F} :
    id ∉ t.pendingSettlements → t.reservations.lookup id = some r → r.state = .held →
    Step t (.release id r) (t.releaseWith id r)
  | clean : Step t (.clean active now) ((t.reclaim active now).prune now)
  | post {card : Card} {entry : LedgerEntry F} :
    Postable t turns key card entry →
    Step t (.post turns key card entry) (t.withCard key card [entry])
  | replace {card : Card} :
    Replaceable t turns key card → Step t (.replace turns key card) (t.putCard key card)
  | consume {tokens : Table String Nat} : Step t (.consume tokens) (t.withTokens tokens)
  | use {codes : Table String TopupCode} :
    (∀ {k c'}, codes.lookup k = some c' →
      ∃ c, t.topupCodes.lookup k = some c ∧ c.creditAmount = c'.creditAmount ∧ c'.id = c.id ∧
        (c.isUsed → c' = c)) →
    Step t (.use codes) { t with topupCodes := codes }
  | charge {card : Card} {entry : LedgerEntry F} {r : ResponseTemplateReceipt} :
    Chargeable t card entry r →
    validateTemplateInvocationCapacity (t.charged card entry r).archivedLedgerSummary = .ok () →
    Step t (.charge card entry r) (t.charged card entry r)
  | archive {receipt : ArchivedLedgerReceipt} :
    t.archived before ≠ [] → receipt.drainedEntriesCount = (t.archived before).length →
    Step t (.archive before receipt) (t.withArchive before receipt)
  | templates {config : ResponseTemplateConfig} :
    Template.validateResponseTemplateRules config.rules = .ok () →
    Step t (.templates config) { t with responseTemplates := config }
  | publish {u : CommercialUpdate F} {t' : Tables F} :
    Commercial.Published t u now t' → Step t (.publish u now) t'
  | recover : Step t (.recover keys) { t.recovered with providerKeys := keys }

-- What is archived and what is kept is the whole ledger.
theorem Tables.archived_perm (t : Tables F) (before : Nat) :
    (t.archived before ++ t.kept before).Perm t.ledger := by
  have hk : t.kept before = t.ledger.filter fun e => !decide (e.tsSecs < before) := by
    refine List.filter_congr fun e _ => ?_
    rw [←decide_not]
    exact decide_eq_decide.mpr Nat.not_lt.symm
  rw [archived, hk]
  exact List.filter_append_perm _ _

theorem Card.Turned.id {old card : Card} (h : Card.Turned turns old card) : card.id = old.id :=
  congrArg CardTerms.id h.terms

theorem LedgerEntry.taken_nonneg (e : LedgerEntry F) : 0 ≤ e.taken.val := by
  unfold taken
  split
  case isTrue h =>
    have : e.creditsCharged.val < 0 := h.right
    simp only [I64.val_satNeg]
    omega
  case isFalse => simp

theorem validateReceipt_price [TemplateHost] {r : ResponseTemplateReceipt}
    (h : Template.validateReceipt r = .ok ()) : 0 ≤ r.priceMicrocredits.val := by
  simp only [Template.validateReceipt, bind_eq_ok', exists_unit, ensure_eq_ok,
    Template.validReceipt, Bool.and_eq_true, decide_eq_true_eq] at h
  exact h.right.right.left.right

section

variable [TemplateHost] {t : Tables F} {card : Card} {entry : LedgerEntry F}
variable {r : ResponseTemplateReceipt}

theorem Chargeable.nonneg (h : Chargeable t card entry r) : 0 ≤ entry.creditsCharged.val := by
  have ⟨_, _, he⟩ := h.billed
  rw [he]
  exact validateReceipt_price h.valid

end

namespace Change

variable [F64 F] [Host F] {t t' : Tables F} {c : Change F}

-- A few changes in a row.
abbrev Steps : Tables F → List (Change F) → Tables F → Prop := Run Change.Step

-- Changes keep entries under the ids of what they are about.
theorem Step.keyed (hk : t.Keyed) (h : Step t c t') : t'.Keyed := by
  cases h
  case hold h =>
    have hc := hk.cards h.found
    exact ⟨hk.cards.insert hc, hk.reservations.insert rfl, hk.topupCodes⟩
  case extend h =>
    have ⟨old, ho, _, hr, _⟩ := h.grows
    have hi := hk.reservations ho
    rw [hr]
    exact ⟨hk.cards.insert rfl, hk.reservations.insert hi, hk.topupCodes⟩
  case pend => exact ⟨hk.cards, hk.reservations, hk.topupCodes⟩
  case debit h =>
    have hc := (hk.cards h.found).trans h.owner.symm
    have hr := hk.reservations h.reservation
    exact ⟨hk.cards.insert hc, hk.reservations.insert hr, hk.topupCodes⟩
  case release h _ =>
    have hr := hk.reservations h
    exact ⟨hk.cards.update fun _ => rfl, hk.reservations.insert hr, hk.topupCodes⟩
  case clean active now =>
    have hr : (t.reclaim active now).Keyed := Tables.reclaim_keyed hk
    exact ⟨hr.cards, fun _ _ h => hr.reservations ((Tables.lookup_prune hr).mp h).left,
      hk.topupCodes⟩
  case post h =>
    have ⟨old, ho, hi, _⟩ := h.found
    exact ⟨hk.cards.insert (hi.trans (hk.cards ho)), hk.reservations, hk.topupCodes⟩
  case replace h =>
    have ⟨old, ho, h⟩ := h.found
    exact ⟨hk.cards.insert (h.toTurned.id.trans (hk.cards ho)), hk.reservations, hk.topupCodes⟩
  case consume => exact ⟨hk.cards, hk.reservations, hk.topupCodes⟩
  case use h =>
    refine ⟨hk.cards, hk.reservations, ?_⟩
    intro k c hc
    have ⟨old, ho, _, hi, _⟩ := h hc
    rw [hi]
    exact hk.topupCodes ho
  case charge => exact ⟨hk.cards.insert rfl, hk.reservations, hk.topupCodes⟩
  case archive => exact ⟨hk.cards, hk.reservations, hk.topupCodes⟩
  case templates => exact ⟨hk.cards, hk.reservations, hk.topupCodes⟩
  case publish h =>
    rw [h.configured]
    exact ⟨hk.cards, hk.reservations, hk.topupCodes⟩
  case recover =>
    refine ⟨hk.cards.mapValues fun _ _ => rfl, ?_, hk.topupCodes⟩
    intro k r h
    cases Tables.lookup_recovered_cases h
    case inl h => exact hk.reservations h.left
    case inr h =>
      have ⟨_, _, _, _, hr⟩ := h
      rw [hr]
      rfl

end Change
end Billing
