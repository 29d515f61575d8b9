import Superkiro.Billing.Commit

namespace Billing

open F64 Except

variable [F64 F] {t : Tables F} {id : String} {card : Card} {r : CreditReservation F}

theorem calculateCostMicroCny_nonneg (v : RateCardVersion F) (tokens : UsageTokens)
    (s : BillingSettings F) : 0 ≤ (v.calculateCostMicroCny tokens s).val :=
  ceilNonnegativeToI64_nonneg _

theorem officialCostMicroCny_nonneg {s : BillingSettings F} {cost : I64}
    (h : s.officialCostMicroCny provider target tokens = some cost) : 0 ≤ cost.val := by
  simp only [BillingSettings.officialCostMicroCny, Option.bind_eq_bind, Option.bind_eq_some_iff,
    Option.pure_def, Option.some.injEq] at h
  have ⟨_, _, _, _, h⟩ := h
  rw [←h]
  exact ceilNonnegativeToI64_nonneg _

-- What a request costs is never negative, wherever its cost is taken from.
theorem costOf_nonneg {map : Option (ModelMap F)} {version : Option (RateCardVersion F)}
    {p : SettlePricing F} :
    0 ≤ (t.costOf card map version p createdAt tokens provider target).1.val := by
  simp only [Tables.costOf]
  split
  case h_1 h => exact officialCostMicroCny_nonneg h
  case h_2 =>
    split
    case h_1 => exact calculateCostMicroCny_nonneg ..
    case h_2 =>
      cases version
      case none => exact ceilNonnegativeToI64_nonneg _
      case some => exact calculateCostMicroCny_nonneg ..

-- How a bill comes about.
structure Bill (t : Tables F) (id : String) (r : CreditReservation F) (card : Card)
    (p : PendingSettlement F) : Prop where
  reservation : t.reservations.lookup id = some r
  held        : r.state = .held
  found       : t.cards.lookup r.cardId = some card
  owner       : p.entry.cardId = card.id
  invocation  : p.entry.invocationId = some id
  usage       : p.entry.kind = .usage
  charge      : 0 ≤ p.entry.creditsCharged.val
  bounded     : p.entry.creditsCharged.val ≤ maxSettlementMicroCredits.val
  cost        : 0 ≤ p.entry.providerCostMicroCny.val

theorem priceSettlement_cases {p : PendingSettlement F}
    (h : t.priceSettlement id tokens exposed provider target now = .ok p) :
    ∃ r card, Bill t id r card p := by
  simp only [Tables.priceSettlement, Tables.settlementEntry, bind_eq_ok', exists_unit,
    pure_eq_ok, ensure_eq_ok, ofOption_eq_ok, decide_eq_true_eq] at h
  have ⟨r, hr, hs, hl, card, hc, entry, ⟨hn, he⟩, h⟩ := h
  subst h he
  have hn : 0 ≤ (t.chargeOf _ _ _ _).val := hn
  have hh : r.state = .held := by cases h : r.state <;> simp_all
  refine ⟨r, card, hr, hh, hc, rfl, rfl, rfl, ?_, ?_, costOf_nonneg⟩
  · simp only [I64.val_minOf]
    have : (0 : Int) ≤ maxSettlementMicroCredits.val := by decide
    omega
  · simp only [I64.val_minOf]
    omega

end Billing
