import Superkiro.Billing.RateCard

namespace F64

theorem val_ceilNonnegativeToI64 (x : ℚ) :
    (ceilNonnegativeToI64 x).val = max 0 (min 9223372036854775807 ⌈x⌉) := by
  have hm : (i64Max : ℚ) = 9223372036854775807 := rfl
  simp only [ceilNonnegativeToI64, isFinite, le, lit, toI64, ceil, hm, Bool.not_true, Bool.false_or,
    decide_eq_true_eq]
  split
  case isTrue h =>
    have : ⌈x⌉ ≤ 0 := Int.ceil_le.mpr (by exact_mod_cast h)
    rw [I64.val_zero]
    omega
  case isFalse h =>
    have hp : 0 < ⌈x⌉ := Int.ceil_pos.mpr (lt_of_not_ge h)
    split
    case isTrue hm =>
      have : (9223372036854775807 : ℤ) ≤ ⌈x⌉ := by exact_mod_cast hm.trans (Int.le_ceil x)
      rw [I64.val_maxValue]
      omega
    case isFalse hm =>
      have : ⌈x⌉ ≤ 9223372036854775807 := Int.ceil_le.mpr (by exact_mod_cast (lt_of_not_ge hm).le)
      have hc : (0 : ℚ) ≤ (⌈x⌉ : ℤ) := by exact_mod_cast hp.le
      rw [if_pos hc, Int.floor_intCast, I64.val_sat]
      omega

-- What an amount is rounded to doesn't shrink as it grows.
theorem ceilNonnegativeToI64_mono {x y : ℚ} (h : x ≤ y) :
    ceilNonnegativeToI64 x ≤ ceilNonnegativeToI64 y := by
  have := Int.ceil_mono h
  rw [I64.le_def, val_ceilNonnegativeToI64, val_ceilNonnegativeToI64]
  omega

end F64

namespace Billing

open F64

namespace RateCardVersion

-- Whether no price of a version and no multiplier of it is negative.
structure Nonnegative (v : RateCardVersion ℚ) : Prop where
  prices : ∀ p ∈ v.pricePerM.toList, 0 ≤ p
  fixed  : ∀ c ∈ v.fixedCreditPerM.toList, 0 ≤ c
  margin : 0 ≤ v.marginMultiplier

theorem perMillion_eq (n : Nat) (rate : ℚ) : perMillion n rate = n * rate / 1000000 := by
  have h : perMillion n rate = ((n : ℤ) : ℚ) * rate / 1000000 := rfl
  rw [h, Int.cast_natCast]

variable {input output cacheCreation cacheRead : ℚ} {t : UsageTokens} {estimated maxOutput : Nat}

-- Whichever classes input is split into, it costs no more than at the most expensive of them.
theorem tokenCost_le_worst
    (hn : ∀ p ∈ [input, output, cacheCreation, cacheRead], 0 ≤ p)
    (hi : t.uncachedInputTokens + t.cacheCreationTokens + t.cacheReadTokens ≤ estimated)
    (ho : t.outputTokens ≤ maxOutput) :
    tokenCost t input output cacheCreation cacheRead ≤
      perMillion estimated (max (max input cacheCreation) cacheRead) +
        perMillion maxOutput output := by
  simp only [List.forall_mem_cons] at hn
  have ⟨hinput, houtput, hcreation, hread, _⟩ := hn
  have hi : (t.uncachedInputTokens + t.cacheCreationTokens + t.cacheReadTokens : ℚ) ≤
      estimated := by
    exact_mod_cast hi
  have ho : (t.outputTokens : ℚ) ≤ maxOutput := by exact_mod_cast ho
  have hu : input ≤ max (max input cacheCreation) cacheRead := by simp
  have hc : cacheCreation ≤ max (max input cacheCreation) cacheRead := by simp
  have hr : cacheRead ≤ max (max input cacheCreation) cacheRead := by simp
  generalize max (max input cacheCreation) cacheRead = worst at *
  have hw : 0 ≤ worst := hinput.trans hu
  have hinputs : t.uncachedInputTokens * input + t.cacheCreationTokens * cacheCreation +
      t.cacheReadTokens * cacheRead ≤ estimated * worst := by
    calc
      _ ≤ t.uncachedInputTokens * worst + t.cacheCreationTokens * worst +
          t.cacheReadTokens * worst := by gcongr
      _ = (t.uncachedInputTokens + t.cacheCreationTokens + t.cacheReadTokens) * worst := by ring
      _ ≤ estimated * worst := by gcongr
  have houtputs : t.outputTokens * output ≤ maxOutput * output := by gcongr
  have hcost : tokenCost t input output cacheCreation cacheRead =
      perMillion t.uncachedInputTokens input + perMillion t.outputTokens output +
        perMillion t.cacheCreationTokens cacheCreation + perMillion t.cacheReadTokens cacheRead :=
    rfl
  rw [hcost]
  simp only [perMillion_eq]
  linarith

theorem tokenCost_nonneg (hn : ∀ p ∈ [input, output, cacheCreation, cacheRead], 0 ≤ p) :
    0 ≤ tokenCost t input output cacheCreation cacheRead := by
  simp only [List.forall_mem_cons] at hn
  have ⟨hinput, houtput, hcreation, hread, _⟩ := hn
  have hcost : tokenCost t input output cacheCreation cacheRead =
      perMillion t.uncachedInputTokens input + perMillion t.outputTokens output +
        perMillion t.cacheCreationTokens cacheCreation + perMillion t.cacheReadTokens cacheRead :=
    rfl
  rw [hcost]
  simp only [perMillion_eq]
  positivity

theorem val_maxI64 (a b : I64) : (maxI64 a b).val = max a.val b.val := by
  simp only [maxI64, I64.le_def]
  split <;> omega

variable {v : RateCardVersion ℚ} {s : BillingSettings ℚ} {groupMargin modelMultiplier x y : ℚ}

theorem faceValue_pos : 0 < faceValue s := by
  simp only [faceValue]
  split
  case isTrue h => exact of_decide_eq_true h
  case isFalse => exact (by norm_num : (0 : ℚ) < 1 / 100)

-- A greater amount in the version's currency is rounded to no less, whatever the exchange rate is.
-- One that's negative makes amounts negative, which are worth nothing.
theorem ceil_toCny_mono {m : ℚ} (hx : 0 ≤ x) (hxy : x ≤ y) (hm : 0 ≤ m) :
    ceilNonnegativeToI64 (v.toCny s x * m / faceValue s * ofInt microCreditsPerCredit) ≤
      ceilNonnegativeToI64 (v.toCny s y * m / faceValue s * ofInt microCreditsPerCredit) := by
  have hf := faceValue_pos (s := s)
  have hc : (ofInt microCreditsPerCredit : ℚ) = 1000000 := rfl
  have hs {a b : ℚ} (h : a ≤ b) :
      a * m / faceValue s * 1000000 ≤ b * m / faceValue s * 1000000 := by
    gcongr
  rw [hc]
  unfold toCny
  cases v.currency
  case cny => exact ceilNonnegativeToI64_mono (hs hxy)
  case usd =>
    by_cases hr : 0 ≤ s.usdCnyRate
    case pos => exact ceilNonnegativeToI64_mono (hs (mul_le_mul_of_nonneg_right hxy hr))
    case neg =>
      have hz : x * s.usdCnyRate ≤ 0 := mul_nonpos_of_nonneg_of_nonpos hx (le_of_not_ge hr)
      have hz' : x * s.usdCnyRate * m / faceValue s * 1000000 ≤ 0 := by
        have := hs hz
        simpa using this
      have hl := Int.ceil_le.mpr (by exact_mod_cast hz' : _ ≤ ((0 : ℤ) : ℚ))
      have hv := val_ceilNonnegativeToI64 (x * s.usdCnyRate * m / faceValue s * 1000000)
      rw [max_eq_left (by omega)] at hv
      rw [I64.le_def]
      exact hv.trans_le (ceilNonnegativeToI64_nonneg _)

-- What a reservation holds covers what's charged for it, in every pricing mode.
theorem calculateCharge_le_reserve (hv : v.Nonnegative) (hg : 0 ≤ groupMargin)
    (hm : 0 ≤ modelMultiplier)
    (hi : t.uncachedInputTokens + t.cacheCreationTokens + t.cacheReadTokens ≤ estimated)
    (ho : t.outputTokens ≤ maxOutput) :
    v.calculateCharge t groupMargin modelMultiplier s ≤
      v.calculateReserveAmount estimated maxOutput groupMargin modelMultiplier s := by
  have hmul : 0 ≤ v.marginMultiplier * groupMargin * modelMultiplier :=
    mul_nonneg (mul_nonneg hv.margin hg) hm
  unfold calculateCharge calculateReserveAmount
  cases v.pricingMode
  case costPlus =>
    exact ceil_toCny_mono (tokenCost_nonneg hv.prices) (tokenCost_le_worst hv.prices hi ho) hmul
  case fixed =>
    have hf : ∀ c ∈ (v.fixedCreditPerM.map fun c => (c.val : ℚ)).toList, 0 ≤ c := by
      intro x hx
      have ⟨c, hc, hx⟩ : ∃ c ∈ v.fixedCreditPerM.toList, (c.val : ℚ) = x := by
        simpa [Prices.toList, Prices.map, eq_comm] using hx
      have : 0 ≤ c.val := hv.fixed c hc
      exact hx ▸ Int.cast_nonneg this
    have h := tokenCost_le_worst hf hi ho
    have hw (a b c : I64) :
        max (max (a.val : ℚ) b.val) c.val = ((maxI64 (maxI64 a b) c).val : ℚ) := by
      rw [val_maxI64, val_maxI64, Int.cast_max, Int.cast_max]
    simp only [Prices.map, hw] at h
    exact ceilNonnegativeToI64_mono (mul_le_mul_of_nonneg_right h hmul)
  case perCall => exact Int.le_refl _

-- A version whose input is cheapest uncached.
def cacheHeavy : RateCardVersion ℚ where
  id                := "v1"
  rateCardId        := "default"
  model             := "model"
  currency          := .usd
  pricingMode       := .costPlus
  pricePerM         := ⟨1, 2, 5, 1⟩
  fixedCreditPerM   := ⟨0, 0, 0, 0⟩
  perCallCredit     := 0
  marginMultiplier  := 1
  effectiveFromSecs := 0

theorem cacheHeavy_covered :
    cacheHeavy.calculateCharge { cacheCreationTokens := 1000, outputTokens := 10 } 1 1 .default ≤
      cacheHeavy.calculateReserveAmount 1000 10 1 1 .default :=
  calculateCharge_le_reserve ⟨by decide, by decide, by decide⟩ (by decide) (by decide) (by decide)
    (by decide)

end RateCardVersion
end Billing
