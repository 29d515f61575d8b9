import Superkiro.Billing.Conservation

namespace Billing

open F64 Except Host Commercial

section

variable [F64 F] {t : Tables F}

-- The version in force is the last one to have come into force.
structure InForce (t : Tables F) (rateCardId model : String) (now : Nat) (v : RateCardVersion F) :
    Prop where
  mem    : v ∈ t.rateCardVersions
  card   : v.rateCardId = rateCardId
  priced : v.model = model
  begun  : v.effectiveFromSecs ≤ now
  latest : ∀ w ∈ t.rateCardVersions, w.rateCardId = rateCardId → w.model = model →
    w.effectiveFromSecs ≤ now → w.effectiveFromSecs ≤ v.effectiveFromSecs

omit [F64 F] in
theorem latest_inForce (h : t.latest rateCardId model now = some v) :
    InForce t rateCardId model now v := by
  have go (f : Option (RateCardVersion F) → RateCardVersion F → Option (RateCardVersion F))
      (hn : ∀ v, f none v = some v) (hs : ∀ b v, f (some b) v =
        if b.effectiveFromSecs ≤ v.effectiveFromSecs then some v else some b)
      (vs : List (RateCardVersion F)) (best : Option (RateCardVersion F))
      (h : vs.foldl f best = some v) :
      (v ∈ vs ∨ best = some v) ∧ (∀ w ∈ vs, w.effectiveFromSecs ≤ v.effectiveFromSecs) ∧
        ∀ b ∈ best, b.effectiveFromSecs ≤ v.effectiveFromSecs := by
    induction vs generalizing best
    case nil => simp_all
    case cons w vs hi =>
      obtain ⟨hm, hl, hb⟩ := hi _ h
      cases best
      case none =>
        rw [hn] at hm hb
        have hw : w.effectiveFromSecs ≤ v.effectiveFromSecs := hb w rfl
        refine ⟨.inl ?_, by simpa [hw] using hl, by simp⟩
        cases hm
        case inl hm => exact .tail _ hm
        case inr he => simp_all
      case some b =>
        rw [hs] at hm hb
        split at hm
        case isTrue hle =>
          rw [if_pos hle] at hb
          have hw : w.effectiveFromSecs ≤ v.effectiveFromSecs := hb w rfl
          refine ⟨.inl ?_, by simpa [hw] using hl, fun b' hb' => ?_⟩
          · cases hm
            case inl hm => exact .tail _ hm
            case inr he => simp_all
          · cases hb'
            exact hle.trans hw
        case isFalse hle =>
          rw [if_neg hle] at hb
          have hw : b.effectiveFromSecs ≤ v.effectiveFromSecs := hb b rfl
          refine ⟨hm.imp_left (.tail _), ?_, fun b' hb' => ?_⟩
          · intro w' hw'
            cases hw'
            case head => omega
            case tail hw' => exact hl w' hw'
          · cases hb'
            exact hw
  obtain ⟨hm, hl, _⟩ := go _ (fun _ => rfl) (fun _ _ => rfl) _ _ h
  have hm := hm.resolve_right (by rintro ⟨⟩)
  simp only [List.mem_filter, Bool.and_eq_true, decide_eq_true_eq] at hm hl
  exact ⟨hm.left, hm.right.left.left, hm.right.left.right, hm.right.right,
    fun w hw hc hm hb => hl w ⟨hw, ⟨hc, hm⟩, hb⟩⟩

omit [F64 F] in
theorem resolvePrice_inForce (h : t.resolvePrice rateCardId models now = some v) :
    ∃ model, InForce t rateCardId model now v := by
  unfold Tables.resolvePrice at h
  cases hf : (models.filter (· ≠ "*")).findSome? fun m => t.latest rateCardId m now
  case none =>
    rw [hf] at h
    exact ⟨_, latest_inForce h⟩
  case some w =>
    rw [hf] at h
    cases h
    have ⟨m, _, hm⟩ := List.exists_of_findSome?_eq_some hf
    exact ⟨m, latest_inForce hm⟩

-- What is in force some time is in force or scheduled before.
omit [F64 F] in
theorem InForce.isLive (h : InForce t rateCardId model now v) (hn : published ≤ now) :
    isLive t.rateCardVersions published v := by
  unfold Commercial.isLive
  by_cases hs : published < v.effectiveFromSecs
  case pos => simp [hs]
  case neg =>
    simp only [Bool.or_eq_true, Bool.not_eq_true', List.any_eq_false, Bool.and_eq_true,
      decide_eq_true_eq]
    refine .inr fun w hw ⟨⟨⟨hc, hm⟩, hl⟩, hb⟩ => ?_
    have := h.latest w hw (hc.trans h.card) (hm.trans h.priced) (hb.trans hn)
    omega

variable [Host F] {e e' e₁ : Engine F} {u : CommercialUpdate F} {c : Change F} {t' : Tables F}

-- Tables whose prices are those of others.
structure Tables.PricedAs (t₁ t : Tables F) : Prop where
  keyed    : t.Keyed
  versions : t.rateCardVersions = t₁.rateCardVersions
  groups   : t.groups = t₁.groups
  models   : t.modelMaps = t₁.modelMaps

-- Only publications change prices.
theorem Change.Step.pricedAs {t₁ : Tables F} (h : Step t c t') (hn : ∀ u now, c ≠ .publish u now)
    (hp : t₁.PricedAs t) : t₁.PricedAs t' := by
  have hk := h.keyed hp.keyed
  cases h
  case publish => exact absurd rfl (hn _ _)
  all_goals exact ⟨hk, hp.versions, hp.groups, hp.models⟩

omit [F64 F] [Host F] in
theorem Op.Makes.unpublished {op : Op F} (h : op.Makes t c)
    (hn : ∀ u now, op ≠ .publishCommercialConfig u now) : ∀ u now, c ≠ .publish u now := by
  intro u now he
  cases h
  case publish => exact hn _ _ rfl
  all_goals cases he

namespace Engine

theorem publish_published {answer : CommercialConfig F}
    (h : e.publishCommercialConfig io u now = (.ok answer, e₁)) :
    Published e.tables u now e₁.tables ∧ e.Persisted e₁ := by
  have hc : Commits e.tables _ (Commercial.publishCommercialConfig e.tables u now) :=
    publishCommercialConfig_commits
  cases transact_eq_ok hc.publishes h
  case inl h =>
    have h := h.left
    simp only [Commercial.publishCommercialConfig, bind_eq_ok', exists_unit, pure_eq_ok] at h
    obtain ⟨_, _, _, _, _, _, _, _, _, _, _, _, _, _, _, _, _, h⟩ := h
    cases h
  case inr h =>
    obtain ⟨t, pub, ht, hcom⟩ := h
    obtain ⟨_, hp⟩ := Commercial.publish_cases ht
    have he : e₁.tables = t := hcom.tables_eq (by rw [hp.configured]; rfl)
    exact ⟨he ▸ hp, hcom.persisted⟩

end Engine
end

section

open Engine

variable {t t' : Tables ℚ} {c : Change ℚ}

-- No margin or multiplier is negative.
structure Tables.Multiplies (t : Tables ℚ) : Prop where
  keyed    : t.Keyed
  versions : ∀ v ∈ t.rateCardVersions, 0 ≤ v.marginMultiplier
  groups   : ∀ {k g}, t.groups.lookup k = some g → 0 ≤ g.marginMultiplier
  models   : ∀ m ∈ t.modelMaps, 0 ≤ m.creditMultiplier

theorem nonneg_of_positive {n : ℚ} (h : positive n) : 0 ≤ n := by
  simp only [positive, Bool.and_eq_true, F64.lt, F64.lit, decide_eq_true_eq] at h
  exact h.left.right.le

theorem Change.Step.multiplies (h : Step t c t') (hm : t.Multiplies) : t'.Multiplies := by
  have hk := h.keyed hm.keyed
  cases h
  case publish h =>
    constructor
    case keyed => exact hk
    case versions =>
      exact fun v hv => (h.versions v hv).elim (hm.versions v) nonneg_of_positive
    case groups => exact fun hg => (h.groups hg).elim hm.groups nonneg_of_positive
    case models => exact fun m hx => (h.models m hx).elim (hm.models m) nonneg_of_positive
  all_goals exact ⟨hk, hm.versions, hm.groups, hm.models⟩

theorem le_foldl_fmax {xs : List ℚ} {x a : ℚ} (h : x ∈ xs ∨ x ≤ a) : x ≤ xs.foldl F64.fmax a := by
  induction xs generalizing a
  case nil => exact h.resolve_left (by simp)
  case cons y xs hi =>
    apply hi
    rw [List.mem_cons] at h
    rcases h with (h | h) | h
    case inl.inl => exact .inr (h ▸ le_max_right a y)
    case inl.inr => exact .inl h
    case inr => exact .inr (h.trans (le_max_left a y))

-- What a version in force or scheduled, a group and a mapping come to together is within the limit.
theorem product_le {v : RateCardVersion ℚ} {m : ModelMap ℚ} {card : Card} (hm : t.Multiplies)
    (hl : F64.lt maxCombinedMultiplier (combinedMultiplier t now) = false)
    (hv : v ∈ t.rateCardVersions) (hlive : isLive t.rateCardVersions now v) (hmap : m ∈ t.modelMaps) :
    v.marginMultiplier * t.marginOf card * m.creditMultiplier ≤ 100 := by
  have hgroup : 0 ≤ t.marginOf card ∧
      t.marginOf card ≤ (t.groups.values.map (·.marginMultiplier)).foldl F64.fmax (F64.lit 1) := by
    unfold Tables.marginOf
    cases hg : t.groups.lookup card.groupId
    case none => exact ⟨by simp [F64.lit], le_foldl_fmax (.inr (le_refl _))⟩
    case some g =>
      exact ⟨hm.groups hg, le_foldl_fmax (.inl (List.mem_map_of_mem (AList.mem_values.mpr ⟨_, hg⟩)))⟩
  have hversion : v.marginMultiplier ≤ ((t.rateCardVersions.filter
      (isLive t.rateCardVersions now)).map (·.marginMultiplier)).foldl F64.fmax (F64.lit 1) :=
    le_foldl_fmax (.inl (List.mem_map_of_mem (List.mem_filter.mpr ⟨hv, hlive⟩)))
  have hmodel : m.creditMultiplier ≤
      (t.modelMaps.map (·.creditMultiplier)).foldl F64.fmax (F64.lit 1) :=
    le_foldl_fmax (.inl (List.mem_map_of_mem hmap))
  have hlimit : combinedMultiplier t now ≤ 100 := not_lt.mp (of_decide_eq_false hl)
  calc v.marginMultiplier * t.marginOf card * m.creditMultiplier
    _ ≤ combinedMultiplier t now := by
      have hv₀ := (hm.versions v hv).trans hversion
      have hproduct := mul_le_mul hversion hgroup.right hgroup.left hv₀
      have hg₀ := hgroup.left.trans hgroup.right
      exact mul_le_mul hproduct hmodel (hm.models m hmap) (mul_nonneg hv₀ hg₀)
    _ ≤ 100 := hlimit

-- What a hold for a mapped model is priced at.
theorem newReservation_priced {e : Engine ℚ} {r : CreditReservation ℚ} {card : Card}
    {m : ModelMap ℚ} {id : String} (h : e.newReservation cardId id p now ttl = .ok (card, r))
    (hp : p.model = some model) (hm : e.tables.findModelMap card.groupId model = some m) :
    ∃ v locked, e.tables.resolvePrice (e.tables.rateCardOf card) (priceNames model (some m)) now = some v ∧
      r.rateCardVersion = some v.id ∧ r.pricing = some locked ∧
      locked.groupMargin = e.tables.marginOf card ∧ locked.modelMultiplier = m.creditMultiplier ∧
      r.reservedMicroCredits = surcharged (v.calculateReserveAmount p.estimatedInputTokens
        p.maxOutputTokens locked.groupMargin locked.modelMultiplier e.tables.settings)
        p.billingMultiplier := by
  simp only [newReservation, bind_eq_ok', exists_unit, pure_eq_ok] at h
  obtain ⟨_, _, _, _, _, _, q, hq, _, _, _, _, _, h⟩ := h
  cases h
  simp only [Tables.quote, hp, hm, bind_eq_ok', pure_eq_ok, ofOption_eq_ok] at hq
  obtain ⟨v, hv, hq⟩ := hq
  subst hq
  exact ⟨v, _, hv, rfl, rfl, rfl, rfl, rfl⟩

-- What the limit of a publication means for later requests.
structure Engine.Limited (e₁ : Engine ℚ) (published : Nat) (e : Engine ℚ) : Prop where
  checked : ∀ {card : Card} {models now v}, published ≤ now →
    e.tables.resolvePrice (e.tables.rateCardOf card) models now = some v →
    v ∈ e₁.tables.rateCardVersions.filter (isLive e₁.tables.rateCardVersions published)
  limited : ∀ {cardId id p now ttl r e' card model m}, published ≤ now →
    e.reserve cardId id p now ttl = (.ok r, e') → p.model = some model →
    e.tables.cards.lookup cardId = some card → e.tables.findModelMap card.groupId model = some m →
    ∃ v locked, e.tables.resolvePrice (e.tables.rateCardOf card) (priceNames model (some m)) now = some v ∧
      r.rateCardVersion = some v.id ∧ r.pricing = some locked ∧
      r.reservedMicroCredits = surcharged (v.calculateReserveAmount p.estimatedInputTokens
        p.maxOutputTokens locked.groupMargin locked.modelMultiplier e.tables.settings)
        p.billingMultiplier ∧
      v.marginMultiplier * locked.groupMargin * locked.modelMultiplier ≤ maxCombinedMultiplier

-- Until prices are published again, requests are priced at what the last publication checked, within
-- its limit.
theorem multipliers_limited {e₀ e e₁ e₂ : Engine ℚ} {ls ls' : List (Label ℚ)}
    {u : CommercialUpdate ℚ} {config : CommercialConfig ℚ}
    (hm₀ : e₀.Invariant Tables.Multiplies) (run : Run Step e₀ ls e)
    (hp : e.publishCommercialConfig io u now = (.ok config, e₁)) (run' : Run Step e₁ ls' e₂)
    (hn : ∀ l ∈ ls', ∀ u now, l.op ≠ .publishCommercialConfig u now)
    (hr : e.persistent ∨ ∀ l ∈ ls', l.op ≠ .reload) : e₁.Limited now e₂ := by
  have hm : e.Invariant Tables.Multiplies := hm₀.run (·.keyed) (fun h hs => hs.multiplies h) run
  obtain ⟨hpub, hdisk⟩ := publish_published hp
  have hstep : Change.Step e.tables (.publish u now) e₁.tables := .publish hpub
  have hm₁ : e₁.tables.Multiplies := hstep.multiplies hm.live
  have hper : e₁.persistent = e.persistent := by
    have : (e.exec io (.publishCommercialConfig u now)).persistent = e.persistent := exec_persistent
    rwa [exec, hp] at this
  have hp₁ : e₁.tables.PricedAs e₁.tables := ⟨hm₁.keyed, rfl, rfl, rfl⟩
  have hl : e₁.Lasting e₁.tables.PricedAs :=
    ⟨hp₁, fun hper' {s} hd => by rw [hdisk (hper ▸ hper') hd]; exact hp₁⟩
  have h₂ : e₁.tables.PricedAs e₂.tables :=
    (hl.run (·.keyed) (fun l hl => fun hmakes h hs => hs.pricedAs (hmakes.unpublished (hn l hl)) h)
      run' (hper ▸ hr)).live
  have checked {card : Card} {models at_ v} (ht : now ≤ at_)
      (hv : e₂.tables.resolvePrice (e₂.tables.rateCardOf card) models at_ = some v) :
      v ∈ e₁.tables.rateCardVersions ∧ isLive e₁.tables.rateCardVersions now v := by
    obtain ⟨_, hf⟩ := resolvePrice_inForce hv
    exact ⟨h₂.versions ▸ hf.mem, h₂.versions ▸ hf.isLive ht⟩
  constructor
  case checked => exact fun ht hv => List.mem_filter.mpr (checked ht hv)
  case limited =>
    intro cardId id p at_ ttl r e' card model m ht hres hmodel hcard hmap
    obtain ⟨card', hnew⟩ : ∃ card', e₂.newReservation cardId id p at_ ttl = .ok (card', r) := by
      unfold reserve at hres
      split at hres
      case h_1 => cases hres
      case h_2 h =>
        cases hres
        exact ⟨_, h⟩
    have hfound := (newReservation_eq_ok hnew).holdable.found
    rw [(newReservation_eq_ok hnew).owner, hcard, Option.some.injEq] at hfound
    subst hfound
    obtain ⟨v, locked, hv, hid, hlocked, hgroup, hmult, hamount⟩ := newReservation_priced hnew hmodel hmap
    refine ⟨v, locked, hv, hid, hlocked, hamount, ?_⟩
    obtain ⟨hmem, hlive⟩ := checked ht hv
    have hmargin : e₂.tables.marginOf card = e₁.tables.marginOf card := by
      rw [Tables.marginOf, h₂.groups, Tables.marginOf]
    have hmem' : m ∈ e₁.tables.modelMaps := h₂.models ▸ List.mem_of_find?_eq_some hmap
    rw [hgroup, hmult, hmargin]
    exact product_le hm₁ hpub.limited hmem hlive hmem'

-- An engine with an upstream and a group, before any model has a price.
def Engine.unpriced : Engine ℚ where
  tables := {
    settings     := .default
    cards        := (∅ : Table String Card).insert "card-1" .sample
    groups       := (∅ : Table String (Group ℚ)).insert "default" (.proPlus "default" "Default")
    rateCards    := (∅ : Table String RateCard).insert "default" ⟨"default", "Standard", 0⟩
    providers    := (∅ : Table String Provider).insert "relay" { id := "relay" }
    providerKeys := (∅ : Table String ProviderKey).insert "key" { id := "key", providerId := "relay" } }

-- A model at a price from now and another one later.
def CommercialUpdate.sample : CommercialUpdate ℚ where
  expectedRevision := Host.commercialDigest (view Engine.unpriced.tables)
  reason           := "first prices"
  models           := [{
    id := "map-1", groupId := "default", exposedModelId := "sonnet", targetProviderId := "relay",
    targetModel := "sonnet-4", creditMultiplier := 2 }]
  versions         := [version "v1" 10 3, version "v2" 100 40]
where
  version (id : String) (start : Nat) (margin : ℚ) : RateCardVersion ℚ := {
    id := id, rateCardId := "default", model := "sonnet", currency := .cny, pricingMode := .fixed
    pricePerM := ⟨0, 0, 0, 0⟩, fixedCreditPerM := ⟨1000, 1000, 1000, 1000⟩, perCallCredit := 0
    marginMultiplier := margin, effectiveFromSecs := start }

theorem unpriced_multiplies : Engine.unpriced.Invariant Tables.Multiplies where
  live  := {
    keyed    := ⟨fun k c h => by
      cases AList.lookup_insert_iff.mp h
      case inl h => rw [← h.right, h.left]; rfl
      case inr h => simp at h, fun _ _ h => by simp [Engine.unpriced] at h,
      fun _ _ h => by simp [Engine.unpriced] at h⟩
    versions := by simp [Engine.unpriced]
    groups h := by
      cases AList.lookup_insert_iff.mp h
      case inl h => rw [← h.right]; decide
      case inr h => simp at h
    models   := by simp [Engine.unpriced]
  }
  saved := nofun

-- A publication, and a request at the price that was scheduled.
theorem multipliers_limited_scheduled :
    let published := Engine.unpriced.publishCommercialConfig {} .sample 10
    let params := { ReservationEstimateParams.sample with model := some "sonnet" }
    published.1.isOk ∧
      ((published.2.reserve "card-1" "inv-1" params 200 60).1.toOption.bind (·.rateCardVersion)) =
        some "v2" ∧
      published.2.Limited 10 published.2 := by
  intro published params
  have hok : published.1.isOk := by decide +kernel
  refine ⟨hok, by decide +kernel, ?_⟩
  cases h : published with
  | mk answer e₁ =>
    cases answer
    case error => rw [h] at hok; cases hok
    case ok =>
      exact multipliers_limited unpriced_multiplies .nil h .nil (by simp) (.inr (by simp))

end

end Billing
