import Superkiro.Billing.RateCard

namespace Text

variable {sep : Char} {s t : String}

-- A text is split at the first separator.
theorem splitOnce_append (h : sep ∉ s.toList) :
    splitOnce sep (s ++ .ofList (sep :: t.toList)) = some (s, t) := by
  have hs : (s ++ .ofList (sep :: t.toList)).toList = s.toList ++ sep :: t.toList := by simp
  have hspan : (s.toList ++ sep :: t.toList).span (· != sep) = (s.toList, sep :: t.toList) := by
    have ht : s.toList.takeWhile (· != sep) = s.toList :=
      List.takeWhile_eq_self_iff.mpr fun c hc => bne_iff_ne.mpr fun he => h (he ▸ hc)
    have hd : s.toList.dropWhile (· != sep) = [] :=
      List.dropWhile_eq_nil_iff.mpr fun c hc => bne_iff_ne.mpr fun he => h (he ▸ hc)
    rw [List.span_eq_takeWhile_dropWhile, List.takeWhile_append, List.dropWhile_append, ht, hd]
    simp
  simp only [splitOnce, hs, hspan, String.ofList_toList]

end Text

namespace Billing

open F64 AList

namespace BillingSettings

section

variable {keep : String → Bool} {k : String}

-- A map answers for what was kept of it as before.
theorem lookup_kept (map : Option (Table String α)) (copy : α → α) (h : keep k = true) :
    (kept map keep copy).bind (·.lookup k) = (map.bind (·.lookup k)).map copy := by
  have hr : ((map.getD ∅).retain fun k _ => keep k).lookup k = map.bind (·.lookup k) := by
    ext v
    rw [lookup_retain, h]
    cases map <;> simp
  have hm : (((map.getD ∅).retain fun k _ => keep k).mapValues fun _ => copy).lookup k =
      (map.bind (·.lookup k)).map copy := by
    rw [lookup_mapValues, hr]
  rw [kept, ←hm]
  split
  case isFalse => rfl
  case isTrue hn =>
    rw [List.isEmpty_iff] at hn
    rw [Option.bind_none, lookup, hn]
    rfl

end

variable [F64 F] {s : BillingSettings F} {routes : List (String × String)}
  {model provider target : String} {t : UsageTokens}

-- Settings that keep what a route reads say that it costs the same.
theorem officialCost_forRoutes (hp : providerServes routes provider)
    (ht : targetServes routes model target)
    (hr : routeServes routes model (routeName provider target)) :
    (s.forRoutes routes model).officialCostMicroCny provider target t =
      s.officialCostMicroCny provider target t := by
  have hroute := lookup_kept s.routeCosts id hr
  have hprice := lookup_kept s.officialPrices (fun p => { p with note := none }) ht
  have hprovider := lookup_kept s.providerCostMultipliers id hp
  simp only [Option.map_id_fun, id_eq] at hroute hprovider
  simp only [officialCostMicroCny, forRoutes, officialUsdCny, hroute, hprice, hprovider,
    Option.map_map, Function.comp_def]

theorem routeServes_nil (h : '/' ∉ provider.toList) :
    routeServes [] model (routeName provider model) := by
  have hs : routeName provider model = provider ++ .ofList ('/' :: model.toList) := by
    simp [routeName, String.ext_iff]
  rw [routeServes, List.isEmpty_nil, if_pos rfl, hs, Text.splitOnce_append h]
  simp

variable (s) in
-- Locking the settings that routes read changes no cost of any of the routes. Without a route, it
-- changes no cost of the model that was asked for, whichever provider serves it.
theorem forRoutes_costs :
    (∀ routes model provider target t, (provider, target) ∈ routes →
      (s.forRoutes routes model).officialCostMicroCny provider target t =
        s.officialCostMicroCny provider target t) ∧
    (∀ (model provider : String) t, '/' ∉ provider.toList →
      (s.forRoutes [] model).officialCostMicroCny provider model t =
        s.officialCostMicroCny provider model t) := by
  constructor
  case left =>
    intro routes model provider target t h
    have hn : routes.isEmpty = false := by
      cases routes
      case nil => cases h
      case cons => rfl
    have hany (p : String × String → Bool) (hp : p (provider, target) = true) :
        routes.any p = true :=
      List.any_eq_true.mpr ⟨_, h, hp⟩
    apply officialCost_forRoutes
    · simpa [providerServes, hn] using ⟨target, h⟩
    · simpa [targetServes, hn] using ⟨provider, h⟩
    · rw [routeServes, hn, if_neg (by decide)]
      exact hany _ (by simp)
  case right =>
    intro model provider t h
    exact officialCost_forRoutes rfl (by simp [targetServes]) (routeServes_nil h)

-- Settings with a price for one model.
def onlyPriced : BillingSettings ℚ where
  creditFaceValueCny    := 1 / 100
  usdCnyRate            := 7
  defaultCostMultiplier := some 1
  officialPrices        := some (singleton "priced" ⟨⟨1, 1, 1, 1⟩, none, 0⟩)

theorem forRoutes_costs_onlyPriced :
    (onlyPriced.forRoutes [("provider", "priced")] "model").officialCostMicroCny "provider" "priced"
        { outputTokens := 1000 } =
      onlyPriced.officialCostMicroCny "provider" "priced" { outputTokens := 1000 } :=
  (forRoutes_costs onlyPriced).left _ _ _ _ _ (List.mem_singleton.mpr rfl)

-- Without a route, nothing is kept of other models.
theorem forRoutes_forgets_others :
    (onlyPriced.forRoutes [] "model").officialCostMicroCny "provider" "priced"
        { outputTokens := 1000 } ≠
      onlyPriced.officialCostMicroCny "provider" "priced" { outputTokens := 1000 } := by
  decide +kernel

end BillingSettings
end Billing
