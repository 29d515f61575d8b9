import Superkiro.Billing.System

namespace Billing.Commercial

open F64 Except Host

variable [F64 F] {t t' live : Tables F} {u : CommercialUpdate F} {now : Nat}

theorem publishSettings?_eq (h : publishSettings? t given now = .ok (t', repriced)) :
    ∃ s, t' = { t with settings := s } := by
  cases given
  case none =>
    cases h
    exact ⟨_, rfl⟩
  case some given =>
    simp only [publishSettings?, bind_eq_ok', pure_eq_ok] at h
    have ⟨_, _, h⟩ := h
    cases h
    exact ⟨_, rfl⟩

omit [F64 F] in
theorem publishRateCards_eq (h : publishRateCards t seen rs = .ok t') :
    ∃ rs, t' = { t with rateCards := rs } := by
  induction rs generalizing t seen
  case nil =>
    cases h
    exact ⟨_, rfl⟩
  case cons hi =>
    simp only [publishRateCards, bind_eq_ok', exists_unit] at h
    have ⟨_, h⟩ := hi h.right
    exact ⟨_, h⟩

theorem publishGroups_eq (h : publishGroups t seen gs = .ok t') :
    ∃ gs, t' = { t with groups := gs } := by
  induction gs generalizing t seen
  case nil =>
    cases h
    exact ⟨_, rfl⟩
  case cons hi =>
    simp only [publishGroups, bind_eq_ok', exists_unit] at h
    have ⟨_, h⟩ := hi h.right
    exact ⟨_, h⟩

-- A group is as it was or as it's published.
theorem mem_publishGroups (h : publishGroups t seen gs = .ok t')
    (hg : t'.groups.lookup k = some g) :
    t.groups.lookup k = some g ∨ positive g.marginMultiplier := by
  induction gs generalizing t seen
  case nil =>
    cases h
    exact .inl hg
  case cons new gs hi =>
    simp only [publishGroups, bind_eq_ok', exists_unit, ensure_eq_ok, Bool.and_eq_true,
      validGroup] at h
    have ⟨⟨⟨⟨⟨⟨⟨_, hp⟩, _⟩, _⟩, _⟩, _⟩, _⟩, h⟩ := h
    cases hi h
    case inr hp => exact .inr hp
    case inl hg =>
      cases AList.lookup_insert_iff.mp hg
      case inl h => exact .inr (h.right ▸ hp)
      case inr h => exact .inl h.right

theorem publishPlans_eq (h : publishPlans t added removed = .ok t') :
    ∃ ps, t' = { t with plans := ps } := by
  unfold publishPlans at h
  split at h
  case isTrue =>
    cases h
    exact ⟨_, rfl⟩
  case isFalse =>
    simp only [bind_eq_ok', exists_unit, pure_eq_ok] at h
    have ⟨_, _, _, _, _, h⟩ := h
    exact ⟨_, h.symm⟩

omit [F64 F] in
theorem mem_putModel {maps maps' : List (ModelMap F)} (h : putModel maps new = .ok maps')
    (hm : m ∈ maps') : m ∈ maps ∨ m = new := by
  have hs : (maps.span (·.id ≠ new.id)).1 ++ (maps.span (·.id ≠ new.id)).2 = maps := by
    rw [List.span_eq_takeWhile_dropWhile]
    exact List.takeWhile_append_dropWhile
  unfold putModel at h
  split at h
  case h_1 before old after he =>
    simp only [bind_eq_ok', exists_unit, pure_eq_ok] at h
    rw [he] at hs
    rw [← h.right] at hm
    rw [← hs]
    simp only [List.mem_append, List.mem_cons] at hm ⊢
    tauto
  case h_2 before he =>
    cases h
    rw [he] at hs
    rw [← hs]
    simpa using hm

-- A mapping is as it was or as it's published.
theorem mem_publishModels {maps maps' : List (ModelMap F)} (h : publishModels seen maps ms = .ok maps')
    (hm : m ∈ maps') : m ∈ maps ∨ positive m.creditMultiplier := by
  induction ms generalizing maps seen
  case nil =>
    cases h
    exact .inl hm
  case cons new ms hi =>
    simp only [publishModels, bind_eq_ok', exists_unit, ensure_eq_ok, Bool.and_eq_true,
      validModel] at h
    have ⟨_, ⟨hv, _⟩, maps₁, hput, h⟩ := h
    cases hi h
    case inr hp => exact .inr hp
    case inl hm =>
      cases mem_putModel hput hm
      case inl hm => exact .inl hm
      case inr he => exact .inr (he ▸ by simp_all)

omit [F64 F] in
theorem removeModels_subset {ids : List String} {maps maps' : List (ModelMap F)}
    (h : ids.foldlM removeModel maps = .ok maps') : maps' ⊆ maps := by
  refine foldlM_preserves (P := (· ⊆ maps)) (fun ms id ms' _ hs h => ?_) (List.Subset.refl _) h
  simp only [removeModel, bind_eq_ok', exists_unit, pure_eq_ok] at h
  exact h.right ▸ List.Subset.trans List.eraseP_subset hs

theorem publishCatalog_eq (h : publishCatalog t u = .ok t') :
    ∃ ms, t' = { t with modelMaps := ms } ∧
      ∀ m ∈ ms, m ∈ t.modelMaps ∨ positive m.creditMultiplier := by
  simp only [publishCatalog, bind_eq_ok', exists_unit, pure_eq_ok] at h
  have ⟨_, hp, _, hr, _, _, h⟩ := h
  exact ⟨_, h.symm, fun m hm => mem_publishModels hp (removeModels_subset hr hm)⟩

omit [F64 F] in
theorem cancelVersions_subset {ids : List String} {vs vs' : List (RateCardVersion F)}
    (h : ids.foldlM (cancelVersion now) vs = .ok vs') : vs' ⊆ vs := by
  refine foldlM_preserves (P := (· ⊆ vs)) (fun ws id ws' _ hs h => ?_) (List.Subset.refl _) h
  simp only [cancelVersion, bind_eq_ok', exists_unit, pure_eq_ok] at h
  exact h.right ▸ List.Subset.trans List.eraseP_subset hs

omit [F64 F] in
theorem startTime_margin {v w : RateCardVersion F} (h : startTime priced repriced now v = .ok w) :
    w.marginMultiplier = v.marginMultiplier := by
  unfold startTime at h
  split at h
  case isTrue =>
    simp only [bind_eq_ok', exists_unit, pure_eq_ok] at h
    rw [← h.right]
  case isFalse =>
    cases h
    rfl

theorem mem_addVersions {s s' : Versions F} {v : RateCardVersion F} {vs : List (RateCardVersion F)}
    (h : vs.foldlM (addVersion live t priced repriced reason now) s = .ok s') (hv : v ∈ s'.versions) :
    v ∈ s.versions ∨ positive v.marginMultiplier := by
  refine foldlM_preserves (P := fun s' => ∀ v ∈ s'.versions,
    v ∈ s.versions ∨ positive v.marginMultiplier) ?_ (fun _ hv => .inl hv) h v hv
  intro s₁ new s₂ _ hs ha v hv
  simp only [addVersion, bind_eq_ok', exists_unit, pure_eq_ok, ensure_eq_ok, validPrice,
    Bool.and_eq_true] at ha
  have ⟨hp, _, w, hw, _, ha⟩ := ha
  rw [← ha, List.mem_append, List.mem_singleton] at hv
  cases hv
  case inl hv => exact hs v hv
  case inr hv =>
    rw [hv, startTime_margin hw]
    exact .inr hp.left.left.left.right

-- What a publication makes of the price versions.
def Reprices (live : Tables F) (u : CommercialUpdate F) (now : Nat)
    (versions : List (RateCardVersion F)) : Prop :=
  ∃ t repriced cancelled s,
    u.cancelledVersions.foldlM (cancelVersion now) live.rateCardVersions = .ok cancelled ∧
    u.versions.foldlM (addVersion live t (cancelled.map fun v => (v.rateCardId, v.model)) repriced
      u.reason now) ⟨cancelled, live.rateCardAuditLogs⟩ = .ok s ∧
    versions = s.versions

-- What an accepted publication changes.
structure Published (live : Tables F) (u : CommercialUpdate F) (now : Nat) (t : Tables F) :
    Prop where
  configured : t = configured t live
  priced     : ∀ {id r}, live.reservations.lookup id = some r → ¬ isUnpriced live id r
  reprices   : Reprices live u now t.rateCardVersions
  groups     : ∀ {k g}, t.groups.lookup k = some g →
    live.groups.lookup k = some g ∨ positive g.marginMultiplier
  models     : ∀ m ∈ t.modelMaps, m ∈ live.modelMaps ∨ positive m.creditMultiplier
  versions   : ∀ v ∈ t.rateCardVersions, v ∈ live.rateCardVersions ∨ positive v.marginMultiplier
  limited    : lt maxCombinedMultiplier (combinedMultiplier t now) = false

variable [Host F]

theorem publish_cases (h : publishCommercialConfig live u now = .ok (.write t pub a)) :
    pub = configured t ∧ Published live u now t := by
  simp only [publishCommercialConfig, bind_eq_ok', exists_unit, pure_eq_ok, ensure_eq_ok] at h
  have ⟨_, _, _, hp, ⟨t₁, repriced⟩, h₁, t₂, h₂, t₃, h₃, t₄, h₄, t₅, h₅, t₆, h₆, hl, h⟩ := h
  have ⟨s, h₁⟩ := publishSettings?_eq h₁
  have ⟨rs, h₂⟩ := publishRateCards_eq h₂
  have hg := fun k g => mem_publishGroups (k := k) (g := g) h₃
  have ⟨gs, h₃⟩ := publishGroups_eq h₃
  have ⟨ps, h₄⟩ := publishPlans_eq h₄
  have ⟨ms, h₅, hm⟩ := publishCatalog_eq h₅
  subst h₁ h₂ h₃ h₄ h₅
  simp only [publishVersions, bind_eq_ok', exists_unit, pure_eq_ok, ensure_eq_ok] at h₆
  have ⟨cancelled, hc, added, ha, _, h₆⟩ := h₆
  subst h₆
  cases h
  refine ⟨rfl, rfl, ?_, ⟨_, _, cancelled, added, hc, ha, rfl⟩, hg _ _, hm, fun v hv => ?_, ?_⟩
  case refine_2 => exact (mem_addVersions ha hv).imp_left fun hv => cancelVersions_subset hc hv
  case refine_3 => exact (Bool.not_eq_true' _).mp hl
  intro id r hr
  have hp := List.any_eq_false.mp ((Bool.not_eq_true' _).mp hp)
  exact hp ⟨id, r⟩ (AList.mem_entries_iff.mpr hr)

end Billing.Commercial
