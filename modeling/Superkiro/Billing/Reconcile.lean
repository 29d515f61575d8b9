import Superkiro.Billing.Exec

namespace Billing

open F64 Except Host AList

-- What entries of some kind come to, in the live ledger and in what was archived of it.
structure Quantity (F : Type) where
  entry    : LedgerEntry F → Option I64
  archived : ArchivedCardSummary → I64
  included : ∀ c e, archived (c.includeEntry e) = .satSum (archived c) (entry e).toList

namespace Quantity

def topups : Quantity F where
  entry    := LedgerEntry.topup?
  archived := (·.topups)
  included c e := by
    simp only [ArchivedCardSummary.includeEntry, LedgerEntry.topup?]
    cases e.kind
    case adjustment => dsimp only; split <;> simp
    all_goals simp

def usage : Quantity F where
  entry    := LedgerEntry.usage?
  archived := (·.usage)
  included c e := by
    simp only [ArchivedCardSummary.includeEntry, LedgerEntry.usage?]
    cases e.kind
    case adjustment => dsimp only; split <;> simp
    all_goals simp

-- An adjustment of nothing is archived as a positive one.
def positiveAdjustments : Quantity F where
  entry    := LedgerEntry.positiveAdjustment?
  archived := (·.positiveAdjustments)
  included c e := by
    simp only [ArchivedCardSummary.includeEntry, LedgerEntry.positiveAdjustment?]
    cases e.kind
    case adjustment =>
      by_cases h : 0 < e.creditsCharged
      case pos => simp [h, I64.le_of_lt h]
      case neg =>
        by_cases h' : 0 ≤ e.creditsCharged
        case pos => simp [I64.eq_of_not_lt h' h, I64.lt_def, I64.le_def]
        case neg => simp [h, h']
    all_goals simp

def negativeAdjustments : Quantity F where
  entry    := LedgerEntry.negativeAdjustment?
  archived := (·.negativeAdjustments)
  included c e := by
    simp only [ArchivedCardSummary.includeEntry, LedgerEntry.negativeAdjustment?]
    cases e.kind
    case adjustment => by_cases h : 0 ≤ e.creditsCharged <;> simp [h, ←I64.not_le]
    all_goals simp

end Quantity

-- Whether cards are worth the same and have used the same.
def SameBalances (cards cards' : Table String Card) : Prop :=
  ∀ ⦃k c⦄, cards.lookup k = some c → ∃ c', cards'.lookup k = some c' ∧
    c'.creditTotal = c.creditTotal ∧ c'.creditUsed = c.creditUsed

section

variable {cards : Table String Card} {card old : Card}

theorem SameBalances.refl : SameBalances cards cards := fun _ _ h => ⟨_, h, rfl, rfl⟩

theorem SameBalances.insert (hf : cards.lookup k = some old)
    (ht : card.creditTotal = old.creditTotal) (hu : card.creditUsed = old.creditUsed) :
    SameBalances cards (cards.insert k card) := by
  intro k' c hc
  by_cases he : k' = k
  case pos =>
    subst he
    rw [hf, Option.some.injEq] at hc
    exact ⟨card, lookup_insert _, hc ▸ ht, hc ▸ hu⟩
  case neg => exact ⟨c, (lookup_insert_ne he).trans hc, rfl, rfl⟩

theorem SameBalances.update {g : Card → Card} (ht : ∀ c, (g c).creditTotal = c.creditTotal)
    (hu : ∀ c, (g c).creditUsed = c.creditUsed) : SameBalances cards (cards.update k g) := by
  intro k' c hc
  by_cases he : k' = k
  case pos =>
    subst he
    exact ⟨g c, by simp [lookup_update, hc], ht c, hu c⟩
  case neg => exact ⟨c, by simp [lookup_update, he, hc], rfl, rfl⟩

theorem SameBalances.mapValues {g : String → Card → Card}
    (ht : ∀ k c, (g k c).creditTotal = c.creditTotal)
    (hu : ∀ k c, (g k c).creditUsed = c.creditUsed) : SameBalances cards (cards.mapValues g) :=
  fun k c hc => ⟨g k c, by simp [lookup_mapValues, hc], ht k c, hu k c⟩

theorem SameBalances.reclaim {t : Tables F} :
    SameBalances t.cards (t.reclaim active now).cards := by
  intro k c hc
  have hm : k ∈ (t.reclaim active now).cards := (mem_foldl_update _).mpr (mem_of_lookup hc)
  have ⟨c', hc'⟩ := mem_iff_lookup.mp hm
  have ⟨old, ho, he⟩ := Tables.lookup_reclaim_cards hc'
  rw [hc, Option.some.injEq] at ho
  subst ho
  exact ⟨c', hc', by rw [he], by rw [he]⟩

end

namespace Tables

variable {t t' : Tables F} {q : Quantity F} {k : String} {e : LedgerEntry F}

def sum (t : Tables F) (q : Quantity F) (k : String) : I64 :=
  t.addUp k q.entry (q.archived (t.archivedLedgerSummary.card k))

-- Whether nothing of a quantity is negative, so that the order of adding up doesn't matter.
structure Summed (t : Tables F) (q : Quantity F) : Prop where
  entries  : ∀ e ∈ t.ledger, ∀ x ∈ q.entry e, 0 ≤ x.val
  archived : ∀ k, 0 ≤ (q.archived (t.archivedLedgerSummary.card k)).val

theorem sum_nonneg (h : t.Summed q) : 0 ≤ (t.sum q k).val := by
  refine I64.satSum_nonneg (h.archived k) fun x hx => ?_
  have ⟨e, he, hx⟩ := List.mem_filterMap.mp hx
  exact h.entries e (List.mem_filter.mp he).left x hx

-- An entry adds what it is to what its card's entries come to.
theorem sum_concat (hl : t'.ledger = t.ledger ++ [e])
    (ha : t'.archivedLedgerSummary.cards = t.archivedLedgerSummary.cards) :
    t'.sum q k = if e.cardId = k then .satSum (t.sum q k) (q.entry e).toList else t.sum q k := by
  have hc : t'.archivedLedgerSummary.card k = t.archivedLedgerSummary.card k := by
    simp [ArchivedLedgerSummary.card, ha]
  simp only [sum, addUp, hl, hc, List.filter_append, List.filterMap_append, I64.satSum_append]
  by_cases h : e.cardId = k
  case pos => cases hq : q.entry e <;> simp [h, hq]
  case neg => simp [h]

theorem foldl_includeEntry_card (es : List (LedgerEntry F)) (s : ArchivedLedgerSummary F) :
    q.archived ((es.foldl ArchivedLedgerSummary.includeEntry s).card k) =
      .satSum (q.archived (s.card k)) ((es.filter (·.cardId = k)).filterMap q.entry) := by
  induction es generalizing s
  case nil => rfl
  case cons e es hi =>
    rw [List.foldl_cons, hi]
    by_cases h : e.cardId = k
    case pos =>
      subst h
      have hc : (s.includeEntry e).card e.cardId = (s.card e.cardId).includeEntry e := by
        simp [ArchivedLedgerSummary.includeEntry, ArchivedLedgerSummary.card]
      rw [hc, q.included, List.filter_cons_of_pos (by simp)]
      cases hq : q.entry e <;> simp [hq]
    case neg =>
      have hc : (s.includeEntry e).card k = s.card k := by
        simp [ArchivedLedgerSummary.includeEntry, ArchivedLedgerSummary.card,
          lookup_insert_ne (Ne.symm h)]
      rw [hc, List.filter_cons_of_neg (by simpa using h)]

-- Archiving moves entries from the ledger to the summary, and what they come to stays.
theorem sum_archive (h : t.Summed q) : (t.withArchive before receipt).sum q k = t.sum q k := by
  have hp := t.archived_perm before
  rw [sum, addUp, withArchive, foldl_includeEntry_card, ←I64.satSum_append,
    ←List.filterMap_append, ←List.filter_append, sum, addUp]
  refine I64.satSum_perm (h.archived k) ?_ ((hp.filter _).filterMap _)
  intro x hx
  have ⟨e, he, hx⟩ := List.mem_filterMap.mp hx
  exact h.entries e (hp.mem_iff.mp (List.mem_filter.mp he).left) x hx

theorem summed_archive (h : t.Summed q) : (t.withArchive before receipt).Summed q where
  entries e he   := h.entries e (List.mem_filter.mp he).left
  archived k := by
    rw [withArchive, foldl_includeEntry_card]
    refine I64.satSum_nonneg (h.archived k) fun x hx => ?_
    have ⟨e, he, hx⟩ := List.mem_filterMap.mp hx
    exact h.entries e (List.mem_filter.mp (List.mem_filter.mp he).left).left x hx

theorem Summed.concat (h : t.Summed q) (hl : t'.ledger = t.ledger ++ [e])
    (ha : t'.archivedLedgerSummary.cards = t.archivedLedgerSummary.cards)
    (he : ∀ x ∈ q.entry e, 0 ≤ x.val) : t'.Summed q where
  entries e' he' := by
    rw [hl] at he'
    cases List.mem_append.mp he'
    case inl he' => exact h.entries e' he'
    case inr he' => exact List.mem_singleton.mp he' ▸ he
  archived k := by
    have := h.archived k
    rwa [ArchivedLedgerSummary.card, ha]

-- What entries are recorded at: top-ups and usage are never negative.
structure Counted (t : Tables F) : Prop where
  topups    : t.Summed .topups
  positive  : t.Summed .positiveAdjustments
  negative  : t.Summed .negativeAdjustments
  usage     : t.Summed .usage

-- Cards are worth what they were issued with and what was given to them, and have used what was
-- charged and taken.
structure Reconciled (issued : String → Option I64) (t : Tables F) : Prop where
  keyed    : t.Keyed
  codes    : ∀ {k c}, t.topupCodes.lookup k = some c → 0 ≤ c.creditAmount.val
  counted  : t.Counted
  balanced : ∀ {k i}, issued k = some i → 0 ≤ i.val → ∃ c, t.cards.lookup k = some c ∧
    c.creditTotal = (i.satAdd (t.sum .topups k)).satAdd (t.sum .positiveAdjustments k) ∧
    c.creditUsed = (t.sum .usage k).satAdd (t.sum .negativeAdjustments k)

variable {issued : String → Option I64} {card old : Card}

theorem sum_congr (hl : t'.ledger = t.ledger)
    (ha : t'.archivedLedgerSummary.cards = t.archivedLedgerSummary.cards) : t'.sum q k = t.sum q k := by
  simp [sum, addUp, hl, ha, ArchivedLedgerSummary.card]

theorem Summed.congr (h : t.Summed q) (hl : t'.ledger = t.ledger)
    (ha : t'.archivedLedgerSummary.cards = t.archivedLedgerSummary.cards) : t'.Summed q :=
  ⟨hl ▸ h.entries, by simpa [ArchivedLedgerSummary.card, ha] using h.archived⟩

theorem Counted.congr (h : t.Counted) (hl : t'.ledger = t.ledger)
    (ha : t'.archivedLedgerSummary.cards = t.archivedLedgerSummary.cards) : t'.Counted :=
  ⟨h.topups.congr hl ha, h.positive.congr hl ha, h.negative.congr hl ha, h.usage.congr hl ha⟩

-- What stays reconciled when nothing is recorded.
theorem Reconciled.congr (h : t.Reconciled issued) (hk : t'.Keyed)
    (hu : ∀ {k c}, t'.topupCodes.lookup k = some c → 0 ≤ c.creditAmount.val)
    (hl : t'.ledger = t.ledger)
    (ha : t'.archivedLedgerSummary.cards = t.archivedLedgerSummary.cards)
    (hc : SameBalances t.cards t'.cards) : t'.Reconciled issued where
  keyed    := hk
  codes    := hu
  counted  := h.counted.congr hl ha
  balanced hi h0 := by
    have ⟨c, hf, ht, hu⟩ := h.balanced hi h0
    have ⟨c', hf', ht', hu'⟩ := hc hf
    exact ⟨c', hf', by simp [ht', ht, sum_congr hl ha], by simp [hu', hu, sum_congr hl ha]⟩

theorem Counted.record (h : t.Counted) (hl : t'.ledger = t.ledger ++ [e])
    (ha : t'.archivedLedgerSummary.cards = t.archivedLedgerSummary.cards)
    (hn : e.kind ≠ .adjustment → 0 ≤ e.creditsCharged.val) : t'.Counted where
  topups := h.topups.concat hl ha fun x hx => by
    simp only [Quantity.topups, LedgerEntry.topup?, Option.mem_def, Option.ite_none_right_eq_some,
      Option.some.injEq] at hx
    exact hx.right ▸ hn (by simp [hx.left])
  positive := h.positive.concat hl ha fun x hx => by
    simp only [Quantity.positiveAdjustments, LedgerEntry.positiveAdjustment?, Option.mem_def,
      Option.ite_none_right_eq_some, Option.some.injEq] at hx
    exact hx.right ▸ I64.le_of_lt hx.left.right
  negative := h.negative.concat hl ha fun x hx => by
    simp only [Quantity.negativeAdjustments, LedgerEntry.negativeAdjustment?, Option.mem_def,
      Option.ite_none_right_eq_some, Option.some.injEq] at hx
    have : e.creditsCharged.val < 0 := hx.left.right
    rw [←hx.right, I64.val_satNeg]
    omega
  usage := h.usage.concat hl ha fun x hx => by
    simp only [Quantity.usage, LedgerEntry.usage?, Option.mem_def, Option.ite_none_right_eq_some,
      Option.some.injEq] at hx
    exact hx.right ▸ hn (by simp [hx.left])

-- Giving a card what an entry gives comes to recording the entry. Saturation is why it takes that
-- nothing is negative.
theorem satAdd_given {i topups positive : I64} (hi : 0 ≤ i.val) (ht : 0 ≤ topups.val)
    (hp : 0 ≤ positive.val) (hn : e.kind ≠ .adjustment → 0 ≤ e.creditsCharged.val) :
    ((i.satAdd topups).satAdd positive).satAdd e.given =
      (i.satAdd (.satSum topups (Quantity.topups.entry e).toList)).satAdd
        (.satSum positive (Quantity.positiveAdjustments.entry e).toList) := by
  simp only [Quantity.topups, Quantity.positiveAdjustments, LedgerEntry.topup?,
    LedgerEntry.positiveAdjustment?, LedgerEntry.given]
  cases hk : e.kind
  case topup =>
    have := hn (by simp [hk])
    simp [I64.eq_iff]
    omega
  case usage => simp
  case adjustment =>
    by_cases h : 0 < e.creditsCharged
    case pos =>
      have : 0 < e.creditsCharged.val := h
      simp [h, I64.le_of_lt h, I64.eq_iff]
      omega
    case neg =>
      by_cases h' : 0 ≤ e.creditsCharged
      case pos => simp [I64.eq_of_not_lt h' h, I64.lt_def, I64.le_def]
      case neg => simp [h, h']

theorem satAdd_taken {usage negative : I64} (hu : 0 ≤ usage.val) (hg : 0 ≤ negative.val)
    (hn : e.kind ≠ .adjustment → 0 ≤ e.creditsCharged.val) :
    (usage.satAdd negative).satAdd (if e.kind = .usage then e.creditsCharged else e.taken) =
      (I64.satSum usage (Quantity.usage.entry e).toList).satAdd
        (.satSum negative (Quantity.negativeAdjustments.entry e).toList) := by
  simp only [Quantity.usage, Quantity.negativeAdjustments, LedgerEntry.usage?,
    LedgerEntry.negativeAdjustment?, LedgerEntry.taken]
  cases hk : e.kind
  case topup => simp
  case usage =>
    have := hn (by simp [hk])
    simp [I64.eq_iff]
    omega
  case adjustment =>
    by_cases h : e.creditsCharged < 0
    case pos =>
      have : e.creditsCharged.val < 0 := h
      simp [h, I64.eq_iff]
      omega
    case neg => simp [h]

-- What stays reconciled when an entry is recorded for the card that it changes.
theorem Reconciled.record (h : t.Reconciled issued) (hk : t'.Keyed)
    (hu : t'.topupCodes = t.topupCodes) (hl : t'.ledger = t.ledger ++ [e])
    (ha : t'.archivedLedgerSummary.cards = t.archivedLedgerSummary.cards)
    (hc : t'.cards = t.cards.insert k card) (ho : e.cardId = k) (hf : t.cards.lookup k = some old)
    (hn : e.kind ≠ .adjustment → 0 ≤ e.creditsCharged.val)
    (htotal : card.creditTotal = old.creditTotal.satAdd e.given)
    (hused : card.creditUsed =
      old.creditUsed.satAdd (if e.kind = .usage then e.creditsCharged else e.taken)) :
    t'.Reconciled issued := by
  have hcount : t'.Counted := h.counted.record hl ha hn
  refine ⟨hk, hu ▸ h.codes, hcount, fun {k' i} hi h0 => ?_⟩
  have ⟨c, hf', ht, hus⟩ := h.balanced hi h0
  by_cases he : k' = k
  case neg =>
    have hne : e.cardId ≠ k' := fun h => he (h ▸ ho)
    refine ⟨c, by rw [hc, lookup_insert_ne he, hf'], ?_, ?_⟩
    · simp [ht, sum_concat hl ha, hne]
    · simp [hus, sum_concat hl ha, hne]
  case pos =>
    subst he
    rw [hf, Option.some.injEq] at hf'
    subst hf'
    refine ⟨card, by rw [hc, lookup_insert], ?_, ?_⟩
    · simp only [htotal, ht, sum_concat hl ha, ho, if_true]
      exact satAdd_given h0 (sum_nonneg h.counted.topups) (sum_nonneg h.counted.positive) hn
    · simp only [hused, hus, sum_concat hl ha, ho, if_true]
      exact satAdd_taken (sum_nonneg h.counted.usage) (sum_nonneg h.counted.negative) hn

end Tables

section

variable [F64 F] [Host F] {t t' : Tables F} {issued : String → Option I64} {c : Change F}

omit [F64 F] in
theorem Chargeable.kind {card : Card} {entry : LedgerEntry F} {r : ResponseTemplateReceipt}
    (h : Chargeable t card entry r) : entry.kind = .usage ∧ entry.cardId = card.id := by
  have ⟨_, _, he⟩ := h.billed
  rw [he]
  exact ⟨rfl, rfl⟩

theorem Change.Step.reconciled (h : Change.Step t c t') (hr : t.Reconciled issued) :
    t'.Reconciled issued := by
  have hk := h.keyed hr.keyed
  cases h
  case hold h => exact hr.congr hk hr.codes rfl rfl (SameBalances.insert h.found rfl rfl)
  case extend card reserved r h =>
    have hid : card.id = r.cardId := hr.keyed.cards h.found
    have hf : t.cards.lookup card.id = some card := by rw [hid]; exact h.found
    exact hr.congr hk hr.codes rfl rfl (SameBalances.insert hf rfl rfl)
  case pend => exact hr.congr hk hr.codes rfl rfl SameBalances.refl
  case debit id r card entry h =>
    refine hr.record hk rfl rfl rfl rfl rfl (h.owner ▸ h.found) (fun _ => h.charge) ?_ ?_
    · simp [LedgerEntry.given, h.usage]
    · simp [h.usage]
  case release => exact hr.congr hk hr.codes rfl rfl (SameBalances.update (fun _ => rfl) fun _ => rfl)
  case clean => exact hr.congr hk hr.codes rfl rfl SameBalances.reclaim
  case post key card entry h =>
    obtain ⟨old, hf, _, _, ht, hu, _⟩ := h.found
    refine hr.record hk rfl rfl rfl rfl h.owner hf (fun hne => ?_) ht ?_
    · have htop : entry.kind = .topup := by
        have := h.notUsage
        cases hkind : entry.kind <;> simp_all
      cases h.topup htop
      case inl h => exact h
      case inr h =>
        obtain ⟨_, _, hc, hv⟩ := h
        exact hv ▸ hr.codes hc
    · simpa [h.notUsage] using hu
  case replace h =>
    obtain ⟨old, hf, hs⟩ := h.found
    exact hr.congr hk hr.codes rfl rfl (SameBalances.insert hf hs.total hs.used)
  case consume => exact hr.congr hk hr.codes rfl rfl SameBalances.refl
  case use h =>
    refine hr.congr hk (fun hc => ?_) rfl rfl SameBalances.refl
    obtain ⟨_, ho, hv, _⟩ := h hc
    exact hv ▸ hr.codes ho
  case charge card entry r h _ =>
    obtain ⟨old, hf, he, hu⟩ := h.found
    obtain ⟨hkind, ho⟩ := h.kind
    have hid := hr.keyed.cards hf
    have hid : card.id = r.cardId := by rw [he, ←hid]
    have := card.creditUsed.lower
    have := card.creditUsed.upper
    refine hr.record hk rfl rfl rfl rfl ho (hid ▸ hf) (fun _ => h.nonneg) ?_ ?_
    · rw [he]
      simp [LedgerEntry.given, hkind]
    · simp only [hkind, if_true, I64.eq_iff, I64.val_satAdd]
      omega
  case archive =>
    have hc := hr.counted
    refine ⟨hk, hr.codes, ?_, fun hi h0 => ?_⟩
    · exact ⟨Tables.summed_archive hc.topups, Tables.summed_archive hc.positive,
        Tables.summed_archive hc.negative, Tables.summed_archive hc.usage⟩
    · rw [Tables.sum_archive hc.topups, Tables.sum_archive hc.positive,
        Tables.sum_archive hc.negative, Tables.sum_archive hc.usage]
      exact hr.balanced hi h0
  case templates => exact hr.congr hk hr.codes rfl rfl SameBalances.refl
  case publish h =>
    rw [h.configured] at hk ⊢
    exact hr.congr hk hr.codes rfl rfl SameBalances.refl
  case recover =>
    refine hr.congr hk hr.codes rfl ?_ (SameBalances.mapValues (fun _ _ => rfl) fun _ _ => rfl)
    simp only [Tables.recovered, Tables.restoreTemplateInvocations]
    split <;> rfl

omit [F64 F] [Host F] in
theorem Tables.Fresh.reconciled (h : t.Fresh)
    (hu : ∀ {k c}, t.topupCodes.lookup k = some c → 0 ≤ c.creditAmount.val) :
    t.Reconciled fun k => (t.cards.lookup k).bind (·.issuedCredits) := by
  have hs {q : Quantity F} (hq : q.archived {} = 0) : t.Summed q := by
    refine ⟨by simp [h.ledger], fun k => ?_⟩
    simp [ArchivedLedgerSummary.card, h.archived, hq]
  have hz {q : Quantity F} (hq : q.archived {} = 0) (k : String) : t.sum q k = 0 := by
    simp [Tables.sum, Tables.addUp, h.ledger, ArchivedLedgerSummary.card, h.archived, hq]
  refine ⟨h.keyed, hu, ⟨hs rfl, hs rfl, hs rfl, hs rfl⟩, fun {k i} hi _ => ?_⟩
  have ⟨c, hc, hi⟩ := Option.bind_eq_some_iff.mp hi
  rw [h.issued hc, Option.some.injEq] at hi
  refine ⟨c, hc, ?_, ?_⟩
  · simp [hz (q := .topups) rfl, hz (q := .positiveAdjustments) rfl, hi]
  · simp [hz (q := .usage) rfl, hz (q := .negativeAdjustments) rfl, h.unused hc]

-- Every card reconciles with the ledger and what was archived of it, after any run.
theorem cards_balanced {e₀ e : Engine F} {ls : List (Engine.Label F)} {c : Card}
    (run : Run Engine.Step e₀ ls e) (h₀ : e₀.Started)
    (hlive : ∀ {k c}, e₀.tables.topupCodes.lookup k = some c → 0 ≤ c.creditAmount.val)
    (hsaved : ∀ {s k c}, e₀.disk = some s → s.tables.topupCodes.lookup k = some c →
      0 ≤ c.creditAmount.val)
    (hc : e₀.tables.cards.lookup k = some c) (hi : c.issuedCredits = some initial) :
    ∃ r, e.tables.reconcileCardBalance k initial = .ok r ∧ r.isBalanced := by
  let issued (k : String) := (e₀.tables.cards.lookup k).bind (·.issuedCredits)
  have hinv : e₀.Invariant (Tables.Reconciled issued) := by
    refine ⟨h₀.fresh.reconciled hlive, fun {s} hs => ?_⟩
    have := (h₀.saved hs).reconciled (hsaved hs)
    rwa [h₀.same hs] at this
  have hr := (hinv.run (fun h => h.keyed) (fun h hs => hs.reconciled h) run).live
  have h0 := h₀.fresh.nonneg hc
  rw [h₀.fresh.issued hc, Option.some.injEq] at hi
  subst hi
  have ⟨c', hc', ht, hu⟩ := hr.balanced (k := k) (by simp [issued, hc, h₀.fresh.issued hc]) h0
  refine ⟨_, by simp only [Tables.reconcileCardBalance, bind_eq_ok', getCard_eq_ok]; exact ⟨c', hc', rfl⟩, ?_⟩
  simpa [ht, hu] using ⟨rfl, rfl⟩

end

-- A request that settles, and an archive of its charge.
theorem cards_balanced_sample :
    let e := Engine.sample.execAll [
      ⟨.reserve "card-1" "inv-1" .sample 10 100, {}⟩,
      ⟨.settle "inv-1" { outputTokens := 1000 } "model" "provider" "target" 20, {}⟩,
      ⟨.archiveLedger 100, {}⟩]
    ∃ r, e.tables.reconcileCardBalance "card-1" 100000000 = .ok r ∧ r.isBalanced :=
  cards_balanced (c := .sample) (Engine.run_execAll _ _) sample_started
    (fun h => by simp [Engine.sample] at h) (fun h => by simp [Engine.sample] at h)
    (by decide +kernel) rfl

end Billing
