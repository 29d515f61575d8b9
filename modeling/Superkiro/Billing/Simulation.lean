import Superkiro.Billing.Agreement
import Superkiro.Billing.Exports

namespace Billing

open F64 Except Host

-- Micro-credits added up by the face value they were earned at.
structure EarnedCredits (F : Type) where
  totals : List (F × I64) := []

namespace EarnedCredits

variable {F : Type} [F64 F] (c : EarnedCredits F)

def addTo (face : F) (credits : I64) : List (F × I64) → List (F × I64)
  | []            => [(face, credits)]
  | (f, t) :: fts => if f == face then (f, t.satAdd credits) :: fts
                     else (f, t) :: addTo face credits fts

def add (face : F) (credits : I64) : EarnedCredits F := ⟨addTo face credits c.totals⟩

def revenueMicroCny : I64 :=
  .satSum 0 (c.totals.map fun (face, credits) => faceValueMicroCny credits face)

end EarnedCredits

-- `a - b`, which release builds wrap.
def wrappingSub (a b : I64) : I64 := .sat ((a.val - b.val + 2 ^ 63) % 2 ^ 64 - 2 ^ 63)

structure SimulationResult (F : Type) where
  sampleEntriesCount           : Nat
  originalCreditsCharged       : I64
  simulatedCreditsCharged      : I64
  creditsDelta                 : I64
  originalRevenueMicroCny      : I64
  simulatedRevenueMicroCny     : I64
  revenueDeltaMicroCny         : I64
  providerCostMicroCny         : I64
  originalGrossProfitMicroCny  : I64
  simulatedGrossProfitMicroCny : I64
  originalGrossMarginRate      : F
  simulatedGrossMarginRate     : F
  burnRateRatio                : F
  projectedMonthlyCardDays     : F

-- The tokens of an entry, whose input counts those that were cached.
def LedgerEntry.simulatedTokens (e : LedgerEntry F) : UsageTokens where
  uncachedInputTokens := e.inputTokens - (e.cacheCreationTokens + e.cacheReadTokens) % 2 ^ 64
  outputTokens        := e.outputTokens
  cacheCreationTokens := e.cacheCreationTokens
  cacheReadTokens     := e.cacheReadTokens

namespace RateCardVersion

variable {F : Type} (v : RateCardVersion F)

-- Whether a version is simulated by what is used of a model.
def names (model : String) : Bool := v.model = "*" || model = v.model

def samples (e : LedgerEntry F) : Bool := e.kind = .usage && v.names e.exposedModel

def simulatedCharge [F64 F] (s : BillingSettings F) (e : LedgerEntry F) : I64 :=
  v.calculateCharge e.simulatedTokens (lit 1) (lit 1) s

end RateCardVersion

section

variable {F : Type} [F64 F]

-- What a profit is to a revenue.
def marginRate (profit revenue : I64) : F :=
  if 0 < revenue then ofInt profit.val / ofInt revenue.val else lit 0

def simulateCandidatePricing (entries : List (LedgerEntry F)) (v : RateCardVersion F)
    (s : BillingSettings F) (days : F) : SimulationResult F :=
  let sampled := entries.filter v.samples
  let original := I64.satSum 0 (sampled.map (·.creditsCharged))
  let simulated := I64.satSum 0 (sampled.map (v.simulatedCharge s))
  let cost := I64.satSum 0 (sampled.map (·.providerCostMicroCny))
  let earned : EarnedCredits F :=
    sampled.foldl (fun c e => c.add (entryFaceValue e s) e.creditsCharged) {}
  let originalRevenue := earned.revenueMicroCny
  let simulatedRevenue := faceValueMicroCny simulated (RateCardVersion.faceValue s)
  let originalProfit := originalRevenue.satSub cost
  let simulatedProfit := simulatedRevenue.satSub cost
  let burn : F := if 0 < original then ofInt simulated.val / ofInt original.val else lit 1
  { sampleEntriesCount           := sampled.length
    originalCreditsCharged       := original
    simulatedCreditsCharged      := simulated
    creditsDelta                 := wrappingSub simulated original
    originalRevenueMicroCny      := originalRevenue
    simulatedRevenueMicroCny     := simulatedRevenue
    revenueDeltaMicroCny         := wrappingSub simulatedRevenue originalRevenue
    providerCostMicroCny         := cost
    originalGrossProfitMicroCny  := originalProfit
    simulatedGrossProfitMicroCny := simulatedProfit
    originalGrossMarginRate      := marginRate originalProfit originalRevenue
    simulatedGrossMarginRate     := marginRate simulatedProfit simulatedRevenue
    burnRateRatio                := burn
    projectedMonthlyCardDays     := if lt (lit 0) burn then days / burn else days }

-- The entries of a window, or all of them.
def Tables.windowed (t : Tables F) (window : Option Nat) (now : Nat) : List (LedgerEntry F) :=
  match window with
  | some w => t.ledger.filter (now - w ≤ ·.tsSecs)
  | none   => t.ledger

def Tables.simulateCandidatePricing (t : Tables F) (v : RateCardVersion F) (window : Option Nat)
    (now : Nat) (days : F) : SimulationResult F :=
  Billing.simulateCandidatePricing (t.windowed window now) v t.settings days

-- What the source's floats are relied on for: small integers are exact, and one leaves them as they are.
class ExactF64 (F : Type) [F64 F] : Prop where
  toI64_unit (i : Int) : 0 ≤ i → i ≤ 2 ^ 53 → toI64 (ceil (ofInt i * lit 1 : F)) = .sat i
  ratio_unit (i : Int) : 0 < i → (ofInt i / ofInt i : F) = lit 1

instance : ExactF64 ℚ where
  toI64_unit i _ _ := by
    have hi : (ofInt i * lit 1 : ℚ) = (i : ℚ) := mul_one (i : ℚ)
    simp [hi, ceil, toI64]
  ratio_unit i h := by
    have hi : (i : ℚ) ≠ 0 := by exact_mod_cast h.ne'
    exact div_self hi

end

-- A template's fixed charge, by the id it is recorded under.
def LedgerEntry.isTemplateCharge (e : LedgerEntry F) : Bool :=
  Text.startsWith e.id templateProvider

def LedgerEntry.isSettlement (e : LedgerEntry F) : Bool := e.kind = .usage && !e.isTemplateCharge

section

variable {F : Type} [F64 F]

-- A settlement made at a version, with multipliers of one and the rates of some settings, below the cap.
structure MadeAt (v : RateCardVersion F) (s : BillingSettings F) (t : Tables F) (card : Card)
    (r : CreditReservation F) (tokens : UsageTokens) (exposed provider target : String) : Prop where
  version : t.settleVersion card (t.findModelMap card.groupId exposed) r exposed target = some v
  pricing : ∃ rates route, t.settlePricing card (t.findModelMap card.groupId exposed) r
      (routeName provider target) = ⟨lit 1, lit 1, lit 1, rates, route⟩ ∧
    rates.usdCnyRate = s.usdCnyRate ∧ rates.creditFaceValueCny = s.creditFaceValueCny
  capped  : (v.calculateCharge tokens (lit 1) (lit 1) s).val ≤ maxSettlementMicroCredits.val

-- What is charged for an entry is what it's simulated at.
structure Replayed (v : RateCardVersion F) (s : BillingSettings F) (e : LedgerEntry F) : Prop where
  fits    : e.cacheCreationTokens + e.cacheReadTokens < 2 ^ 64
  covered : e.cacheCreationTokens + e.cacheReadTokens ≤ e.inputTokens
  charged : v.simulatedCharge s e = e.creditsCharged
  capped  : e.creditsCharged.val ≤ maxSettlementMicroCredits.val

variable {v : RateCardVersion F} {s s' : BillingSettings F} {t : Tables F} {p : PendingSettlement F}

-- A charge depends on two of the settings.
theorem calculateCharge_congr (hr : s'.usdCnyRate = s.usdCnyRate)
    (hf : s'.creditFaceValueCny = s.creditFaceValueCny) :
    v.calculateCharge tokens a b s' = v.calculateCharge tokens a b s := by
  simp only [RateCardVersion.calculateCharge, RateCardVersion.toCny, RateCardVersion.faceValue, hr, hf]

theorem calculateCharge_nonneg : 0 ≤ (v.calculateCharge tokens a b s).val := by
  unfold RateCardVersion.calculateCharge
  cases v.pricingMode <;> exact ceilNonnegativeToI64_nonneg _

theorem surcharged_unit [ExactF64 F] {a : I64} (h₀ : 0 ≤ a.val)
    (h : a.val ≤ maxSettlementMicroCredits.val) : surcharged a (lit 1 : F) = a := by
  have hm : maxSettlementMicroCredits.val ≤ 2 ^ 53 := by decide
  rw [surcharged, I64.toF, ExactF64.toI64_unit a.val h₀ (h.trans hm), I64.sat_val]

theorem replayed_of {e : LedgerEntry F} {u : UsageTokens}
    (hi : e.inputTokens = u.uncachedInputTokens + u.cacheReadTokens + u.cacheCreationTokens)
    (ho : e.outputTokens = u.outputTokens) (hw : e.cacheCreationTokens = u.cacheCreationTokens)
    (hr : e.cacheReadTokens = u.cacheReadTokens)
    (hs : u.cacheCreationTokens + u.cacheReadTokens < 2 ^ 64)
    (hc : e.creditsCharged = v.calculateCharge u (lit 1) (lit 1) s)
    (hcap : (v.calculateCharge u (lit 1) (lit 1) s).val ≤ maxSettlementMicroCredits.val) :
    Replayed v s e where
  fits    := by rwa [hw, hr]
  covered := by omega
  charged := by
    have hu : e.simulatedTokens = u := by
      have hn : u.uncachedInputTokens + u.cacheReadTokens + u.cacheCreationTokens -
          (u.cacheCreationTokens + u.cacheReadTokens) = u.uncachedInputTokens := by omega
      rw [LedgerEntry.simulatedTokens, hw, hr, ho, hi, Nat.mod_eq_of_lt hs, hn]
    rw [RateCardVersion.simulatedCharge, hu, hc]
  capped  := hc ▸ hcap

-- The tokens of a bill are found again in its entry.
theorem priceSettlement_replayed [ExactF64 F] {id exposed provider target : String}
    {tokens : UsageTokens} {now : Nat} (hm : ∀ r card, t.reservations.lookup id = some r →
      t.cards.lookup r.cardId = some card →
      MadeAt v s t card r tokens.clamped exposed provider target)
    (h : t.priceSettlement id tokens.clamped exposed provider target now = .ok p) :
    Replayed v s p.entry := by
  simp only [Tables.priceSettlement, Tables.settlementEntry, bind_eq_ok', exists_unit,
    pure_eq_ok, ensure_eq_ok, ofOption_eq_ok, decide_eq_true_eq] at h
  have ⟨r, hr, _, _, card, hc, entry, ⟨_, he⟩, h⟩ := h
  subst h he
  have ⟨hv, ⟨rates, route, hp, hu, hf⟩, hcap⟩ := hm r card hr hc
  have ha : tokens.clamped.uncachedInputTokens ≤ maxTokensPerClass := Nat.min_le_right _ _
  have hb : tokens.clamped.cacheCreationTokens ≤ maxTokensPerClass := Nat.min_le_right _ _
  have hd : tokens.clamped.cacheReadTokens ≤ maxTokensPerClass := Nat.min_le_right _ _
  simp only [maxTokensPerClass] at ha hb hd
  have hi : satAddU64 (satAddU64 tokens.clamped.uncachedInputTokens tokens.clamped.cacheReadTokens)
      tokens.clamped.cacheCreationTokens = tokens.clamped.uncachedInputTokens +
        tokens.clamped.cacheReadTokens + tokens.clamped.cacheCreationTokens := by
    simp only [satAddU64, u64Max]
    omega
  have hcharge : (t.chargeOf (some v) ⟨lit 1, lit 1, lit 1, rates, route⟩ tokens.clamped exposed).minOf
      maxSettlementMicroCredits = v.calculateCharge tokens.clamped (lit 1) (lit 1) s := by
    have hu : t.chargeOf (some v) ⟨lit 1, lit 1, lit 1, rates, route⟩ tokens.clamped exposed =
        v.calculateCharge tokens.clamped (lit 1) (lit 1) s := by
      rw [Tables.chargeOf, ← calculateCharge_congr hu hf]
      apply surcharged_unit calculateCharge_nonneg
      rwa [calculateCharge_congr hu hf]
    rw [hu, I64.minOf, if_pos (I64.le_def.mpr hcap)]
  refine replayed_of hi rfl rfl rfl (by omega) ?_ hcap
  rw [← hcharge, hv, hp]

theorem priceSettlement_exposed {id exposed provider target : String} {tokens : UsageTokens} {now : Nat}
    (h : t.priceSettlement id tokens exposed provider target now = .ok p) :
    p.entry.exposedModel = exposed := by
  simp only [Tables.priceSettlement, Tables.settlementEntry, bind_eq_ok', exists_unit,
    pure_eq_ok] at h
  have ⟨_, _, _, _, _, _, _, ⟨_, he⟩, h⟩ := h
  subst h he
  rfl

-- What is billed of a model is replayed by a version, also where its debit is due.
structure Tables.Replays (v : RateCardVersion F) (s : BillingSettings F) (model : String)
    (t : Tables F) : Prop where
  keyed   : t.Keyed
  billed  : ∀ e ∈ t.ledger, e.isSettlement → e.exposedModel = model → Replayed v s e
  pending : ∀ {id p}, t.pendingSettlements.lookup id = some p → p.entry.exposedModel = model →
    Replayed v s p.entry

theorem finalEntry_replayed {id : String} (h : Replayed v s p.entry) :
    Replayed v s (t.finalEntry id p) where
  fits    := h.fits
  covered := h.covered
  charged := by
    have hc : (t.finalEntry id p).creditsCharged = p.entry.creditsCharged := by
      simp only [Tables.finalEntry, I64.minOf, if_pos (I64.le_def.mpr h.capped)]
    rw [hc]
    exact h.charged
  capped  := by
    simp only [Tables.finalEntry, I64.val_minOf]
    omega

namespace Tables.Replays

variable {model id : String} {t' : Tables F} {c : Change F}

theorem withPending (h : t.Replays v s model) (hp : p.entry.exposedModel = model → Replayed v s p.entry) :
    (t.withPending id p).Replays v s model where
  keyed  := ⟨h.keyed.cards, h.keyed.reservations, h.keyed.topupCodes⟩
  billed := h.billed
  pending hl hm := by
    cases AList.lookup_insert_iff.mp hl
    case inl hl => exact hl.right ▸ hp (hl.right ▸ hm)
    case inr hl => exact h.pending hl.right hm

theorem debit (h : t.Replays v s model) (hk : (t.debit id r card (t.finalEntry id p)).Keyed)
    (hp : p.entry.exposedModel = model → Replayed v s p.entry) :
    (t.debit id r card (t.finalEntry id p)).Replays v s model where
  keyed := hk
  billed e he hs hm := by
    cases List.mem_append.mp he
    case inl he => exact h.billed e he hs hm
    case inr he =>
      rw [List.mem_singleton] at he
      subst he
      exact finalEntry_replayed (hp hm)
  pending hl hm := h.pending (AList.lookup_erase_iff.mp hl).right hm

-- Whatever isn't a settlement leaves what is billed as it is.
theorem step [Host F] (h : t.Replays v s model) (hs : Change.Step t c t')
    (hp : ∀ id p, c ≠ .pend id p) (hd : ∀ id r card e, c ≠ .debit id r card e) :
    t'.Replays v s model := by
  have hk := hs.keyed h.keyed
  cases hs
  case pend => exact absurd rfl (hp _ _)
  case debit => exact absurd rfl (hd _ _ _ _)
  case charge hc _ =>
    refine ⟨hk, fun e he hu hm => ?_, h.pending⟩
    cases List.mem_append.mp he
    case inl he => exact h.billed e he hu hm
    case inr he =>
      have ⟨_, _, hb⟩ := hc.billed
      rw [List.mem_singleton.mp he, hb] at hu
      simp [LedgerEntry.isSettlement, LedgerEntry.isTemplateCharge, Tables.templateEntry,
        Text.startsWith_append] at hu
  case post hc =>
    refine ⟨hk, fun e he hu hm => ?_, h.pending⟩
    cases List.mem_append.mp he
    case inl he => exact h.billed e he hu hm
    case inr he =>
      rw [List.mem_singleton.mp he] at hu
      simp [LedgerEntry.isSettlement, hc.notUsage] at hu
  case archive => exact ⟨hk, fun e he => h.billed e (List.mem_of_mem_filter he), h.pending⟩
  case publish hp =>
    rw [hp.configured] at hk ⊢
    exact ⟨hk, h.billed, h.pending⟩
  all_goals exact ⟨hk, h.billed, h.pending⟩

end Tables.Replays

namespace Engine

variable [Host F] {e e' : Engine F} {io : Io} {id model : String} {B : PendingSettlement F → Prop}

-- What comes of a bill: nothing, or it's kept due, or debited.
inductive Invoiced (e : Engine F) (id : String) (B : PendingSettlement F → Prop) (e' : Engine F) : Prop
  | unchanged : e.Unchanged e' → Invoiced e id B e'
  | due {q : PendingSettlement F} :
    B q → e'.tables = e.tables.withPending id q → e.Saved e' → Invoiced e id B e'
  | debited {q : PendingSettlement F} {r : CreditReservation F} {card : Card} :
    B q → Debitable e.tables id r card (e.tables.finalEntry id q) →
    e'.tables = e.tables.debit id r card (e.tables.finalEntry id q) → e.Saved e' →
    Invoiced e id B e'

theorem completed_invoiced (hp : e.tables.pendingSettlements.lookup id = some p) (hb : B p) :
    e.Invoiced id B (e.transact io (e.tables.completePendingSettlement id p)).2 := by
  have ht := transact_cases io
    (completePendingSettlement_commits (M := fun _ => True) hp trivial).publishes
  cases hc : e.tables.completePendingSettlement id p
  case error => exact .unchanged ⟨rfl, rfl⟩
  case ok txn =>
    have ⟨r, card, hd, hw⟩ := completePendingSettlement_eq_ok hp hc
    subst hw
    rw [hc] at ht
    generalize (e.transact io _).1 = res at ht
    generalize (e.transact io _).2 = e' at ht ⊢
    cases ht
    case unsaved hu => exact .unchanged hu
    case committed hcom => exact .debited hb hd (hcom.tables_eq rfl) hcom.on_disk

theorem retryPendingSettlement_invoiced :
    e.Invoiced id (fun p => e.tables.pendingSettlements.lookup id = some p)
      (e.retryPendingSettlement io id).2 := by
  unfold retryPendingSettlement Tables.retryPendingSettlement
  split
  case h_1 => exact .unchanged ⟨rfl, rfl⟩
  case h_2 =>
    cases hp : e.tables.pendingSettlements.lookup id
    case none => exact .unchanged ⟨rfl, rfl⟩
    case some p => exact completed_invoiced hp rfl

theorem settle_invoiced :
    e.Invoiced id (fun p => e.tables.pendingSettlements.lookup id = some p ∨
      e.tables.priceSettlement id tokens.clamped exposed provider target now = .ok p)
      (e.settle io id tokens exposed provider target now).2 := by
  simp only [settle]
  split
  case h_2 p hp =>
    split
    case isTrue => exact completed_invoiced hp (.inl hp)
    case isFalse => exact .unchanged ⟨rfl, rfl⟩
  case h_1 hn =>
    simp only [settleNew]
    split
    case h_1 => exact .unchanged ⟨rfl, rfl⟩
    case h_2 p hp =>
      have hd : Due e.tables id p := .inr ⟨hn, _, _, _, _, _, hp⟩
      cases settleCandidate_cases hd
      case inl hc =>
        obtain ⟨r, card, hc, hdeb⟩ := hc
        simp only [hc]
        cases commit_cases io
          (publishSettlement_debit e.tables id r card (e.tables.finalEntry id p))
        case inl h =>
          obtain ⟨err, e', h, hu⟩ := h
          simp only [h]
          exact .due (.inr hp) (by rw [hu.tables]) (.inl hu.disk)
        case inr h =>
          obtain ⟨e', h, hcom⟩ := h
          simp only [h]
          exact .debited (.inr hp) hdeb (hcom.tables_eq rfl) hcom.on_disk
      case inr hc =>
        obtain ⟨err, hc⟩ := hc
        simp only [hc]
        cases commit_cases io (publishSettlement_withPending e.tables id p)
        case inl h =>
          obtain ⟨err, e', h, hu⟩ := h
          simp only [h]
          exact .due (.inr hp) (by rw [hu.tables]) (.inl hu.disk)
        case inr h =>
          obtain ⟨e', h, hcom⟩ := h
          simp only [h]
          exact .due (.inr hp) (hcom.tables_eq rfl) hcom.on_disk

omit [F64 F] [Host F] in
theorem Invariant.of_saved {P : Tables F → Prop} (h : e.Invariant P) (ht : P e'.tables)
    (hs : e.Saved e') : e'.Invariant P := by
  refine ⟨ht, fun {s} he => ?_⟩
  cases hs
  case inl hd => exact h.saved (hd ▸ he)
  case inr hd =>
    have ⟨s', hs', hst, _⟩ := hd
    rw [hs', Option.some.injEq] at he
    rwa [← he, hst]

theorem Invoiced.replays (h : e.Invoiced id B e') (hi : e.Invariant (·.Replays v s model))
    (hb : ∀ q, B q → q.entry.exposedModel = model → Replayed v s q.entry) :
    e'.Invariant (·.Replays v s model) := by
  cases h
  case unchanged hu => exact hi.of_saved (hu.tables ▸ hi.live) (.inl hu.disk)
  case due hq ht hs => exact hi.of_saved (ht ▸ hi.live.withPending (hb _ hq)) hs
  case debited hq hd ht hs =>
    have hk := (Change.Step.debit hd).keyed hi.live.keyed
    exact hi.of_saved (ht ▸ hi.live.debit hk (hb _ hq)) hs

-- A step in which what is settled of a model is made at a version.
def Made (v : RateCardVersion F) (s : BillingSettings F) (model : String) (e : Engine F)
    (l : Label F) (e' : Engine F) : Prop :=
  Step e l e' ∧ ∀ id tokens provider target now, l.op = .settle id tokens model provider target now →
    ∀ r card, e.tables.reservations.lookup id = some r → e.tables.cards.lookup r.cardId = some card →
      MadeAt v s e.tables card r tokens.clamped model provider target

theorem Made.replays [ExactF64 F] {l : Label F} (h : Made v s model e l e')
    (hi : e.Invariant (·.Replays v s model)) : e'.Invariant (·.Replays v s model) := by
  have ⟨he, hm⟩ := h
  have ⟨op, io⟩ := l
  subst he
  by_cases hs : ∃ id tokens exposed provider target now,
      op = .settle id tokens exposed provider target now
  case pos =>
    have ⟨id, tokens, exposed, provider, target, now, hop⟩ := hs
    subst hop
    refine settle_invoiced.replays hi fun q hq hx => ?_
    cases hq
    case inl hq => exact hi.live.pending hq hx
    case inr hq =>
      have hx : exposed = model := priceSettlement_exposed hq ▸ hx
      subst hx
      exact priceSettlement_replayed (hm _ _ _ _ _ rfl) hq
  case neg =>
    by_cases hr : ∃ id, op = .retryPendingSettlement id
    case pos =>
      have ⟨id, hop⟩ := hr
      subst hop
      exact retryPendingSettlement_invoiced.replays hi fun q hq => hi.live.pending hq
    case neg =>
      refine hi.exec (fun h => h.keyed) fun {t c t'} hc ht hst => ht.step hst ?_ ?_
      · rintro id p rfl
        cases hc
        exact hs ⟨_, _, _, _, _, _, rfl⟩
      · rintro id r card entry rfl
        cases hc
        case settle => exact hs ⟨_, _, _, _, _, _, rfl⟩
        case retry => exact hr ⟨_, rfl⟩

omit [Host F] in
theorem Started.replays (h : e.Started) : e.Invariant (·.Replays v s model) :=
  h.invariant.mono fun {t} (ht : t.Fresh) =>
    ⟨ht.keyed, by simp [ht.ledger], by simp [ht.pending]⟩

end Engine

def settlementsOf (model : String) (entries : List (LedgerEntry F)) : List (LedgerEntry F) :=
  entries.filter fun e => e.isSettlement && e.exposedModel = model

-- A simulation by a model's settlements, that comes to what they were charged.
structure SimulationResult.Faithful (r : SimulationResult F) (v : RateCardVersion F) (model : String)
    (entries : List (LedgerEntry F)) : Prop where
  sampled : entries.filter v.samples = settlementsOf model entries
  counted : r.sampleEntriesCount = (settlementsOf model entries).length
  credits : r.simulatedCreditsCharged = r.originalCreditsCharged
  delta   : r.creditsDelta = 0
  burn    : r.burnRateRatio = lit 1
  fits    : ∀ e ∈ entries.filter v.samples,
    e.cacheCreationTokens + e.cacheReadTokens < 2 ^ 64 ∧
    e.cacheCreationTokens + e.cacheReadTokens ≤ e.inputTokens

-- Entries among which a version names a model's settlements, and neither those of other models nor what
-- templates were charged for.
structure RateCardVersion.Singles (v : RateCardVersion F) (model : String)
    (entries : List (LedgerEntry F)) : Prop where
  own       : ∀ e ∈ entries, e.isSettlement → e.exposedModel = model → v.names model
  others    : ∀ e ∈ entries, e.isSettlement → e.exposedModel ≠ model → ¬v.names e.exposedModel
  templates : ∀ e ∈ entries, e.kind = .usage → e.isTemplateCharge → ¬v.names e.exposedModel

variable {entries : List (LedgerEntry F)} {model : String}

theorem filter_eq_iff {p q : α → Bool} {as : List α} :
    as.filter p = as.filter q ↔ ∀ a ∈ as, p a = q a := by
  constructor
  case mp =>
    intro h a ha
    have hm : a ∈ as.filter p ↔ a ∈ as.filter q := by rw [h]
    rw [List.mem_filter, List.mem_filter] at hm
    exact Bool.eq_iff_iff.mpr ((and_iff_right ha).symm.trans (hm.trans (and_iff_right ha)))
  case mpr => exact List.filter_congr

omit [F64 F] in
theorem samples_iff {e : LedgerEntry F} :
    v.samples e ↔ e.kind = .usage ∧ v.names e.exposedModel := by
  simp [RateCardVersion.samples]

omit [F64 F] in
theorem isSettlement_iff {e : LedgerEntry F} :
    e.isSettlement ↔ e.kind = .usage ∧ ¬e.isTemplateCharge := by
  simp [LedgerEntry.isSettlement]

omit [F64 F] in
theorem sampled_iff : entries.filter v.samples = settlementsOf model entries ↔
    v.Singles model entries := by
  have hb (e : LedgerEntry F) : v.samples e = (e.isSettlement && decide (e.exposedModel = model)) ↔
      ((e.kind = .usage ∧ v.names e.exposedModel) ↔ e.isSettlement ∧ e.exposedModel = model) := by
    rw [Bool.eq_iff_iff, samples_iff, Bool.and_eq_true, decide_eq_true_eq]
  rw [settlementsOf, filter_eq_iff]
  simp only [hb]
  constructor
  case mp =>
    intro h
    constructor
    case own => exact fun e he hs hm => hm ▸ ((h e he).mpr ⟨hs, hm⟩).right
    case others =>
      exact fun e he hs hm hn => hm ((h e he).mp ⟨(isSettlement_iff.mp hs).left, hn⟩).right
    case templates =>
      exact fun e he hk ht hn => (isSettlement_iff.mp ((h e he).mp ⟨hk, hn⟩).left).right ht
  case mpr =>
    intro h e he
    constructor
    case mp =>
      intro ⟨hk, hn⟩
      have hs : e.isSettlement := isSettlement_iff.mpr ⟨hk, fun ht => h.templates e he hk ht hn⟩
      by_cases hm : e.exposedModel = model
      case pos => exact ⟨hs, hm⟩
      case neg => exact absurd hn (h.others e he hs hm)
    case mpr =>
      intro ⟨hs, hm⟩
      exact ⟨(isSettlement_iff.mp hs).left, hm ▸ h.own e he hs hm⟩

theorem wrappingSub_self (a : I64) : wrappingSub a a = 0 := by
  simp [wrappingSub, I64.eq_iff]

-- The simulation of a model's settlements is what they were charged.
theorem simulated_eq (h : ∀ e ∈ entries.filter v.samples, Replayed v s e) :
    (simulateCandidatePricing entries v s days).simulatedCreditsCharged =
      (simulateCandidatePricing entries v s days).originalCreditsCharged := by
  simp only [simulateCandidatePricing]
  rw [List.map_congr_left fun e he => (h e he).charged]

theorem simulation_faithful [ExactF64 F] {days : F}
    (h : ∀ e ∈ entries, e.isSettlement → e.exposedModel = model → Replayed v s e) :
    (simulateCandidatePricing entries v s days).Faithful v model entries ↔
      v.Singles model entries := by
  constructor
  case mp => exact fun hf => sampled_iff.mp hf.sampled
  case mpr =>
    intro hs
    have hs := sampled_iff.mpr hs
    have hr : ∀ e ∈ entries.filter v.samples, Replayed v s e := by
      intro e he
      rw [hs] at he
      have ⟨hm, he⟩ := List.mem_filter.mp he
      simp only [Bool.and_eq_true, decide_eq_true_eq] at he
      exact h e hm he.left he.right
    have hc : (simulateCandidatePricing entries v s days).simulatedCreditsCharged = _ := simulated_eq hr
    constructor
    case sampled => exact hs
    case counted => exact congrArg List.length hs
    case credits => exact hc
    case delta =>
      show wrappingSub (simulateCandidatePricing entries v s days).simulatedCreditsCharged _ = 0
      rw [hc]
      exact wrappingSub_self _
    case burn =>
      show (if 0 < (simulateCandidatePricing entries v s days).originalCreditsCharged then
        ofInt (simulateCandidatePricing entries v s days).simulatedCreditsCharged.val /
          ofInt (simulateCandidatePricing entries v s days).originalCreditsCharged.val else lit 1) = lit 1
      rw [hc]
      split
      case isTrue ho => exact ExactF64.ratio_unit _ ho
      case isFalse => rfl
    case fits => exact fun e he => ⟨(hr e he).fits, (hr e he).covered⟩

namespace Engine

variable [Host F]

theorem simulator_replays [ExactF64 F] {e₀ e : Engine F} {ls : List (Label F)}
    (run : Run (Made v e.tables.settings model) e₀ ls e) (h₀ : e₀.Started) (window : Option Nat)
    (now : Nat) (days : F) :
    (e.tables.simulateCandidatePricing v window now days).Faithful v model
        (e.tables.windowed window now) ↔
      v.Singles model (e.tables.windowed window now) := by
  have hi : e.Invariant (·.Replays v e.tables.settings model) :=
    run.preserves (I := (·.Invariant (·.Replays v e.tables.settings model)))
      (fun hi h => Made.replays h hi) h₀.replays
  apply simulation_faithful
  intro entry he hs hm
  refine hi.live.billed entry ?_ hs hm
  unfold Tables.windowed at he
  split at he
  case h_1 => exact List.mem_of_mem_filter he
  case h_2 => exact he

end Engine

end

-- A version of a model's price.
def RateCardVersion.sonnet : RateCardVersion ℚ where
  id                := "v1"
  rateCardId        := "default"
  model             := "sonnet"
  currency          := .cny
  pricingMode       := .fixed
  pricePerM         := ⟨0, 0, 0, 0⟩
  fixedCreditPerM   := ⟨1000000, 2000000, 1000000, 1000000⟩
  perCallCredit     := 0
  marginMultiplier  := 1
  effectiveFromSecs := 0

-- An engine whose only model is priced by it, also under another name.
def Engine.priced : Engine ℚ where
  tables := { Engine.sample.tables with
    rateCardVersions := [.sonnet]
    modelMaps        := [{
      id := "map-1", groupId := "default", exposedModelId := "sonnet", targetProviderId := "relay",
      targetModel := "sonnet-4", creditMultiplier := 1, aliases := ["claude"] }] }

namespace Engine

theorem priced_started : priced.Started where
  fresh :=
    have h := sample_started.fresh
    ⟨⟨h.keyed.cards, h.keyed.reservations, h.keyed.topupCodes⟩, h.unused, h.unreserved, h.issued,
      h.nonneg, rfl, rfl, rfl, rfl, rfl, rfl, rfl, rfl⟩
  saved := nofun
  same  := nofun

-- A request for a model, by one of its names.
def reserving (model : String) : Op ℚ :=
  .reserve "card-1" "inv-1" { ReservationEstimateParams.sample with model := some model } 10 100

def requested (model : String) : List (Label ℚ) := [
  ⟨reserving model, {}⟩,
  ⟨.settle "inv-1" { uncachedInputTokens := 500, outputTokens := 100 } model "relay" "sonnet-4" 20, {}⟩]

-- Whether a hold was priced by the version, with multipliers of one and the rates of some settings.
def pricedOnce (s : BillingSettings ℚ) (r : CreditReservation ℚ) : Bool :=
  r.rateCardVersion = some "v1" && r.pricing.any fun p =>
    p.groupMargin = 1 && p.modelMultiplier = 1 && p.billingMultiplier = 1 &&
    p.settings.usdCnyRate = s.usdCnyRate && p.settings.creditFaceValueCny = s.creditFaceValueCny

theorem requested_made (model : String) (s : BillingSettings ℚ)
    (hp : ((priced.exec {} (reserving model)).tables.reservations.lookup "inv-1").all (pricedOnce s))
    (hc : (RateCardVersion.sonnet.calculateCharge
      { uncachedInputTokens := 500, outputTokens := 100 : UsageTokens }.clamped 1 1 s).val ≤
      maxSettlementMicroCredits.val) :
    Run (Made .sonnet s model) priced (requested model) (priced.execAll (requested model)) := by
  refine .cons ⟨rfl, fun _ _ _ _ _ h => by cases h⟩ (.cons ⟨rfl, ?_⟩ .nil)
  intro id tokens provider target now h r card hr _
  cases h
  rw [show AList.lookup "inv-1" (priced.exec {} (reserving model)).tables.reservations = some r from hr]
    at hp
  have ⟨hi, hp⟩ := Bool.and_eq_true_iff.mp hp
  have ⟨p, hr, hp⟩ := (Option.any_eq_true _ _).mp hp
  simp only [Bool.and_eq_true, decide_eq_true_eq] at hi hp
  have ⟨⟨⟨⟨hg, hm⟩, hb⟩, hu⟩, hf⟩ := hp
  constructor
  case version =>
    have hv : (priced.exec {} (reserving model)).tables.rateCardVersions = [.sonnet] := by
      rw [reserving, exec, (reserve_disk priced).right]
      rfl
    simp only [Tables.settleVersion, hi, Tables.getRateCardVersion, hv]
    rfl
  case pricing =>
    simp only [Tables.settlePricing, hr, hg, hm, hb]
    exact ⟨_, _, rfl, hu, hf⟩
  case capped => exact hc

theorem simulator_replays_sonnet :
    let e := priced.execAll (requested "sonnet")
    (e.tables.simulateCandidatePricing .sonnet none 30 30).Faithful .sonnet "sonnet" e.tables.ledger := by
  intro e
  have run := requested_made "sonnet" e.tables.settings (by decide +kernel)
    (by decide +kernel)
  apply (simulator_replays run priced_started none 30 30).mpr
  constructor
  case own => exact fun _ _ _ _ => rfl
  case others => decide +kernel
  case templates => decide +kernel

-- A request by another name of the model, at the model's price, isn't found again.
theorem alias_not_simulated : ¬∀ (v : RateCardVersion ℚ) model (e₀ e : Engine ℚ) ls,
    Run (Made v e.tables.settings model) e₀ ls e → e₀.Started → ∀ now days,
      (e.tables.simulateCandidatePricing v none now days).Faithful v model e.tables.ledger := by
  intro h
  have run := requested_made "claude" (priced.execAll (requested "claude")).tables.settings
    (by decide +kernel) (by decide +kernel)
  have hc := (h _ _ _ _ _ run priced_started 30 30).counted
  exact absurd hc (by decide +kernel)

end Engine
end Billing
