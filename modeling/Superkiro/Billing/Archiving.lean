import Superkiro.Billing.Compensated
import Superkiro.Billing.Quota
import Superkiro.Billing.Reconcile

namespace Billing

open F64 Except Host AList

-- Engines that can't be told apart by what cards used, by their quotas and balances, by what requests
-- were given and by what's recorded under a key.
structure Engine.Answers [Host F] (e e' : Engine F) : Prop where
  usage   : ∀ cardId since, e'.tables.usageSince cardId since = e.tables.usageSince cardId since
  quota   : ∀ card x now, e'.tables.checkQuota card x now = e.tables.checkQuota card x now
  balance : ∀ cardId initial,
    e'.tables.reconcileCardBalance cardId initial = e.tables.reconcileCardBalance cardId initial
  given   : ∀ cardId id, e'.compensations.total cardId id = e.compensations.total cardId id
  under   : ∀ key, e'.tables.adjustmentUnder key = e.tables.adjustmentUnder key

section

variable {t t' : Tables F} {before : Nat} {receipt : ArchivedLedgerReceipt}

theorem entries_orInsert_filter {κ α : Type} [DecidableEq κ] {s : Table κ α} {k : κ} {v : α}
    {p : (Σ _ : κ, α) → Bool} (h : p ⟨k, v⟩ = false) :
    (s.orInsert k v).entries.filter p = s.entries.filter p := by
  rw [AList.orInsert]
  split
  case isTrue => rfl
  case isFalse hk => rw [entries_insert_of_notMem hk, List.filter_cons_of_neg (by simp [h])]

namespace Tables

-- Only what's held and pending stays held after a restart.
theorem held_recovered (t : Tables F) : t.recoveredReservations.entries.filter (·.2.state = .held) =
    t.reservations.entries.filter fun r => r.2.state = .held && r.1 ∈ t.pendingSettlements := by
  have hf (es : List (LedgerEntry F)) (rs : Table String (CreditReservation F)) :
      (es.foldl (recordSettled t.horizon) rs).entries.filter
        (fun r => r.2.state = .held && r.1 ∈ t.pendingSettlements) =
      rs.entries.filter fun r => r.2.state = .held && r.1 ∈ t.pendingSettlements := by
    induction es generalizing rs
    case nil => rfl
    case cons e es hi =>
      rw [List.foldl_cons, hi, recordSettled]
      split
      case h_2 => rfl
      case h_1 =>
        split
        case isFalse => rfl
        case isTrue => exact entries_orInsert_filter rfl
  rw [← hf t.ledger, recoveredReservations, retain, List.filter_filter]
  congr 1
  funext r
  cases r.2.state <;> simp

theorem heldIn_eq (rs : Table String (CreditReservation F)) (cardId : String) : heldIn rs cardId =
    .satSum 0 ((((rs.entries.filter (·.2.state = .held)).map (·.2)).filter (·.cardId = cardId)).map
      (·.reservedMicroCredits)) := by
  rw [heldIn, AList.values, List.filter_map, List.filter_map, List.filter_filter]
  rfl

theorem heldIn_recovered_congr (hr : t'.reservations = t.reservations)
    (hp : t'.pendingSettlements = t.pendingSettlements) :
    heldIn t'.recoveredReservations = heldIn t.recoveredReservations := by
  funext cardId
  rw [heldIn_eq, heldIn_eq, held_recovered, held_recovered, hr, hp]

theorem checkQuota_congr (hp : t'.pendingSettlements = t.pendingSettlements)
    (hh : ∀ k, t'.held k = t.held k) (hu : ∀ k since, t'.usageSince k since = t.usageSince k since)
    (card : Card) (x : I64) (now : Nat) : t'.checkQuota card x now = t.checkQuota card x now := by
  simp only [checkQuota, hp, hh, hu]

-- The quantities a balance is reconciled with.
def reconciledWith : List (Quantity F) :=
  [.topups, .positiveAdjustments, .negativeAdjustments, .usage]

theorem reconcileCardBalance_congr {cardId : String} (hc : t'.cards.lookup cardId = t.cards.lookup cardId)
    (hs : ∀ q ∈ reconciledWith, t'.sum q cardId = t.sum q cardId) (initial : I64) :
    t'.reconcileCardBalance cardId initial = t.reconcileCardBalance cardId initial := by
  have htopups := hs .topups (by simp [reconciledWith])
  have hpositive := hs .positiveAdjustments (by simp [reconciledWith])
  have hnegative := hs .negativeAdjustments (by simp [reconciledWith])
  have husage := hs .usage (by simp [reconciledWith])
  simp only [sum, Quantity.topups, Quantity.positiveAdjustments, Quantity.negativeAdjustments,
    Quantity.usage] at htopups hpositive hnegative husage
  simp only [reconcileCardBalance, getCard, hc, htopups, hpositive, hnegative, husage]

-- Tables that what's asked of is answered alike.
structure SameAnswers (t t' : Tables F) : Prop where
  pending : t'.pendingSettlements = t.pendingSettlements
  held    : ∀ k, t'.held k = t.held k
  cards   : t'.cards = t.cards
  usage   : ∀ k since, t'.usageSince k since = t.usageSince k since
  sums    : ∀ q ∈ reconciledWith, ∀ k, t'.sum q k = t.sum q k
  under   : ∀ key, t'.adjustmentUnder key = t.adjustmentUnder key

theorem withArchive_sameAnswers (hb : t.Bucketed) (hc : t.Counted)
    (honce : ∀ key, (t.recordedUnder key).length ≤ 1) : SameAnswers t (t.withArchive before receipt) where
  pending   := rfl
  held _    := rfl
  cards     := rfl
  usage _ _ := hb.usageSince_archive
  sums q hq k := by
    simp only [reconciledWith, List.mem_cons, List.not_mem_nil, or_false] at hq
    rcases hq with rfl | rfl | rfl | rfl
    · exact sum_archive hc.topups
    · exact sum_archive hc.positive
    · exact sum_archive hc.negative
    · exact sum_archive hc.usage
  under key := by
    rw [adjustmentUnder_eq, adjustmentUnder_eq, recordedUnder_archive (honce key)]

theorem recovered_summary (t : Tables F) :
    t.recovered.archivedLedgerSummary.cards = t.archivedLedgerSummary.cards ∧
      t.recovered.archivedLedgerSummary.adjustments = t.archivedLedgerSummary.adjustments := by
  simp only [recovered, restoreTemplateInvocations]
  split <;> exact ⟨rfl, rfl⟩

-- So they are after a restart.
theorem SameAnswers.recovered (h : SameAnswers t t') (hr : t'.reservations = t.reservations) :
    SameAnswers t.recovered t'.recovered := by
  have hheld : heldIn t'.recoveredReservations = heldIn t.recoveredReservations :=
    heldIn_recovered_congr hr h.pending
  constructor
  case pending => exact h.pending
  case held => exact fun k => congrFun hheld k
  case cards =>
    have hc (t : Tables F) : t.recovered.cards = t.cards.mapValues fun id c =>
        { c with creditReserved := heldIn t.recoveredReservations id } := rfl
    rw [hc, hc, h.cards, hheld]
  case usage =>
    intro k since
    have hu (t : Tables F) : t.recovered.usageSince k since = t.usageSince k since :=
      usageSince_congr rfl (recovered_summary t).left
    rw [hu, hu]
    exact h.usage k since
  case sums =>
    intro q hq k
    have hs (t : Tables F) : t.recovered.sum q k = t.sum q k :=
      sum_congr rfl (recovered_summary t).left
    rw [hs, hs]
    exact h.sums q hq k
  case under =>
    intro key
    have hu (t : Tables F) : t.recovered.adjustmentUnder key = t.adjustmentUnder key := by
      rw [adjustmentUnder, adjustmentUnder, (recovered_summary t).right]
      rfl
    rw [hu, hu]
    exact h.under key

end Tables

theorem Tables.SameAnswers.answers [Host F] {e e' : Engine F} (h : SameAnswers e.tables e'.tables)
    (hg : ∀ cardId id, e'.compensations.total cardId id = e.compensations.total cardId id) :
    e.Answers e' where
  usage     := h.usage
  quota     := checkQuota_congr h.pending h.held h.usage
  balance k := reconcileCardBalance_congr (by rw [h.cards]) fun q hq => h.sums q hq k
  given     := hg
  under     := h.under

end

section

variable [F64 F] [Host F] {e₀ e : Engine F} {ls : List (Engine.Label F)}

end

end Billing
