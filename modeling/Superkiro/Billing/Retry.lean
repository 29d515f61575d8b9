import Superkiro.Billing.Holds

namespace Billing

open F64 Except Host AList Engine

-- A pending settlement that was completed: the debit of its bill is recorded, once, and its hold is
-- returned.
structure Completed (e : Engine F) (id : String) (p : PendingSettlement F) (e' : Engine F) :
    Prop where
  finished : id ∉ e'.tables.pendingSettlements
  settled  : ∃ r, e'.tables.reservations.lookup id = some r ∧ r.state = .settled
  charged  : ∃ r c c', e.tables.reservations.lookup id = some r ∧
    e.tables.cards.lookup p.entry.cardId = some c ∧
    e'.tables.cards.lookup p.entry.cardId = some c' ∧
    c'.creditUsed.val =
      c.creditUsed.val + (p.entry.creditsCharged.minOf maxSettlementMicroCredits).val ∧
    c'.creditReserved.val = c.creditReserved.val - r.reservedMicroCredits.val
  recorded : e'.tables.ledger = e.tables.ledger ++ [e.tables.finalEntry id p]

-- What completing a pending settlement takes: that no usage of the invocation's id is in the live
-- ledger, and that the card's usage doesn't overflow.
structure Retriable (t : Tables F) (id : String) (p : PendingSettlement F) : Prop where
  unbilled : ∀ u ∈ t.ledger, u.isUsageOf id = false
  room     : ∀ {c}, t.cards.lookup p.entry.cardId = some c →
    c.creditUsed.val + (p.entry.creditsCharged.minOf maxSettlementMicroCredits).val ≤
      9223372036854775807

section

variable {t : Tables F} {id : String} {p : PendingSettlement F}

-- A bill in flight passes every check of its debit.
theorem Billed.debitable [F64 F] (h : Billed t id p)
    (hp : t.pendingSettlements.lookup id = some p) :
    ∃ r card, Debitable t id r card (t.finalEntry id p) := by
  have ⟨r, hr, hh, ho⟩ := h.reservation
  have ⟨card, hc⟩ := h.found
  have hn : 0 ≤ p.entry.creditsCharged.minOf maxSettlementMicroCredits := by
    have : (0 : Int) ≤ maxSettlementMicroCredits.val := by decide
    have := h.charge
    simp only [I64.le_def, I64.val_zero, I64.val_minOf]
    omega
  exact ⟨r, card, ⟨p, .inl hp, rfl⟩, hr, hh, h.invocation, ho.symm, h.usage, hn, h.cost, ho ▸ hc⟩

theorem completePendingSettlement_of_debitable [F64 F] {r : CreditReservation F} {card : Card}
    (h : Debitable t id r card (t.finalEntry id p)) :
    t.completePendingSettlement id p = .ok (.write (t.debit id r card (t.finalEntry id p))
      (t.debit id r card (t.finalEntry id p)).publishSettlement (t.finalEntry id p)) := by
  simp only [Tables.completePendingSettlement, Tables.applyPendingSettlement, bind_eq_ok',
    exists_unit, pure_eq_ok, ensure_eq_ok, ofOption_eq_ok, Bool.and_eq_true, decide_eq_true_eq]
  exact ⟨_, ⟨r, h.reservation, h.held, ⟨⟨⟨⟨h.invocation, h.owner⟩, h.usage⟩, h.charge⟩, h.cost⟩,
    card, h.owner ▸ h.found, rfl⟩, rfl⟩

end

section

variable [F64 F] [Host F] {e e' : Engine F} {id : String} {p : PendingSettlement F} {io : Io}

omit [Host F] in
theorem completed_of_debit {r : CreditReservation F} {card : Card}
    (ha : e.tables.Accounted) (hd : Debitable e.tables id r card (e.tables.finalEntry id p))
    (ht : e'.tables = e.tables.debit id r card (e.tables.finalEntry id p)) :
    Completed e id p e' ↔ card.creditUsed.val +
      (p.entry.creditsCharged.minOf maxSettlementMicroCredits).val ≤ 9223372036854775807 := by
  have ho : p.entry.cardId = r.cardId := hd.owner
  have hc : e.tables.cards.lookup p.entry.cardId = some card := ho ▸ hd.found
  have hle := ha.hold_le r.cardId hd.reservation
  rw [hold_of_held hd.held, ←ha.reserved hd.found] at hle
  have hn := ha.nonneg hd.reservation
  have hu := ha.used hc
  have hm : 0 ≤ (p.entry.creditsCharged.minOf maxSettlementMicroCredits).val := hd.charge
  have hc' : e'.tables.cards.lookup p.entry.cardId = some { card with
      creditUsed     := card.creditUsed.satAdd (p.entry.creditsCharged.minOf maxSettlementMicroCredits)
      creditReserved := card.creditReserved.satSub r.reservedMicroCredits } := by
    rw [ht]
    exact lookup_insert _
  constructor
  · intro h
    have ⟨_, c, c', _, hl, hl', hv, _⟩ := h.charged
    rw [hc, Option.some.injEq] at hl
    rw [hc', Option.some.injEq] at hl'
    subst hl hl'
    simp only [I64.val_satAdd] at hv
    omega
  · intro h
    constructor
    case finished => simp [ht, Tables.debit]
    case settled => exact ⟨r.finish .settled, by rw [ht]; exact lookup_insert _, rfl⟩
    case charged =>
      have := card.creditReserved.upper
      refine ⟨r, card, _, hd.reservation, hc, hc', ?_, ?_⟩
      · simp only [I64.val_satAdd]
        omega
      · simp only [I64.val_satSub]
        omega
    case recorded => rw [ht]; rfl

-- Retrying a settlement in flight completes it unless the live ledger already has usage of the same
-- invocation id, from an earlier request, or the card's usage overflows.
theorem retry_completes_iff {e₀ : Engine F} {ls : List (Engine.Label F)}
    (run : Run Engine.Step e₀ ls e) (h₀ : e₀.Started)
    (hp : e.tables.pendingSettlements.lookup id = some p)
    (h : e.retryPendingSettlement io id = (.ok entry, e')) :
    Completed e id p e' ↔ Retriable e.tables id p := by
  have ha := (h₀.accounted run).live
  cases hf : e.tables.ledger.find? (·.isUsageOf id)
  case some u =>
    have hu := List.find?_some hf
    simp only [Engine.retryPendingSettlement, Tables.retryPendingSettlement, hf] at h
    cases h
    refine iff_of_false (fun h => h.finished (mem_of_lookup hp)) fun h => ?_
    simp [h.unbilled _ (List.mem_of_find?_eq_some hf)] at hu
  case none =>
    obtain ⟨r, card, hd⟩ := (ha.billed hp).debitable hp
    have htxn : e.tables.retryPendingSettlement id = e.tables.completePendingSettlement id p := by
      simp only [Tables.retryPendingSettlement, hf, hp, ofOption]
      rfl
    rw [completePendingSettlement_of_debitable hd] at htxn
    cases transact_eq_ok retryPendingSettlement_commits.publishes h
    case inl h => simp [htxn] at h
    case inr h =>
      obtain ⟨_, _, hw, hc⟩ := h
      rw [htxn] at hw
      cases hw
      rw [completed_of_debit ha hd (hc.tables_eq rfl)]
      constructor
      · intro hroom
        refine ⟨by simpa using List.find?_eq_none.mp hf, fun hl => ?_⟩
        have ho : p.entry.cardId = r.cardId := hd.owner
        rw [ho, hd.found, Option.some.injEq] at hl
        exact hl ▸ hroom
      · exact fun h => h.room (hd.owner ▸ hd.found)

-- It does succeed then, where saving works.
theorem retry_ok (ha : e.tables.Accounted) (hp : e.tables.pendingSettlements.lookup id = some p)
    (hr : Retriable e.tables id p)
    (hs : ∀ {r card}, e.Saves io (e.tables.debit id r card (e.tables.finalEntry id p))) :
    (e.retryPendingSettlement io id).1 = .ok (e.tables.finalEntry id p) := by
  have ⟨r, card, hd⟩ := (ha.billed hp).debitable hp
  have hf : e.tables.ledger.find? (·.isUsageOf id) = none :=
    List.find?_eq_none.mpr fun u hu => by simp [hr.unbilled u hu]
  have htxn : e.tables.retryPendingSettlement id = e.tables.completePendingSettlement id p := by
    simp only [Tables.retryPendingSettlement, hf, hp, ofOption]
    rfl
  rw [Engine.retryPendingSettlement, htxn, completePendingSettlement_of_debitable hd]
  exact transact_of_saves (normalize_of_receipts rfl) hs

end

-- A request whose settlement can't be saved.
def unsavedSettlement : List (Engine.Label ℚ) := [
  ⟨.reserve "card-1" "inv-1" .sample 10 100, {}⟩,
  ⟨.settle "inv-1" { outputTokens := 1000 } "model" "provider" "target" 20,
    { fault := some "disk full" }⟩
]

theorem retry_completes_unsavedSettlement :
    ∃ e p entry e', Run Engine.Step Engine.sample unsavedSettlement e ∧
      e.tables.pendingSettlements.lookup "inv-1" = some p ∧
      e.retryPendingSettlement {} "inv-1" = (.ok entry, e') ∧ Completed e "inv-1" p e' := by
  have hrun := run_execAll Engine.sample unsavedSettlement
  have hp : (((Engine.sample.execAll unsavedSettlement).tables.pendingSettlements.lookup
      "inv-1").map fun p => ((Engine.sample.execAll unsavedSettlement).tables.cards.lookup
        p.entry.cardId).all fun c => c.creditUsed.val +
          (p.entry.creditsCharged.minOf maxSettlementMicroCredits).val ≤ 9223372036854775807) =
            some true := by
    decide +kernel
  have hl : (Engine.sample.execAll unsavedSettlement).tables.ledger.length = 0 := by
    decide +kernel
  have hok : ((Engine.sample.execAll unsavedSettlement).retryPendingSettlement {}
      "inv-1").1.isOk := by
    decide +kernel
  generalize Engine.sample.execAll unsavedSettlement = e at hrun hp hl hok
  have ⟨p, hp, hroom⟩ := Option.map_eq_some_iff.mp hp
  have ⟨entry, hok⟩ := exists_of_isOk hok
  have h : e.retryPendingSettlement {} "inv-1" = (.ok entry, _) := Prod.ext hok rfl
  refine ⟨e, p, entry, _, hrun, hp, h, (retry_completes_iff hrun sample_started hp h).mpr ?_⟩
  refine ⟨by simp [List.length_eq_zero_iff.mp hl], fun hc => ?_⟩
  simpa only [hc, Option.all_some, decide_eq_true_eq] using hroom

-- A request, settled, and pruned by the janitor a day later. Its id is used again, and this time the
-- settlement can't be saved.
def reusedId : List (Engine.Label ℚ) := [
  ⟨.reserve "card-1" "inv-1" .sample 10 100, {}⟩,
  ⟨.settle "inv-1" { outputTokens := 1000 } "model" "provider" "target" 20, {}⟩,
  ⟨.runJanitor 90000, {}⟩,
  ⟨.reserve "card-1" "inv-1" .sample 90001 100, {}⟩,
  ⟨.settle "inv-1" { outputTokens := 1000 } "model" "provider" "target" 90002,
    { fault := some "disk full" }⟩
]

-- Retrying the second settlement answers with the first one's entry and leaves it pending.
theorem retry_answers_earlier_usage :
    ∃ e p entry e', Engine.sample.Started ∧ Run Engine.Step Engine.sample reusedId e ∧
      e.tables.pendingSettlements.lookup "inv-1" = some p ∧
      e.retryPendingSettlement {} "inv-1" = (.ok entry, e') ∧ ¬ Completed e "inv-1" p e' := by
  have hrun := run_execAll Engine.sample reusedId
  have hp : ((Engine.sample.execAll reusedId).tables.pendingSettlements.lookup "inv-1").isSome := by
    decide +kernel
  have hok : ((Engine.sample.execAll reusedId).retryPendingSettlement {} "inv-1").1.isOk := by
    decide +kernel
  have hm : "inv-1" ∈ ((Engine.sample.execAll reusedId).retryPendingSettlement {}
      "inv-1").2.tables.pendingSettlements := by
    decide +kernel
  generalize Engine.sample.execAll reusedId = e at hrun hp hok hm
  have ⟨p, hp⟩ := Option.isSome_iff_exists.mp hp
  have ⟨entry, hok⟩ := exists_of_isOk hok
  exact ⟨e, p, entry, _, sample_started, hrun, hp, Prod.ext hok rfl, fun h => h.finished hm⟩

end Billing
