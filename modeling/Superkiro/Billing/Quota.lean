import Superkiro.Billing.Usage
import Superkiro.Billing.Turns

namespace Billing

open F64 Except Host AList

-- The starts of the quota day and of the rolling month.
def dayStart (now : Nat) : Nat := now / 86400 * 86400

def monthStart (now : Nat) : Nat := now - 30 * 86400

-- Whether what a card used from some time on, and what it holds, are within a limit. Short of the
-- greatest amount there is, that is about what they exactly are.
def Tables.Within (t : Tables F) (k : String) (since : Nat) (limit : Option I64) : Prop :=
  ∀ l ∈ limit, (t.usageSince k since).satAdd (t.held k) ≤ l ∧
    (l < .maxValue → t.spentSince k since + t.heldCredits k ≤ l.val)

-- The card that an operation takes credit of, or lays by credit of, and when.
def Op.admission (t : Tables F) : Op F → Option (String × Nat)
  | .reserve cardId _ _ now _             => some (cardId, now)
  | .extendReservation id _ now           => (t.reservations.lookup id).map fun r => (r.cardId, now)
  | .chargeResponseTemplate _ _ _ r now   => some (r.cardId, now)
  | _                                     => none

section

variable {t t' : Tables F} {card : Card} {k : String} {since now : Nat} {x : I64}

theorem checkLimit_eq_ok {limit : Option I64} {e : I64 → I64 → I64 → I64 → BillingError} :
    Tables.checkLimit limit current held x e = .ok u ↔ ∀ l ∈ limit, x ≤ l.satSub current := by
  cases limit
  case none => simp [Tables.checkLimit, pure, Except.pure]
  case some => simp [Tables.checkLimit, ensure_eq_ok]

theorem checkQuota_eq_ok : t.checkQuota card x now = .ok u ↔
    (∀ {id p}, t.pendingSettlements.lookup id = some p → p.entry.cardId ≠ card.id) ∧
    (∀ l ∈ card.dailyCreditLimit,
      x ≤ l.satSub ((t.usageSince card.id (dayStart now)).satAdd (t.held card.id))) ∧
    (∀ l ∈ card.monthlyCreditLimit,
      x ≤ l.satSub ((t.usageSince card.id (monthStart now)).satAdd (t.held card.id))) := by
  refine ⟨fun h => ⟨noPending_of_checkQuota h, ?_⟩, fun h => ?_⟩
  · simp only [Tables.checkQuota, bind_eq_ok', exists_unit, checkLimit_eq_ok] at h
    exact h.right
  · simp only [Tables.checkQuota, bind_eq_ok', exists_unit, checkLimit_eq_ok, ensure_eq_ok]
    refine ⟨?_, h.right⟩
    obtain ⟨hp, _⟩ := h
    simp only [Bool.not_eq_true', List.any_eq_false, decide_eq_true_eq, mem_values]
    rintro p ⟨id, hid⟩
    exact hp hid

-- What fits a limit by the check is within it once it's used or held.
theorem Tables.Within.of_check {limit : Option I64} (hb : t.Bucketed) (hb' : t'.Bucketed)
    (ha : t.Accounted) (ha' : t'.Accounted) (hx : 0 ≤ x.val)
    (hc : ∀ l ∈ limit, x ≤ l.satSub ((t.usageSince k since).satAdd (t.held k)))
    (h : t'.spentSince k since + t'.heldCredits k = t.spentSince k since + t.heldCredits k + x.val) :
    t'.Within k since limit := by
  intro l hl
  have hc : x.val ≤ _ := hc l hl
  have : 0 ≤ t.spentSince k since := hb.spentSince_nonneg
  have : 0 ≤ t'.spentSince k since := hb'.spentSince_nonneg
  have := ha.held_nonneg k
  have := ha'.held_nonneg k
  have := l.upper
  simp only [I64.val_satSub, I64.val_satAdd, hb.usageSince_val, ha.held_val] at hc
  refine ⟨?_, fun hm => ?_⟩
  · rw [I64.le_def, I64.val_satAdd, hb'.usageSince_val, ha'.held_val]
    omega
  · have hm : l.val < _ := hm
    rw [I64.val_maxValue] at hm
    omega

-- Credit of a card that was checked, and is used or held now.
structure Granted (t t' : Tables F) (k : String) (now : Nat) (card : Card) (x : I64) : Prop where
  found  : t.cards.lookup k = some card
  quota  : t.checkQuota card x now = .ok ()
  noDebt : card.outstandingDebt ≤ 0
  nonneg : 0 ≤ x.val
  grown  : ∀ since ≤ now, t'.spentSince k since + t'.heldCredits k =
    t.spentSince k since + t.heldCredits k + x.val

theorem Granted.within (h : Granted t t' k now card x) (hb : t.Bucketed) (hb' : t'.Bucketed)
    (ha : t.Accounted) (ha' : t'.Accounted) :
    (∀ {id p}, t.pendingSettlements.lookup id = some p → p.entry.cardId ≠ k) ∧
    t'.Within k (dayStart now) card.dailyCreditLimit ∧
    t'.Within k (monthStart now) card.monthlyCreditLimit := by
  have hid : card.id = k := ha.keyed.cards h.found
  have ⟨hp, hday, hmonth⟩ := checkQuota_eq_ok.mp h.quota
  rw [hid] at hday hmonth
  refine ⟨fun hl => hid ▸ hp hl, ?_, ?_⟩
  · exact .of_check hb hb' ha ha' h.nonneg hday (h.grown _ (Nat.div_mul_le_self _ _))
  · exact .of_check hb hb' ha ha' h.nonneg hmonth (h.grown _ (Nat.sub_le _ _))

end

section

variable [F64 F] {t : Tables F} {r : CreditReservation F} {card : Card}

theorem Holdable.granted (h : Holdable t card r)
    (hq : t.checkQuota card r.reservedMicroCredits now = .ok ()) (hd : card.outstandingDebt ≤ 0) :
    Granted t (t.holdWith card r) r.cardId now card r.reservedMicroCredits where
  found  := h.found
  quota  := hq
  noDebt := hd
  nonneg := h.nonneg
  grown since _ := by
    have hz : ((t.reservations.lookup r.invocationId).map (·.hold r.cardId)).getD 0 = 0 := by
      cases ho : t.reservations.lookup r.invocationId
      case none => rfl
      case some old => exact hold_of_terminal (by simp [(h.free ho).left])
    have hs : (t.holdWith card r).spentSince r.cardId since = t.spentSince r.cardId since :=
      Tables.spentSince_congr rfl rfl
    have hh : (t.holdWith card r).heldCredits r.cardId =
        t.heldCredits r.cardId + r.reservedMicroCredits.val := by
      rw [Tables.heldCredits, Tables.holdWith, total_insert', hz, hold_of_held h.held, sub_zero,
        Tables.heldCredits]
    rw [hs, hh, add_assoc]

omit [F64 F] in
theorem Extendable.granted {id : String} {old : CreditReservation F}
    (h : Extendable t id card reserved r) (ho : t.reservations.lookup id = some old)
    (hn : 0 ≤ old.reservedMicroCredits.val) (hle : old.reservedMicroCredits ≤ r.reservedMicroCredits)
    (hq : t.checkQuota card (r.reservedMicroCredits.satSub old.reservedMicroCredits) now = .ok ())
    (hd : card.outstandingDebt ≤ 0) :
    Granted t (t.extendWith id card reserved r) r.cardId now card
      (r.reservedMicroCredits.satSub old.reservedMicroCredits) where
  found  := h.found
  quota  := hq
  noDebt := hd
  nonneg := by
    have hle : old.reservedMicroCredits.val ≤ r.reservedMicroCredits.val := hle
    rw [I64.val_satSub]
    omega
  grown since _ := by
    have hle : old.reservedMicroCredits.val ≤ r.reservedMicroCredits.val := hle
    have := r.reservedMicroCredits.upper
    have ⟨old', ho', hh, hr, _⟩ := h.grows
    rw [ho, Option.some.injEq] at ho'
    subst ho'
    have hc : old.cardId = r.cardId := by rw [hr]
    have hs : r.state = .held := by rw [hr, hh]
    have hspent : (t.extendWith id card reserved r).spentSince r.cardId since =
        t.spentSince r.cardId since := Tables.spentSince_congr rfl rfl
    have hheld : (t.extendWith id card reserved r).heldCredits r.cardId = t.heldCredits r.cardId -
        old.reservedMicroCredits.val + r.reservedMicroCredits.val := by
      rw [Tables.heldCredits, Tables.extendWith, total_insert', ho, hold_of_held hs,
        Tables.heldCredits, Option.map_some, Option.getD_some, ←hc, hold_of_held hh]
    rw [hspent, hheld, I64.val_satSub]
    omega

omit [F64 F] in
theorem Chargeable.granted [TemplateHost] {entry : LedgerEntry F} {r : ResponseTemplateReceipt}
    {old : Card} (h : Chargeable t card entry r) (hk : t.Keyed)
    (ho : t.cards.lookup r.cardId = some old)
    (hq : t.checkQuota old r.priceMicrocredits r.createdAtSecs = .ok ())
    (hd : old.outstandingDebt ≤ 0) :
    Granted t (t.charged card entry r) r.cardId r.createdAtSecs old r.priceMicrocredits where
  found  := ho
  quota  := hq
  noDebt := hd
  nonneg := validateReceipt_price h.valid
  grown since hs := by
    have ⟨old', ho', he, _⟩ := h.found
    rw [ho, Option.some.injEq] at ho'
    have hold : old.id = r.cardId := hk.cards ho
    have hid : card.id = r.cardId := by rw [he, ←ho', hold]
    have ⟨revision, ruleId, hentry⟩ := h.billed
    have hspent : (t.charged card entry r).spentSince r.cardId since =
        t.spentSince r.cardId since + r.priceMicrocredits.val := by
      have hl : (t.charged card entry r).ledger = t.ledger ++ [entry] := rfl
      rw [Tables.spentSince_concat hl rfl, hentry]
      simp [Tables.templateEntry, hid, LedgerEntry.spentSince, hs]
    have hheld : (t.charged card entry r).heldCredits r.cardId = t.heldCredits r.cardId := rfl
    rw [hspent, hheld]
    omega

end

-- A hold that was there, of the same card and of no less.
def Tables.HeldBefore (t : Tables F) (id : String) (r' : CreditReservation F) : Prop :=
  ∃ r, t.reservations.lookup id = some r ∧ r.state = .held ∧ r.cardId = r'.cardId ∧
    r'.reservedMicroCredits ≤ r.reservedMicroCredits

section

variable [F64 F] [Host F] {t t' : Tables F} {c : Change F} {id : String} {r' : CreditReservation F}

-- Only taking holds, and extending them, makes any or makes them larger.
theorem Change.Step.heldBefore (h : Step t c t') (hk : t.Keyed)
    (hhold : ∀ {card r}, c ≠ .hold card r)
    (hext : ∀ {id card reserved r}, c ≠ .extend id card reserved r)
    (hl : t'.reservations.lookup id = some r') (hh : r'.state = .held) : t.HeldBefore id r' := by
  have hsame (hl : t.reservations.lookup id = some r') : t.HeldBefore id r' :=
    ⟨r', hl, hh, rfl, Int.le_refl _⟩
  have hfinish {id' : String} {r : CreditReservation F} {s} (hs : s ≠ ReservationState.held)
      (hl : (t.reservations.insert id' (r.finish s)).lookup id = some r') :
      t.HeldBefore id r' := by
    rcases lookup_insert_iff.mp hl with ⟨_, he⟩ | ⟨_, hl⟩
    · rw [←he] at hh
      exact absurd hh hs
    · exact hsame hl
  cases h
  case hold => exact absurd rfl hhold
  case extend => exact absurd rfl hext
  case debit => exact hfinish (s := .settled) nofun hl
  case release => exact hfinish (s := .released) nofun hl
  case clean active now =>
    have ⟨r, hr, he, _⟩ := (Tables.lookup_clean hk).mp hl
    subst he
    have hs := Tables.reclaimed_of_held hh
    refine ⟨r, hr, hs ▸ hh, by rw [hs], ?_⟩
    rw [Tables.reclaimed_reservedMicroCredits]
    exact Int.le_refl _
  case publish h =>
    rw [h.configured] at hl
    exact hsame hl
  case recover =>
    cases Tables.lookup_recovered_cases hl
    case inl h => exact hsame h.left
    case inr h =>
      have ⟨_, _, _, _, he⟩ := h
      rw [he] at hh
      cases hh
  all_goals exact hsame hl

end

namespace Engine

variable [F64 F] [Host F] {e : Engine F} {io : Io} {op : Op F} {id : String}
variable {r' : CreditReservation F}

-- An operation that succeeds in taking credit of a card, or laying it by, was granted it.
theorem exec_granted (ha : e.tables.Accounted) (hop : op.admission e.tables = some (k, now))
    (hok : (e.outcome io op).isOk) :
    ∃ card x, Granted e.tables (e.exec io op).tables k now card x := by
  cases op <;> simp only [Op.admission, Option.some.injEq, Prod.mk.injEq, reduceCtorEq] at hop
  case reserve cardId id p now' ttl =>
    obtain ⟨hk, hn⟩ := hop
    subst hk hn
    simp only [outcome, exec, reserve] at hok ⊢
    cases h : e.newReservation cardId id p now' ttl
    case error => simp [h, Except.map, Except.isOk, Except.toBool] at hok
    case ok cr =>
      have hr := newReservation_eq_ok h
      exact ⟨cr.1, _, hr.owner ▸ hr.holdable.granted hr.quota hr.noDebt⟩
  case extendReservation id amount now' =>
    obtain ⟨r, hr, hk⟩ := Option.map_eq_some_iff.mp hop
    injection hk with hk hn
    subst hk hn
    simp only [outcome, exec] at hok ⊢
    obtain ⟨a, hok⟩ := isOk_map.mp hok
    cases transact_eq_ok extendReservation_commits.publishes (Prod.ext hok rfl)
    case inl h =>
      obtain ⟨_, _, _, _, _, _, _, _, h⟩ := extendReservation_eq_ok h.left
      cases h
    case inr h =>
      obtain ⟨c, pub, h, hc⟩ := h
      obtain ⟨r', card, reserved, hr', he, hle, hd, hq, h⟩ := extendReservation_eq_ok h
      rw [hr, Option.some.injEq] at hr'
      subst hr'
      cases h
      rw [extendReservation, hc.tables_eq rfl]
      exact ⟨card, _, he.granted hr (ha.nonneg hr) hle hq hd⟩
  case chargeResponseTemplate revision ruleId modelId r now' =>
    obtain ⟨hk, hn⟩ := hop
    subst hk hn
    simp only [outcome, exec] at hok ⊢
    obtain ⟨a, hok⟩ := isOk_map.mp hok
    cases transact_eq_ok templateCharge_commits.publishes (Prod.ext hok rfl)
    case inl h =>
      obtain ⟨_, _, _, _, h⟩ := templateCharge_eq_ok h.left
      cases h
    case inr h =>
      obtain ⟨c, pub, h, hc⟩ := h
      obtain ⟨old, card, entry, ht, h⟩ := templateCharge_eq_ok h
      cases h
      rw [chargeResponseTemplate, (ht.normalized hc.normalized).left]
      exact ⟨old, _, ht.chargeable.granted ha.keyed ht.found ht.quota ht.noDebt⟩

theorem exec_heldBefore_of_ne (hk : e.tables.Keyed) (hop : op ≠ .reload)
    (hres : ∀ {cardId id p now ttl}, op ≠ .reserve cardId id p now ttl)
    (hext : ∀ {id amount now}, op ≠ .extendReservation id amount now)
    (hl : (e.exec io op).tables.reservations.lookup id = some r') (hh : r'.state = .held) :
    e.tables.HeldBefore id r' := by
  have ⟨⟨cs, hr, hm⟩, _⟩ := exec_effect (e := e) io op (by rwa [source_eq hop])
  rw [source_eq hop] at hr hm
  let P (t : Tables F) := t.Keyed ∧ ∀ {r'}, t.reservations.lookup id = some r' →
    r'.state = .held → e.tables.HeldBefore id r'
  have hp : P (e.exec io op).tables := by
    refine hr.preserves_mem (I := P) ?_ ⟨hk, fun hl hh => ⟨_, hl, hh, rfl, Int.le_refl _⟩⟩
    intro t c t' hc ⟨hk, hb⟩ hs
    refine ⟨hs.keyed hk, fun hl hh => ?_⟩
    have ⟨r, hr, hrh, ho, hle⟩ := hs.heldBefore hk (fun he => ?_) (fun he => ?_) hl hh
    · have ⟨r₀, hr₀, hh₀, ho₀, hle₀⟩ := hb hr hrh
      exact ⟨r₀, hr₀, hh₀, ho₀.trans ho, Int.le_trans hle hle₀⟩
    · subst he
      cases hm _ hc
      exact hres rfl
    · subst he
      cases hm _ hc
      exact hext rfl
  exact hp.right hl hh

-- Nothing else that may be asked gives a card a new hold, or a larger one.
theorem exec_heldBefore (hk : e.tables.Keyed) (hop : op ≠ .reload)
    (hl : (e.exec io op).tables.reservations.lookup id = some r') (hh : r'.state = .held) :
    e.tables.HeldBefore id r' ∨
      ((e.outcome io op).isOk ∧ ∃ now, op.admission e.tables = some (r'.cardId, now)) := by
  have hsame (h : (e.exec io op).tables = e.tables) : e.tables.HeldBefore id r' :=
    ⟨r', h ▸ hl, hh, rfl, Int.le_refl _⟩
  by_cases hres : ∃ cardId id p now ttl, op = .reserve cardId id p now ttl
  case pos =>
    obtain ⟨cardId, id', p, now, ttl, hop⟩ := hres
    subst hop
    simp only [outcome, exec, reserve] at hl hsame ⊢
    cases h : e.newReservation cardId id' p now ttl
    case error => exact .inl (hsame (by rw [h]))
    case ok cr =>
      rw [h] at hl
      have hr := newReservation_eq_ok h
      rcases lookup_insert_iff.mp hl with ⟨_, he⟩ | ⟨_, hl⟩
      · exact .inr ⟨rfl, now, by rw [Op.admission, ←he, hr.owner]⟩
      · exact .inl ⟨r', hl, hh, rfl, Int.le_refl _⟩
  case neg =>
    by_cases hext : ∃ id amount now, op = .extendReservation id amount now
    case pos =>
      obtain ⟨id', amount, now, hop⟩ := hext
      subst hop
      simp only [outcome, exec, extendReservation] at hl hsame ⊢
      by_cases hok : ((e.transact io (e.tables.extendReservation id' amount now)).1.map
          fun _ => ()).isOk
      case neg =>
        exact .inl (hsame (transact_failed extendReservation_commits.publishes hok))
      case pos =>
        obtain ⟨a, ha⟩ := isOk_map.mp hok
        cases transact_eq_ok extendReservation_commits.publishes (Prod.ext ha rfl)
        case inl h => exact .inl (hsame (congrArg (·.tables) h.right))
        case inr h =>
          obtain ⟨c, pub, h, hc⟩ := h
          obtain ⟨r, _, _, hr, _, _, _, _, h⟩ := extendReservation_eq_ok h
          cases h
          rw [hc.tables_eq rfl] at hl
          rcases lookup_insert_iff.mp hl with ⟨_, he⟩ | ⟨_, hl⟩
          · exact .inr ⟨hok, now, by rw [Op.admission, hr, ←he]; rfl⟩
          · exact .inl ⟨r', hl, hh, rfl, Int.le_refl _⟩
    case neg =>
      simp only [not_exists] at hres hext
      exact .inl (exec_heldBefore_of_ne hk hop (hres _ _ _ _ _) (hext _ _ _) hl hh)

theorem Started.bucketed {e₀ : Engine F} {ls : List (Label F)} (h : e₀.Started)
    (run : Run Step e₀ ls e) : e.tables.Bucketed := by
  let P (t : Tables F) := t.Keyed ∧ t.Bucketed
  have h₀ : e₀.Invariant P := h.invariant.mono fun h => ⟨h.keyed, h.bucketed⟩
  exact (h₀.run And.left (fun h hs => ⟨hs.keyed h.left, hs.bucketed h.right⟩) run).live.right

end Engine

section

variable [F64 F] [Host F] {e₀ e : Engine F} {ls : List (Engine.Label F)}

-- Credit is only taken of a card, or laid by, within its limits, and not while it's in debt or a
-- settlement of it is pending. Nothing else gives it a hold.
theorem quota_admission (run : Run Engine.Step e₀ ls e) (h₀ : e₀.Started) (io : Io) (op : Op F) :
    (∀ {k now}, op.admission e.tables = some (k, now) → (e.outcome io op).isOk →
      ∃ c c', e.tables.cards.lookup k = some c ∧
        (e.exec io op).tables.cards.lookup k = some c' ∧ c'.terms = c.terms ∧
        c.outstandingDebt ≤ 0 ∧
        (∀ {id p}, e.tables.pendingSettlements.lookup id = some p → p.entry.cardId ≠ k) ∧
        (e.exec io op).tables.Within k (dayStart now) c'.dailyCreditLimit ∧
        (e.exec io op).tables.Within k (monthStart now) c'.monthlyCreditLimit) ∧
    (op ≠ .reload → ∀ {id r'}, (e.exec io op).tables.reservations.lookup id = some r' →
      r'.state = .held → e.tables.HeldBefore id r' ∨
        ((e.outcome io op).isOk ∧ ∃ now, op.admission e.tables = some (r'.cardId, now))) := by
  have hk := h₀.keyed run
  have ha := (h₀.accounted run).live
  have run' : Run Engine.Step e₀ (ls ++ [⟨op, io⟩]) (e.exec io op) := run.trans (.single rfl)
  refine ⟨fun hadm hok => ?_, fun hop => Engine.exec_heldBefore hk hop⟩
  have ⟨c, x, hg⟩ := Engine.exec_granted ha hadm hok
  have hop : op ≠ .reload := by
    rintro rfl
    cases hadm
  have ⟨_, c', hc', ht, _⟩ := Engine.exec_turned io hk hop hg.found
  have ⟨hp, hday, hmonth⟩ := hg.within (h₀.bucketed run) (h₀.bucketed run') ha
    (h₀.accounted run').live
  have hd : c'.dailyCreditLimit = c.dailyCreditLimit := congrArg CardTerms.dailyCreditLimit ht.terms
  have hm : c'.monthlyCreditLimit = c.monthlyCreditLimit :=
    congrArg CardTerms.monthlyCreditLimit ht.terms
  exact ⟨c, c', hg.found, hc', ht.terms, hg.noDebt, hp, hd ▸ hday, hm ▸ hmonth⟩

end

-- An engine with a card that may be used for a tenth of a credit each day.
def Card.limited : Card := { Card.sample with dailyCreditLimit := some 100000 }

theorem quota_admission_limited :
    let e := (Engine.ofCard .limited).exec {} (.reserve "card-1" "inv-1" .sample 10 100)
    e.tables.Within "card-1" 0 (some 100000) ∧ e.tables.held "card-1" = 75000 := by
  let op : Op ℚ := .reserve "card-1" "inv-1" .sample 10 100
  have hok : ((Engine.ofCard .limited).outcome {} op).isOk := by decide +kernel
  have hstart : (Engine.ofCard .limited).Started := ofCard_started rfl rfl rfl (by decide)
  have ⟨_, c', _, hc', _, _, _, hd, _⟩ := (quota_admission .nil hstart {} op).left rfl hok
  have hlimit : (((Engine.ofCard .limited).exec {} op).tables.cards.lookup "card-1").map
      (·.dailyCreditLimit) = some (some 100000) := by decide +kernel
  rw [hc', Option.map_some, Option.some.injEq] at hlimit
  exact ⟨hlimit ▸ hd, by decide +kernel⟩

end Billing
