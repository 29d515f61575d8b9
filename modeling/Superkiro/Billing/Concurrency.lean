import Superkiro.Billing.Process
import Superkiro.Billing.Quota
import Superkiro.Billing.Retry

namespace Billing

open F64 Except Host AList

-- How many requests of a card are in flight.
def Tables.heldCount (t : Tables F) (k : String) : Int :=
  t.reservations.total fun _ r => if r.cardId = k ∧ r.state = .held then 1 else 0

section

variable {t t' : Tables F} {k id : String} {r r' : CreditReservation F}

theorem length_heldBy (t : Tables F) (k : String) : ((t.heldBy k).length : Int) = t.heldCount k := by
  have h := sum_values_filter (t := t.reservations) (fun r => r.cardId = k && r.state = .held)
    (fun _ => (1 : Int))
  simpa [Tables.heldBy, Tables.heldCount] using h

-- There are no more requests in flight when every one was before.
theorem heldCount_le (h : ∀ {id r'}, t'.reservations.lookup id = some r' → r'.state = .held →
      ∃ r, t.reservations.lookup id = some r ∧ r.state = .held ∧ r.cardId = r'.cardId) :
    t'.heldCount k ≤ t.heldCount k := by
  refine total_le_of_lookup (fun _ r _ => by split <;> omega) fun id r' hr' => ?_
  by_cases hh : r'.cardId = k ∧ r'.state = .held
  case pos =>
    have ⟨r, hr, hs, ho⟩ := h hr' hh.right
    simp [hr, hs, ho, hh]
  case neg =>
    rw [if_neg hh]
    cases t.reservations.lookup id
    case none => simp
    case some r => dsimp only [Option.map_some, Option.getD_some]; split <;> omega

theorem heldCount_eq_zero (h : ∀ {id r}, t.reservations.lookup id = some r → r.state ≠ .held) :
    t.heldCount k = 0 :=
  total_eq_zero fun _ _ hr => by simp [h hr]

end

section

variable [F64 F] [Host F] {t t' : Tables F} {c : Change F} {card : Card}
variable {r : CreditReservation F}

omit [Host F] in
theorem Holdable.heldCount (h : Holdable t card r) : (t.holdWith card r).heldCount k =
    t.heldCount k + if r.cardId = k then 1 else 0 := by
  have hz : ((t.reservations.lookup r.invocationId).map fun r =>
      if r.cardId = k ∧ r.state = .held then (1 : Int) else 0).getD 0 = 0 := by
    cases ho : t.reservations.lookup r.invocationId
    case none => rfl
    case some old => simp [(h.free ho).left]
  rw [Tables.heldCount, Tables.holdWith, total_insert', hz, Tables.heldCount]
  simp [h.held]

-- Only taking a hold makes one.
theorem Change.Step.inFlight {id : String} {r' : CreditReservation F} (h : Step t c t')
    (hk : t.Keyed) (hhold : ∀ {card r}, c ≠ .hold card r)
    (hl : t'.reservations.lookup id = some r') (hh : r'.state = .held) :
    ∃ r, t.reservations.lookup id = some r ∧ r.state = .held ∧ r.cardId = r'.cardId := by
  by_cases hext : ∃ id card reserved r, c = .extend id card reserved r
  case pos =>
    have ⟨id, card, reserved, r, hc⟩ := hext
    subst hc
    cases h
    case extend h =>
      have ⟨old, ho, hh', hr, _⟩ := h.grows
      rcases lookup_insert_iff.mp hl with ⟨he, hr'⟩ | ⟨_, hl⟩
      · exact ⟨old, he ▸ ho, hh', by rw [←hr', hr]⟩
      · exact ⟨r', hl, hh, rfl⟩
  case neg =>
    simp only [not_exists] at hext
    have ⟨r, hr, hs, ho, _⟩ := h.heldBefore hk hhold (hext _ _ _ _) hl hh
    exact ⟨r, hr, hs, ho⟩

end

namespace Engine

variable [F64 F] [Host F] {e : Engine F} {io : Io} {op : Op F}

-- Only a wait that begins takes a slot for it.
theorem exec_waits (hop : ∀ {revision ruleId modelId cardId id now},
      op ≠ .beginResponseTemplateWait revision ruleId modelId cardId id now) :
    (e.exec io op).templateWaits ⊆ e.templateWaits := by
  by_cases hl : op.isLocal
  case neg => exact (congrArg Process.templateWaits (exec_process hl)).subset
  case pos =>
    cases op
    case beginResponseTemplateWait => exact absurd rfl hop
    case adjustCardBalance a =>
      exact (congrArg Process.templateWaits (adjustCardBalance_process a)).subset
    case dropWaitSlot => exact Finset.erase_subset _ _
    case protect => exact subset_rfl
    case restart => exact Finset.empty_subset _
    case reload =>
      simp only [exec, reload]
      split
      case h_1 => exact Finset.empty_subset _
      case h_2 => exact subset_rfl
    all_goals cases hl

-- The template waits of a card.
def waitsOf (e : Engine F) (k : String) : Finset (String × String) := e.templateWaits.filter (·.1 = k)

omit [F64 F] [Host F] in
theorem activeCardConcurrency_eq (e : Engine F) (k : String) :
    (e.activeCardConcurrency k none : Int) = e.tables.heldCount k + (e.waitsOf k).card := by
  rw [activeCardConcurrency, Nat.cast_add, length_heldBy]
  simp [waitsOf]

-- An operation leaves every card there, under its terms.
theorem exec_terms (io : Io) (hk : (e.source op).Keyed) (ho : (e.source op).cards.lookup k = some old) :
    ∃ new, (e.exec io op).tables.cards.lookup k = some new ∧ new.terms = old.terms := by
  have ⟨⟨cs, hr, _⟩, _⟩ := exec_effect io op hk
  let P (t : Tables F) := t.Keyed ∧ ∃ new, t.cards.lookup k = some new ∧ new.terms = old.terms
  refine (hr.preserves (I := P) (fun ⟨hk, c, hc, ht⟩ hs => ⟨hs.keyed hk, ?_⟩) ⟨hk, old, ho, rfl⟩).right
  have ⟨c', hc', ht'⟩ := hs.turned hk hc
  exact ⟨c', hc', ht'.terms.trans ht⟩

-- Only reserving takes a request in flight.
theorem exec_heldCount (io : Io) (hk : (e.source op).Keyed)
    (hop : ∀ {cardId id p now ttl}, op ≠ .reserve cardId id p now ttl) :
    (e.exec io op).tables.heldCount k ≤ (e.source op).heldCount k := by
  have ⟨⟨cs, hr, hm⟩, _⟩ := exec_effect io op hk
  let P (t : Tables F) := t.Keyed ∧ t.heldCount k ≤ (e.source op).heldCount k
  refine (hr.preserves_mem (I := P) (fun {t c t'} hc ⟨hk, hle⟩ hs => ⟨hs.keyed hk, ?_⟩)
    ⟨hk, Int.le_refl _⟩).right
  refine Int.le_trans (heldCount_le (hs.inFlight hk fun he => ?_)) hle
  subst he
  cases hm _ hc
  exact hop rfl

omit [F64 F] [Host F] in
-- A wait that is admitted takes a slot.
theorem beginWait_cases {id : String}
    (h : e.beginResponseTemplateWait revision ruleId modelId cardId id now = (r, e')) :
    ((∃ err, r = .error err) ∧ e' = e) ∨
    ∃ card, e.tables.cards.lookup cardId = some card ∧
      e.activeCardConcurrency cardId none < card.maxConcurrency ∧ r = .ok () ∧
      e' = { e with templateWaits := insert (cardId, id) e.templateWaits } := by
  simp only [beginResponseTemplateWait] at h
  split at h
  case h_2 err _ =>
    cases h
    exact .inl ⟨⟨err, rfl⟩, rfl⟩
  case h_1 ha =>
    simp only [checkConcurrency, bind_eq_ok', exists_unit, ensure_eq_ok, ofOption_eq_ok,
      getCard_eq_ok, decide_eq_true_eq] at ha
    obtain ⟨_, _, _, _, card, hc, _, _, hroom, _⟩ := ha
    cases h
    exact .inr ⟨card, hc, hroom, rfl, rfl⟩

end Engine

-- Tables with a card that admits so many requests, and no more in flight.
structure Tables.Seated (k : String) (max : Nat) (t : Tables F) : Prop where
  keyed : t.Keyed
  card  : ∃ c, t.cards.lookup k = some c ∧ c.maxConcurrency = max
  count : t.heldCount k ≤ max

namespace Engine

variable [F64 F] [Host F] {e : Engine F} {io : Io} {op : Op F} {max : Nat}

omit [F64 F] [Host F] in
theorem card_insert_wait_le (e : Engine F) (k cardId id : String) :
    ((insert (cardId, id) e.templateWaits).filter (·.1 = k)).card ≤
      (e.waitsOf k).card + if cardId = k then 1 else 0 := by
  rw [Finset.filter_insert, waitsOf]
  split
  case isTrue => exact Finset.card_insert_le _ _
  case isFalse => simp

omit [F64 F] [Host F] in
theorem activeCardConcurrency_le : e.activeCardConcurrency k none ≤ max ↔
    e.tables.heldCount k + (e.waitsOf k).card ≤ max := by
  rw [←activeCardConcurrency_eq, Nat.cast_le]

omit [Host F] in
theorem reserve_count {id : String} (hf : e.tables.cards.lookup k = some c) (hm : c.maxConcurrency = max)
    (hc : e.activeCardConcurrency k none ≤ max) :
    (e.reserve cardId id p now ttl).2.activeCardConcurrency k none ≤ max := by
  simp only [reserve]
  split
  case h_1 => exact hc
  case h_2 card r hr =>
    have hr := newReservation_eq_ok hr
    have hheld := hr.holdable.heldCount (k := k)
    rw [activeCardConcurrency_le] at hc ⊢
    change (e.tables.holdWith card r).heldCount k + ((e.waitsOf k).card : Int) ≤ max
    by_cases hk : r.cardId = k
    case pos =>
      have hroom := hr.room
      have hcard := hr.holdable.found
      rw [hk, hf, Option.some.injEq] at hcard
      rw [←hr.owner, hk, ←hcard, hm, Nat.lt_iff_add_one_le] at hroom
      have := activeCardConcurrency_eq e k
      rw [if_pos hk] at hheld
      omega
    case neg =>
      rw [if_neg hk] at hheld
      omega

omit [F64 F] [Host F] in
theorem beginWait_count {id : String} (hf : e.tables.cards.lookup k = some c)
    (hm : c.maxConcurrency = max) (hc : e.activeCardConcurrency k none ≤ max) :
    (e.beginResponseTemplateWait revision ruleId modelId cardId id now).2.activeCardConcurrency k
      none ≤ max := by
  generalize hb : e.beginResponseTemplateWait revision ruleId modelId cardId id now = b
  have ⟨r, e'⟩ := b
  rcases beginWait_cases hb with ⟨_, he⟩ | ⟨card, hcard, hroom, _, he⟩
  · exact he ▸ hc
  · have hw := e.card_insert_wait_le k cardId id
    rw [activeCardConcurrency_le] at hc ⊢
    subst he
    change e.tables.heldCount k +
      (((insert (cardId, id) e.templateWaits).filter (·.1 = k)).card : Int) ≤ max
    by_cases hk : cardId = k
    case pos =>
      subst hk
      rw [hf, Option.some.injEq] at hcard
      rw [←hcard, hm] at hroom
      have := activeCardConcurrency_eq e cardId
      rw [if_pos rfl] at hw
      omega
    case neg =>
      rw [if_neg hk] at hw
      omega

omit [F64 F] in
theorem reload_cases : e.reload = e ∨ e.reload.templateWaits = ∅ := by
  simp only [reload]
  split
  case h_1 => exact .inr rfl
  case h_2 => exact .inl rfl

-- No operation takes a card beyond its limit.
theorem exec_count (io : Io) (op : Op F) (h : e.Invariant (Tables.Seated k max))
    (hc : e.activeCardConcurrency k none ≤ max) :
    (e.exec io op).activeCardConcurrency k none ≤ max := by
  have ⟨c, hf, hm⟩ := h.live.card
  by_cases hres : ∃ cardId id p now ttl, op = .reserve cardId id p now ttl
  case pos =>
    have ⟨cardId, id, p, now, ttl, hop⟩ := hres
    subst hop
    exact reserve_count hf hm hc
  case neg =>
    by_cases hwait : ∃ revision ruleId modelId cardId id now,
        op = .beginResponseTemplateWait revision ruleId modelId cardId id now
    case pos =>
      have ⟨revision, ruleId, modelId, cardId, id, now, hop⟩ := hwait
      subst hop
      exact beginWait_count hf hm hc
    case neg =>
      simp only [not_exists] at hres hwait
      have hsource : Tables.Seated k max (e.source op) := h.source
      have hheld := exec_heldCount (k := k) io hsource.keyed (hres _ _ _ _ _)
      rw [activeCardConcurrency_le] at hc ⊢
      by_cases hreload : op = .reload
      case pos =>
        subst hreload
        rcases reload_cases (e := e) with hr | hw
        · rwa [exec, hr]
        · have := hsource.count
          have hw : (e.exec io .reload).waitsOf k = ∅ := by simp [exec, waitsOf, hw]
          rw [hw, Finset.card_empty]
          omega
      case neg =>
        have hw : ((e.exec io op).waitsOf k).card ≤ (e.waitsOf k).card :=
          Finset.card_le_card (Finset.filter_subset_filter _ (exec_waits (hwait _ _ _ _ _ _)))
        rw [source_eq hreload] at hheld
        omega

theorem exec_seated (h : e.Invariant (Tables.Seated k max))
    (hc : e.activeCardConcurrency k none ≤ max) :
    (e.exec io op).Invariant (Tables.Seated k max) := by
  have hs : Tables.Seated k max (e.source op) := h.source
  have hc' := activeCardConcurrency_le.mp (exec_count io op h hc)
  have ⟨⟨cs, hr, _⟩, hd⟩ := exec_effect io op hs.keyed
  have ⟨c, hf, hm⟩ := hs.card
  have ⟨c', hf', ht⟩ := exec_terms io hs.keyed hf
  have hlive : Tables.Seated k max (e.exec io op).tables :=
    ⟨hr.preserves (fun hk hs => hs.keyed hk) hs.keyed,
      ⟨c', hf', (congrArg CardTerms.maxConcurrency ht).trans hm⟩, by omega⟩
  refine ⟨hlive, fun {s} he => ?_⟩
  cases hd
  case inl hd => exact h.saved (hd ▸ he)
  case inr hd =>
    have ⟨s', hs', ht, _⟩ := hd
    rw [hs', Option.some.injEq] at he
    rw [←he, ht]
    exact hlive

-- In every run, a card's requests and template waits stay within its limit.
theorem run_count (run : Run Step e ls e') (h : e.Invariant (Tables.Seated k max))
    (hc : e.activeCardConcurrency k none ≤ max) : e'.activeCardConcurrency k none ≤ max := by
  let I (e : Engine F) := e.Invariant (Tables.Seated k max) ∧ e.activeCardConcurrency k none ≤ max
  refine (run.preserves (I := I) (fun ⟨h, hc⟩ hs => ?_) ⟨h, hc⟩).right
  cases hs
  exact ⟨exec_seated h hc, exec_count _ _ h hc⟩

end Engine

-- Whether a request is in flight.
def Tables.InFlight (t : Tables F) (id : String) : Prop :=
  ∃ r, t.reservations.lookup id = some r ∧ r.state = .held

-- Whether the usage of an earlier request of the same id is taken for that of one in flight.
def Tables.Mistaken (t : Tables F) (id : String) : Prop :=
  t.InFlight id ∧ ∃ u ∈ t.ledger, u.isUsageOf id

-- What of a run hasn't ended: requests that were reserved, and neither settled nor released since, and
-- template waits whose slot wasn't dropped.
structure Unended where
  requests : Finset String := ∅
  waits    : Finset (String × String) := ∅
  deriving DecidableEq

namespace Engine

variable [F64 F] [Host F] {e e' : Engine F} {io : Io} {op : Op F} {id : String}

theorem exec_inFlight (hk : e.tables.Keyed) (hreload : op ≠ .reload)
    (hop : ∀ {cardId id p now ttl}, op ≠ .reserve cardId id p now ttl)
    (h : (e.exec io op).tables.InFlight id) : e.tables.InFlight id := by
  have ⟨⟨cs, hr, hm⟩, _⟩ := exec_effect (e := e) io op (by rwa [source_eq hreload])
  rw [source_eq hreload] at hr hm
  let P (t : Tables F) := t.Keyed ∧ (t.InFlight id → e.tables.InFlight id)
  have hp : P (e.exec io op).tables := by
    refine hr.preserves_mem (I := P) ?_ ⟨hk, fun h => h⟩
    intro t c t' hc ⟨hk, hi⟩ hs
    refine ⟨hs.keyed hk, fun ⟨r', hl, hh⟩ => hi ?_⟩
    have ⟨r, hr, hh, _⟩ := hs.inFlight hk (fun he => ?_) hl hh
    · exact ⟨r, hr, hh⟩
    · subst he
      cases hm _ hc
      exact hop rfl
  exact hp.right h

omit [F64 F] [Host F] in
theorem not_inFlight {t : Tables F} {r : CreditReservation F} (h : t.reservations.lookup id = some r)
    (hs : r.state ≠ .held) : ¬t.InFlight id := by
  rintro ⟨r', hr', hh⟩
  rw [h, Option.some.injEq] at hr'
  exact hs (hr' ▸ hh)

-- What is settled isn't in flight any more.
theorem Settling.ended (h : Settling e io id (.ok entry) e') : ¬e'.tables.InFlight id := by
  cases h
  case debited r card hd hc =>
    rw [hc.tables_eq rfl]
    exact not_inFlight (lookup_insert _) nofun

theorem retry_ended (h : ¬e.tables.Mistaken id) (hok : (e.retryPendingSettlement io id).1 = .ok u) :
    ¬(e.retryPendingSettlement io id).2.tables.InFlight id := by
  cases hf : e.tables.ledger.find? (·.isUsageOf id)
  case some u =>
    have hu := List.find?_some hf
    simp only [retryPendingSettlement, Tables.retryPendingSettlement, hf] at hok ⊢
    exact fun hi => h ⟨hi, u, List.mem_of_find?_eq_some hf, hu⟩
  case none =>
    cases hp : e.tables.pendingSettlements.lookup id
    case none =>
      simp only [retryPendingSettlement, Tables.retryPendingSettlement, hf, hp, ofOption] at hok
      cases hok
    case some p =>
      have htxn : e.tables.retryPendingSettlement id = e.tables.completePendingSettlement id p := by
        simp only [Tables.retryPendingSettlement, hf, hp, ofOption]
        rfl
      rw [retryPendingSettlement, htxn] at hok ⊢
      have hs : Settling e io id _ _ := completePending_cases hp
      rw [hok] at hs
      exact hs.ended

omit [F64 F] [Host F] in
theorem release_ended (h : (e.release id).1 = .ok u) : ¬(e.release id).2.tables.InFlight id := by
  simp only [release] at h ⊢
  split at h
  case isTrue => cases h
  case isFalse hp =>
    rw [if_neg hp]
    split
    case h_1 hn =>
      rintro ⟨r, hr, _⟩
      simp [hn] at hr
    case h_2 r hr =>
      split
      case isTrue => exact not_inFlight (lookup_insert _) (by rintro ⟨⟩)
      case isFalse hs => exact not_inFlight hr hs

-- A request that is in flight was, or was just reserved.
theorem exec_inFlight_cases (hk : e.tables.Keyed) (hreload : op ≠ .reload)
    (h : (e.exec io op).tables.InFlight id) : e.tables.InFlight id ∨
      ((e.outcome io op).isOk ∧ ∃ cardId p now ttl, op = .reserve cardId id p now ttl) := by
  by_cases hres : ∃ cardId id p now ttl, op = .reserve cardId id p now ttl
  case neg =>
    simp only [not_exists] at hres
    exact .inl (exec_inFlight hk hreload (hres _ _ _ _ _) h)
  case pos =>
    obtain ⟨cardId, id', p, now, ttl, hop⟩ := hres
    subst hop
    simp only [outcome, exec, reserve] at h ⊢
    cases hr : e.newReservation cardId id' p now ttl
    case error => exact .inl (by simpa [hr] using h)
    case ok cr =>
      rw [hr] at h
      have hi := (newReservation_eq_ok hr).invocation
      obtain ⟨r, hl, hh⟩ := h
      rcases lookup_insert_iff.mp hl with ⟨he, _⟩ | ⟨_, hl⟩
      · exact .inr ⟨rfl, cardId, p, now, ttl, by rw [he, hi]⟩
      · exact .inl ⟨r, hl, hh⟩

-- A wait that goes on did, or just began.
theorem exec_waits_cases {w : String × String} (h : w ∈ (e.exec io op).templateWaits) :
    w ∈ e.templateWaits ∨ ((e.outcome io op).isOk ∧ ∃ revision ruleId modelId now,
      op = .beginResponseTemplateWait revision ruleId modelId w.1 w.2 now) := by
  by_cases hwait : ∃ revision ruleId modelId cardId id now,
      op = .beginResponseTemplateWait revision ruleId modelId cardId id now
  case neg =>
    simp only [not_exists] at hwait
    exact .inl (exec_waits (hwait _ _ _ _ _ _) h)
  case pos =>
    obtain ⟨revision, ruleId, modelId, cardId, id, now, hop⟩ := hwait
    subst hop
    simp only [outcome, exec] at h ⊢
    generalize hb : e.beginResponseTemplateWait revision ruleId modelId cardId id now = b at h ⊢
    obtain ⟨r, e'⟩ := b
    rcases beginWait_cases hb with ⟨_, he⟩ | ⟨_, _, _, hok, he⟩
    · exact .inl (he ▸ h)
    · subst hok he
      rcases Finset.mem_insert.mp h with rfl | h
      · exact .inr ⟨rfl, revision, ruleId, modelId, now, rfl⟩
      · exact .inl h

-- What hasn't ended after an operation that was asked.
def unendedAfter (u : Unended) (e : Engine F) (l : Label F) : Unended :=
  if (e.outcome l.io l.op).isOk then
    match l.op with
    | .reserve _ id ..             => { u with requests := insert id u.requests }
    | .settle id ..                => { u with requests := u.requests.erase id }
    | .retryPendingSettlement id   => { u with requests := u.requests.erase id }
    | .release id                  => { u with requests := u.requests.erase id }
    | .beginResponseTemplateWait _ _ _ cardId id _ =>
      { u with waits := insert (cardId, id) u.waits }
    | .dropWaitSlot cardId id      => { u with waits := u.waits.erase (cardId, id) }
    | _                            => u
  else u

-- What hasn't ended after a run.
def unended (u : Unended) (e : Engine F) : List (Label F) → Unended
  | []      => u
  | l :: ls => unended (unendedAfter u e l) (e.exec l.io l.op) ls

-- Whether every request in flight, and every wait, is one that hasn't ended.
structure Covered (e : Engine F) (u : Unended) : Prop where
  requests : ∀ {id}, e.tables.InFlight id → id ∈ u.requests
  waits    : e.templateWaits ⊆ u.waits

-- Operations by which nothing is mistaken for having ended.
def Unmistaken (e : Engine F) (l : Label F) : Prop :=
  l.op ≠ .reload ∧ ∀ {id}, l.op = .retryPendingSettlement id → ¬e.tables.Mistaken id

theorem Covered.exec {u : Unended} {l : Label F} (h : Covered e u) (hk : e.tables.Keyed)
    (hm : Unmistaken e l) : Covered (e.exec l.io l.op) (unendedAfter u e l) := by
  have ⟨op, io⟩ := l
  have ⟨hreload, hretry⟩ := hm
  simp only at hreload hretry ⊢
  -- What ends a request leaves it not in flight, and the others as they were.
  have hended {id : String} (hop : ∀ {cardId id p now ttl}, op ≠ .reserve cardId id p now ttl)
      (hwait : ∀ {revision ruleId modelId cardId id now},
        op ≠ .beginResponseTemplateWait revision ruleId modelId cardId id now)
      (hend : ¬(e.exec io op).tables.InFlight id) :
      Covered (e.exec io op) { u with requests := u.requests.erase id } := by
    refine ⟨fun {id'} hi => ?_, (exec_waits hwait).trans h.waits⟩
    have hne : id' ≠ id := by
      rintro rfl
      exact hend hi
    exact Finset.mem_erase.mpr ⟨hne, h.requests (exec_inFlight hk hreload hop hi)⟩
  simp only [unendedAfter]
  split
  case isTrue hok =>
    split
    case h_1 cardId id p now ttl =>
      refine ⟨fun {id'} hi => ?_, Finset.Subset.trans (exec_waits ?_) h.waits⟩
      case refine_2 => nofun
      rcases exec_inFlight_cases hk hreload hi with hi | ⟨_, _, _, _, _, hop⟩
      · exact Finset.mem_insert_of_mem (h.requests hi)
      · cases hop
        exact Finset.mem_insert_self _ _
    case h_2 id tokens exposed provider target now =>
      refine hended nofun nofun ?_
      have ⟨entry, hok⟩ := isOk_map.mp hok
      have hs : Settling e io id (e.settle io id tokens exposed provider target now).1 _ :=
        settle_cases
      rw [hok] at hs
      exact hs.ended
    case h_3 id =>
      have ⟨entry, hok⟩ := isOk_map.mp hok
      exact hended nofun nofun (retry_ended (hretry rfl) hok)
    case h_4 id =>
      have ⟨_, hok⟩ := exists_of_isOk hok
      exact hended nofun nofun (release_ended hok)
    case h_5 revision ruleId modelId cardId id now =>
      refine ⟨fun hi => h.requests (exec_inFlight hk hreload nofun hi), fun w hw => ?_⟩
      rcases exec_waits_cases hw with hw | ⟨_, _, _, _, _, hop⟩
      · exact Finset.mem_insert_of_mem (h.waits hw)
      · cases hop
        exact Finset.mem_insert_self _ _
    case h_6 cardId id =>
      refine ⟨fun hi => h.requests (exec_inFlight hk hreload nofun hi), ?_⟩
      exact Finset.erase_subset_erase _ h.waits
    case h_7 hres _ _ _ hwait _ =>
      refine ⟨fun hi => h.requests (exec_inFlight hk hreload (hres _ _ _ _ _) hi), ?_⟩
      exact (exec_waits (hwait _ _ _ _ _ _)).trans h.waits
  case isFalse hok =>
    refine ⟨fun hi => ?_, fun w hw => ?_⟩
    · exact h.requests ((exec_inFlight_cases hk hreload hi).resolve_right fun h => hok h.left)
    · exact h.waits ((exec_waits_cases hw).resolve_right fun h => hok h.left)

-- In a run in which nothing is mistaken for having ended, only what hasn't ended takes slots.
theorem run_covered (run : Run (fun e l e' => Unmistaken e l ∧ Step e l e') e ls e') {u : Unended}
    (h : Covered e u) (hk : e.tables.Keyed) : Covered e' (unended u e ls) := by
  induction run generalizing u
  case nil => exact h
  case cons hl _ hi =>
    have ⟨hm, hs⟩ := hl
    cases hs
    exact hi (h.exec hk hm) (exec_keyed _ hk hm.left)

end Engine

section

variable [F64 F] [Host F] {e₀ e : Engine F} {ls : List (Engine.Label F)} {k : String} {c : Card}

-- A card's requests in flight and template waits are never more than it admits. When all of them have
-- ended there is none left, unless retrying one was answered with the usage of an earlier one.
theorem concurrency_limited (h₀ : e₀.Started) (hw : e₀.templateWaits = ∅)
    (hc : e₀.tables.cards.lookup k = some c) :
    (Run Engine.Step e₀ ls e → e.activeCardConcurrency k none ≤ c.maxConcurrency) ∧
    (Run (fun e l e' => Engine.Unmistaken e l ∧ Engine.Step e l e') e₀ ls e →
      Engine.unended {} e₀ ls = {} → e.activeCardConcurrency k none = 0) := by
  have hnone {t : Tables F} (h : t.Fresh) : t.heldCount k = 0 := by
    simp [Tables.heldCount, h.reservations, total]
  refine ⟨fun run => ?_, fun run hu => ?_⟩
  · refine Engine.run_count run ⟨⟨h₀.fresh.keyed, ⟨c, hc, rfl⟩, ?_⟩, fun {s} hs => ?_⟩ ?_
    · simp [hnone h₀.fresh]
    · have hf := h₀.saved hs
      exact ⟨hf.keyed, ⟨c, h₀.same hs ▸ hc, rfl⟩, by simp [hnone hf]⟩
    · simp [Engine.activeCardConcurrency_le, hnone h₀.fresh, Engine.waitsOf, hw]
  · have hcov : Engine.Covered e₀ {} := by
      refine ⟨?_, by simp [hw]⟩
      rintro _ ⟨r, hr, _⟩
      simp [h₀.fresh.reservations] at hr
    have h := Engine.run_covered run hcov h₀.fresh.keyed
    rw [hu] at h
    have hheld : e.tables.heldCount k = 0 := heldCount_eq_zero fun hr hh => by
      simpa using h.requests ⟨_, hr, hh⟩
    have hwaits : e.waitsOf k = ∅ := by simp [Engine.waitsOf, Finset.subset_empty.mp h.waits]
    have := Engine.activeCardConcurrency_eq e k
    rw [hheld, hwaits] at this
    simpa using this

end
-- Without retries nothing is mistaken.
theorem Engine.run_unmistaken [F64 F] [Host F] {e : Engine F} {ls : List (Engine.Label F)}
    (h : ∀ l ∈ ls, l.op ≠ .reload ∧ ∀ id, l.op ≠ .retryPendingSettlement id) :
    Run (fun e l e' => Engine.Unmistaken e l ∧ Engine.Step e l e') e ls (e.execAll ls) := by
  induction ls generalizing e
  case nil => exact .nil
  case cons l ls hi =>
    have ⟨hreload, hretry⟩ := h l (.head _)
    refine .cons ⟨⟨hreload, fun {id} he => absurd he (hretry id)⟩, rfl⟩ ?_
    exact hi fun l hm => h l (.tail _ hm)

-- A request that is reserved and settled.
def settledRequest : List (Engine.Label ℚ) := [
  ⟨.reserve "card-1" "inv-1" .sample 10 100, {}⟩,
  ⟨.settle "inv-1" { outputTokens := 1000 } "model" "provider" "target" 20, {}⟩
]

theorem concurrency_limited_settledRequest :
    (Engine.sample.execAll settledRequest).activeCardConcurrency "card-1" none = 0 := by
  have hu : Engine.unended {} Engine.sample settledRequest = {} := by decide +kernel
  refine (concurrency_limited sample_started rfl (c := .sample) rfl).right ?_ hu
  exact Engine.run_unmistaken (by simp [settledRequest])

-- Retrying the settlement of an id that was used before answers, and leaves the hold where it is.
theorem reused_id_leaks :
    let ls : List (Engine.Label ℚ) := reusedId ++ [⟨.retryPendingSettlement "inv-1", {}⟩]
    Engine.sample.Started ∧ Engine.sample.templateWaits = ∅ ∧
      Engine.unended {} Engine.sample ls = {} ∧
      (Engine.sample.execAll ls).activeCardConcurrency "card-1" none = 1 :=
  ⟨sample_started, rfl, by decide +kernel, by decide +kernel⟩

end Billing
