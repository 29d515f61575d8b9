import Superkiro.Billing.DeviceEffects

namespace Billing

open F64 Except Host

-- Cards as they are issued, before anything else happened.
structure Tables.Fresh (t : Tables F) : Prop where
  keyed        : t.Keyed
  unused       : ∀ {k c}, t.cards.lookup k = some c → c.creditUsed = 0
  unreserved   : ∀ {k c}, t.cards.lookup k = some c → c.creditReserved = 0
  issued       : ∀ {k c}, t.cards.lookup k = some c → c.issuedCredits = some c.creditTotal
  nonneg       : ∀ {k c}, t.cards.lookup k = some c → 0 ≤ c.creditTotal.val
  reservations : t.reservations = ∅
  pending      : t.pendingSettlements = ∅
  ledger       : t.ledger = []
  receipts     : t.responseTemplateReceipts = []
  archives     : t.archivedLedgerReceipts = []
  archived     : t.archivedLedgerSummary.cards = ∅
  adjustments  : t.archivedLedgerSummary.adjustments = ∅
  invocations  : t.archivedLedgerSummary.usageInvocationIds = ∅

namespace Engine

-- What is on disk afterwards: what was, or the tables there are now.
def Saved (e e' : Engine F) : Prop :=
  e'.disk = e.disk ∨ ∃ s, e'.disk = some s ∧ s.tables = e'.tables ∧ s.version = 2

-- A few changes of some tables led to those of an engine, which may have been saved.
structure Effect [F64 F] [Host F] (t : Tables F) (e : Engine F) (M : Change F → Prop)
    (e' : Engine F) : Prop where
  steps : ∃ cs, Change.Steps t cs e'.tables ∧ ∀ c ∈ cs, M c
  saved : e.Saved e'

-- The tables an operation starts from.
def source (e : Engine F) : Op F → Tables F
  | .reload => (e.disk.map (·.tables)).getD e.tables
  | _       => e.tables

section

variable [F64 F] [Host F] {e e' : Engine F} {io : Io} {M : Change F → Prop} {t' : Tables F}
variable {id : String}

theorem Effect.refl : Effect e.tables e M e := ⟨⟨[], .nil, by simp⟩, .inl rfl⟩

-- A change of memory only.
theorem Effect.of_step (h : Change.Step e.tables c t') (hm : M c) :
    Effect e.tables e M { e with tables := t' } :=
  ⟨Commits.of_step h hm, .inl rfl⟩

theorem Effect.of_unchanged (h : e.Unchanged e') : Effect e.tables e M e' :=
  ⟨⟨[], h.tables ▸ .nil, by simp⟩, .inl h.disk⟩

theorem Effect.congr {t : Tables F} {e'' : Engine F} (h : Effect t e M e')
    (ht : e''.tables = e'.tables) (hd : e''.disk = e'.disk) : Effect t e M e'' :=
  ⟨ht ▸ h.steps, by rw [Saved, hd, ht]; exact h.saved⟩

omit [F64 F] in
theorem Committed.on_disk (h : e.Committed io c e') : e.Saved e' := by
  by_cases hp : e.persistent
  case pos => exact .inr ⟨_, h.saved hp, rfl, rfl⟩
  case neg => exact .inl (h.kept hp)

theorem transact_effect (io : Io) {txn : Result (Txn F α)} (h : Commits e.tables M txn) :
    Effect e.tables e M (e.transact io txn).2 := by
  have ht := transact_cases io h.publishes
  generalize (e.transact io txn).2 = e' at ht
  generalize (e.transact io txn).1 = a at ht
  cases ht
  case refused => exact .refl
  case answered => exact .refl
  case unsaved hu => exact .of_unchanged hu
  case committed hc => exact ⟨h.steps rfl hc.normalized, hc.on_disk⟩

-- What is checked before a hold is taken.
structure Reservable (e : Engine F) (cardId id : String) (now : Nat) (card : Card)
    (r : CreditReservation F) : Prop where
  holdable   : Holdable e.tables card r
  owner      : r.cardId = cardId
  invocation : r.invocationId = id
  created    : r.createdAtSecs = now
  noWait     : (cardId, id) ∉ e.templateWaits
  room       : e.activeCardConcurrency cardId none < card.maxConcurrency
  quota      : e.tables.checkQuota card r.reservedMicroCredits now = .ok ()
  noDebt     : card.outstandingDebt ≤ 0

omit [Host F] in
theorem newReservation_eq_ok {r : CreditReservation F}
    (h : e.newReservation cardId id p now ttl = .ok (card, r)) :
    Reservable e cardId id now card r := by
  simp only [newReservation, checkConcurrency, checkNoDebt, bind_eq_ok', exists_unit, pure_eq_ok,
    ensure_eq_ok, ofOption_eq_ok, decide_eq_true_eq, Bool.not_eq_true',
    decide_eq_false_iff_not] at h
  obtain ⟨_, hwait, hfree, htmp, found, hc, q, hq, hn, hroom, hquota, hdebt, hcan, h⟩ := h
  cases h
  refine ⟨?_, rfl, rfl, rfl, hwait, hroom, hquota, hdebt⟩
  simp only [Tables.checkNotTemplate, bind_eq_ok', exists_unit, ensure_eq_ok, Bool.or_eq_true,
    List.isEmpty_iff, Bool.not_eq_true', decide_eq_false_iff_not] at htmp
  constructor
  case found => exact hc
  case free =>
    intro r' hr'
    simp only [CreditReservation.new] at hr' ⊢
    simpa [Tables.checkNotReserved, hr', ensure_eq_ok] using hfree
  case migrated => exact htmp.left
  case notTemplate => exact htmp.right
  case noPending => exact noPending_of_checkQuota hquota
  case held => rfl
  case nonneg => exact hn
  case covered =>
    simp only [liftCard, mapError_eq_ok, Card.checkCanReserve, bind_eq_ok', exists_unit,
      ensure_eq_ok, decide_eq_true_eq] at hcan
    exact hcan.right
  case priced => exact ⟨p, hq⟩

theorem reserve_effect : Effect e.tables e (Op.Makes e.tables (.reserve cardId id p now ttl))
    (e.reserve cardId id p now ttl).2 := by
  unfold reserve
  split
  case h_1 => exact .refl
  case h_2 card r h =>
    have hr := newReservation_eq_ok h
    exact .of_step (.hold hr.holdable) (.reserve hr.owner hr.invocation hr.created)

omit [F64 F] in
theorem Committed.tables_eq (h : e.Committed io c e')
    (hr : c.responseTemplateReceipts = e.tables.responseTemplateReceipts) : e'.tables = c := by
  have hn := h.normalized
  rw [normalize_of_receipts hr] at hn
  cases hn
  rfl

omit [Host F] in
theorem settleCandidate_cases {t : Tables F} {p : PendingSettlement F} (hd : Due t id p) :
    (∃ r card, t.settleCandidate id p =
      (t.debit id r card (t.finalEntry id p), .ok (t.finalEntry id p)) ∧
      Debitable t id r card (t.finalEntry id p)) ∨
    ∃ err, t.settleCandidate id p = (t.withPending id p, .error err) := by
  simp only [Tables.settleCandidate]
  split
  case h_2 err _ => exact .inr ⟨err, rfl⟩
  case h_1 c entry ha =>
    have ⟨r, card, ha, h⟩ := applyPendingSettlement_cases (.inl (AList.lookup_insert _)) ha
    injection ha with hc he
    subst hc he
    refine .inl ⟨r, card, by rw [debit_withPending]; rfl, ?_⟩
    exact ⟨⟨p, hd, rfl⟩, h.reservation, h.held, h.invocation, h.owner, h.usage, h.charge, h.cost,
      h.found⟩

-- The ways settling a request ends: refused, debited, not saved, or left pending, saved or not.
inductive Settling (e : Engine F) (io : Io) (id : String) :
    Result (LedgerEntry F) → Engine F → Prop
  | refused : Settling e io id (.error err) e
  | debited {r : CreditReservation F} {card : Card} {entry : LedgerEntry F} {e' : Engine F} :
    Debitable e.tables id r card entry → e.Committed io (e.tables.debit id r card entry) e' →
    Settling e io id (.ok entry) e'
  | failed {e' : Engine F} : e.Unchanged e' → Settling e io id (.error err) e'
  | pending {p : PendingSettlement F} {e' : Engine F} :
    e.tables.pendingSettlements.lookup id = none →
    e.tables.priceSettlement id tokens exposed provider target now = .ok p →
    e.Committed io (e.tables.withPending id p) e' → Settling e io id (.error err) e'
  | unsaved {p : PendingSettlement F} {e' : Engine F} :
    e.tables.pendingSettlements.lookup id = none →
    e.tables.priceSettlement id tokens exposed provider target now = .ok p → e.Unchanged e' →
    Settling e io id (.error err) { e' with tables := e'.tables.withPending id p }

theorem settleNew_cases (hn : e.tables.pendingSettlements.lookup id = none) :
    Settling e io id (e.settleNew io id tokens exposed provider target now).1
      (e.settleNew io id tokens exposed provider target now).2 := by
  simp only [settleNew]
  split
  case h_1 => exact .refused
  case h_2 p hp =>
    have hd : Due e.tables id p := .inr ⟨hn, _, _, _, _, _, hp⟩
    cases settleCandidate_cases hd
    case inl hc =>
      have ⟨r, card, hc, hdeb⟩ := hc
      simp only [hc]
      cases commit_cases io
        (publishSettlement_debit e.tables id r card (e.tables.finalEntry id p))
      case inl h =>
        have ⟨err, e', h, hu⟩ := h
        simp only [h]
        exact .unsaved hn hp hu
      case inr h =>
        have ⟨e', h, hcom⟩ := h
        simp only [h]
        exact .debited hdeb hcom
    case inr hc =>
      have ⟨err, hc⟩ := hc
      simp only [hc]
      cases commit_cases io (publishSettlement_withPending e.tables id p)
      case inl h =>
        have ⟨err, e', h, hu⟩ := h
        simp only [h]
        exact .unsaved hn hp hu
      case inr h =>
        have ⟨e', h, hcom⟩ := h
        simp only [h]
        exact .pending hn hp hcom

theorem completePending_cases {p : PendingSettlement F}
    (hp : e.tables.pendingSettlements.lookup id = some p) :
    Settling e io id (e.transact io (e.tables.completePendingSettlement id p)).1
      (e.transact io (e.tables.completePendingSettlement id p)).2 := by
  have ht := transact_cases io
    (completePendingSettlement_commits (M := fun _ => True) hp trivial).publishes
  cases hc : e.tables.completePendingSettlement id p
  case error => exact .refused
  case ok txn =>
    have ⟨r, card, hd, hw⟩ := completePendingSettlement_eq_ok hp hc
    subst hw
    rw [hc] at ht
    generalize (e.transact io _).1 = res at ht ⊢
    generalize (e.transact io _).2 = e' at ht ⊢
    cases ht
    case unsaved hu => exact .failed hu
    case committed hcom => exact .debited hd hcom

theorem settle_cases : Settling e io id (e.settle io id tokens exposed provider target now).1
    (e.settle io id tokens exposed provider target now).2 := by
  simp only [settle]
  split
  case h_1 hn => exact settleNew_cases hn
  case h_2 p hp =>
    split
    case isTrue => exact completePending_cases hp
    case isFalse => exact .refused

theorem settle_effect :
    Effect e.tables e (Op.Makes e.tables (.settle id tokens exposed provider target now))
      (e.settle io id tokens exposed provider target now).2 := by
  have h : Settling e io id (e.settle io id tokens exposed provider target now).1 _ := settle_cases
  generalize (e.settle io id tokens exposed provider target now).1 = r at h
  generalize (e.settle io id tokens exposed provider target now).2 = e' at h ⊢
  cases h
  case refused => exact .refl
  case debited hd hc =>
    refine ⟨?_, hc.on_disk⟩
    rw [hc.tables_eq rfl]
    exact Commits.of_step (.debit hd) .settle
  case failed hu => exact .of_unchanged hu
  case pending hn hp hc =>
    refine ⟨?_, hc.on_disk⟩
    rw [hc.tables_eq rfl]
    exact Commits.of_step (.pend hn hp) .pend
  case unsaved hn hp hu =>
    refine ⟨?_, .inl hu.disk⟩
    rw [hu.tables]
    exact Commits.of_step (.pend hn hp) .pend

theorem release_effect :
    Effect e.tables e (Op.Makes e.tables (.release id)) (e.release id).2 := by
  simp only [release]
  split
  case isTrue => exact .refl
  case isFalse hp =>
    split
    case h_1 => exact .refl
    case h_2 r hr =>
      split
      case isTrue hh => exact .of_step (.release hp hr hh) .release
      case isFalse => exact .refl

theorem runJanitor_effect (hk : e.tables.Keyed) :
    Effect e.tables e (Op.Makes e.tables (.runJanitor now)) (e.runJanitor io now).2 := by
  have h := transact_effect io (runJanitor_commits e.activeReservations now hk)
  unfold runJanitor
  split <;> simp_all

theorem adjustCardBalance_effect {a : BalanceAdjustment} :
    Effect e.tables e (Op.Makes e.tables (.adjustCardBalance a)) (e.adjustCardBalance io a).2 := by
  have h := transact_effect io
    (adjustCardBalance_commits (t := e.tables) (parseJson F) e.compensations e.archives a)
  simp only [adjustCardBalance]
  split
  case h_1 he =>
    rw [he] at h
    exact h.congr rfl rfl
  case h_2 => exact h

theorem archiveLedger_effect :
    Effect e.tables e (Op.Makes e.tables (.archiveLedger before))
      (e.archiveLedger io before).2 := by
  have hc := archiveLedger_commits (t := e.tables) before (e.archiveReceipt io before) rfl
  simp only [archiveLedger]
  split
  case h_1 txn ht _ =>
    rw [ht] at hc
    let files := e.archiveFiles.insert (e.archiveReceipt io before).archiveFile
      (e.tables.archived before)
    have h := transact_effect (e := { e with archiveFiles := files }) io hc
    exact ⟨h.steps, h.saved⟩
  case h_2 => exact .refl
  case h_3 => exact .refl

theorem beginResponseTemplateWait_effect :
    Effect e.tables e M (e.beginResponseTemplateWait revision ruleId modelId cardId id now).2 := by
  simp only [beginResponseTemplateWait]
  split
  case h_1 => exact Effect.refl.congr rfl rfl
  case h_2 => exact .refl

theorem reload_effect :
    Effect (e.source .reload) e (Op.Makes (e.source .reload) .reload) e.reload := by
  cases hs : e.disk
  case some s =>
    simp only [reload, source, hs, Option.map_some, Option.getD_some]
    exact ⟨Commits.of_step .recover .reload, .inl rfl⟩
  case none =>
    simp only [reload, source, hs, Option.map_none, Option.getD_none]
    exact .refl

-- What an operation does to the tables and the disk comes to a few changes, and to saving them.
theorem exec_effect (io : Io) (op : Op F) (hk : (e.source op).Keyed) :
    Effect (e.source op) e (op.Makes (e.source op)) (e.exec io op) := by
  cases op
  case reserve => exact reserve_effect
  case extendReservation => exact transact_effect io extendReservation_commits
  case settle => exact settle_effect
  case retryPendingSettlement => exact transact_effect io retryPendingSettlement_commits
  case release => exact release_effect
  case runJanitor => exact runJanitor_effect hk
  case chargeResponseTemplate => exact transact_effect io templateCharge_commits
  case publishResponseTemplates => exact transact_effect io publishTemplates_commits
  case freezeCard => exact transact_effect io (.of_post freezeCard_posts)
  case unfreezeCard => exact transact_effect io (.of_post unfreezeCard_posts)
  case banCard => exact transact_effect io (.of_post banCard_posts)
  case unbanCard => exact transact_effect io (.of_post unbanCard_posts)
  case voidCard => exact transact_effect io (.of_post voidCard_posts)
  case changeCardGroup => exact transact_effect io (.of_post changeCardGroup_posts)
  case extendValidity => exact transact_effect io (extendValidity_commits hk)
  case adjustCardBalance => exact adjustCardBalance_effect
  case redeemTopup => exact transact_effect io (redeemTopup_commits hk)
  case renewWithCard => exact transact_effect io (renewWithCard_commits hk)
  case upgradeCard => exact transact_effect io (.of_post upgradeCard_posts)
  case archiveLedger => exact archiveLedger_effect
  case publishCommercialConfig => exact transact_effect io publishCommercialConfig_commits
  case activateCard => exact transact_effect io (.of_replace activateCard_replaces)
  case activateCardWithDevice => exact transact_effect io (.of_replace activateCardWithDevice_replaces)
  case bindDevice => exact transact_effect io (.of_replace bindDevice_replaces)
  case unbindDevice => exact transact_effect io (.of_replace unbindDevice_replaces)
  case adminUnbindDevice => exact transact_effect io (.of_post adminUnbindDevice_posts)
  case resetRebinds => exact transact_effect io (.of_post resetRebinds_posts)
  case rekeyCard => exact transact_effect io (.of_post rekeyCard_posts)
  case setCardCodeHash => exact transact_effect io (.of_replace setCardCodeHash_replaces)
  case revokeTokens => exact transact_effect io (.of_replace revokeTokens_replaces)
  case consumeRefreshToken => exact transact_effect io consumeRefreshToken_commits
  case rotateRefresh => exact transact_effect io rotateRefresh_commits
  case setCardArchived => exact transact_effect io (.of_post setCardArchived_posts)
  case beginResponseTemplateWait => exact beginResponseTemplateWait_effect
  case dropWaitSlot => exact Effect.refl.congr rfl rfl
  case protect => exact Effect.refl.congr rfl rfl
  case restart => exact ⟨Commits.of_step .recover .restart, .inl rfl⟩
  case reload => exact reload_effect

-- An engine that was just started, with the state last saved being that of the same cards.
structure Started (e : Engine F) : Prop where
  fresh : e.tables.Fresh
  saved : ∀ {s}, e.disk = some s → s.tables.Fresh
  same  : ∀ {s}, e.disk = some s → s.tables.cards = e.tables.cards

-- An invariant of the tables in memory and of those on disk.
structure Invariant (P : Tables F → Prop) (e : Engine F) : Prop where
  live  : P e.tables
  saved : ∀ {s}, e.disk = some s → P s.tables

omit [F64 F] [Host F] in
theorem Started.invariant (h : e.Started) : e.Invariant Tables.Fresh := ⟨h.fresh, h.saved⟩

variable {P : Tables F → Prop} {op : Op F}

omit [F64 F] [Host F] in
theorem Invariant.source (h : e.Invariant P) : P (e.source op) := by
  cases op
  case reload =>
    simp only [Engine.source]
    cases hd : e.disk
    case none => exact h.live
    case some s => exact h.saved hd
  all_goals exact h.live

-- What the changes an operation makes preserve, the operation does.
theorem Invariant.exec (hk : ∀ {t}, P t → t.Keyed) (h : e.Invariant P)
    (hs : ∀ {t c t'}, op.Makes (e.source op) c → P t → Change.Step t c t' → P t') :
    (e.exec io op).Invariant P := by
  have ⟨⟨cs, hr, hc⟩, hd⟩ := exec_effect io op (hk h.source)
  have hl := hr.preserves_mem (I := P) (fun hm => hs (hc _ hm)) h.source
  refine ⟨hl, fun {s} he => ?_⟩
  cases hd
  case inl hd => exact h.saved (hd ▸ he)
  case inr hd =>
    have ⟨s', hs', ht, _⟩ := hd
    rw [hs', Option.some.injEq] at he
    rw [←he, ht]
    exact hl

-- What every change preserves, every run of operations does.
theorem Invariant.run (hk : ∀ {t}, P t → t.Keyed)
    (hs : ∀ {t c t'}, P t → Change.Step t c t' → P t') {ls : List (Label F)}
    (r : Run Engine.Step e ls e') (h : e.Invariant P) : e'.Invariant P := by
  refine r.preserves (fun h hl => ?_) h
  rw [hl]
  exact h.exec hk fun _ => hs

omit [F64 F] [Host F] in
theorem Invariant.mono {Q : Tables F → Prop} (h : e.Invariant P) (hi : ∀ {t}, P t → Q t) :
    e.Invariant Q :=
  ⟨hi h.live, fun hd => hi (h.saved hd)⟩

end

end Engine

-- Exact arithmetic, hashes that tell by their text what they are of, and lengths as those of the
-- encoded texts.
instance : Host ℚ where
  isAlphanumeric c       := c.isAlphanum
  rulesBytes rules       := 2 + 400 * rules.length
  receiptBytes r         := 500 + Text.len r.content
  parseJson _            := none
  hashCardCode code      := "hash:" ++ code
  decrypt                := some
  templateDigest _ now   := "digest:" ++ toString now
  commercialDigest v     := Text.join "," (v.rateCardVersions.map (·.id) ++ v.groups.map (·.id) ++
    v.modelMaps.map (·.id))
  idsBytes ids           := 2 + ids.sum fun id => Text.len id + 3
  fileBytes s            := 1000 + 400 * s.tables.ledger.length
  checksum s             := "checksum:" ++ toString s.sequence
  archiveChecksum es     := "checksum:" ++ Text.join "," (es.map (·.id))
  ledger_le_fileBytes _  := by omega

-- An engine with one active card of a hundred credits.
def Card.sample : Card :=
  { Card.new "card-1" "default" 100000000 with status := .active, activatedAt := some 0 }

def Engine.sample : Engine ℚ where
  tables := { cards := (∅ : Table String Card).insert "card-1" .sample, settings := .default }

-- An engine with one card.
def Engine.ofCard (c : Card) : Engine ℚ where
  tables := { cards := (∅ : Table String Card).insert c.id c, settings := .default }

theorem lookup_ofCard {card : Card} (h : (Engine.ofCard card).tables.cards.lookup k = some c) :
    k = card.id ∧ c = card := by
  cases AList.lookup_insert_iff.mp h
  case inl h => exact ⟨h.left, h.right.symm⟩
  case inr h => simp at h

-- An engine is started with a card that wasn't used yet.
theorem ofCard_started {c : Card} (hu : c.creditUsed = 0) (hr : c.creditReserved = 0)
    (hi : c.issuedCredits = some c.creditTotal) (hn : 0 ≤ c.creditTotal.val) :
    (Engine.ofCard c).Started where
  fresh := {
    keyed        := ⟨fun _ _ h => by simp [lookup_ofCard h],
      fun _ _ h => by simp [Engine.ofCard] at h, fun _ _ h => by simp [Engine.ofCard] at h⟩
    unused h     := by simp [lookup_ofCard h, hu]
    unreserved h := by simp [lookup_ofCard h, hr]
    issued h     := by simp [lookup_ofCard h, hi]
    nonneg h     := by simpa [lookup_ofCard h] using hn
    reservations := rfl
    pending      := rfl
    ledger       := rfl
    receipts     := rfl
    archives     := rfl
    archived     := rfl
    adjustments  := rfl
    invocations  := rfl
  }
  same  := nofun
  saved := nofun

theorem sample_started : Engine.sample.Started :=
  ofCard_started (c := .sample) rfl rfl rfl (by decide)

-- A request for a thousand tokens each way.
def ReservationEstimateParams.sample : ReservationEstimateParams ℚ where
  estimatedInputTokens := 1000
  maxOutputTokens      := 1000
  creditMultiplier     := 1
  marginMultiplier     := 1
  billingMultiplier    := 1

end Billing
